import Veloq.Heap.ChunkInvariant
set_option autoImplicit false

/-!
# Heap: a chunk whose shards consist of whole superblocks

The invariant of a chunk whose shard length is a multiple of the superblock size, and
its preservation by every operation.  Each operation is put together from four moves:
take a block from a shard, give one back, change the state of a superblock, and forget
or add a holder.
-/

namespace Veloq.Heap

open Veloq.Foundation
open Veloq.Foundation.Dyadic

/-! ## The invariant -/

/-- Shard boundaries are superblock boundaries, and everything is mapped. -/
structure Geometry (c : Chunk) : Prop where
  aligned : superblockSize ∣ c.slotsPerShard
  covered : c.shards.length * c.slotsPerShard ≤ c.superblocks.length * superblockSize
  mapped : c.superblocks.length * superblockSize * slotSize ≤ c.memoryLen

/-- `superblock` was carved from the block of `shard` at `block`. -/
def Carved (c : Chunk) (owned : Nat → Nat → Option Nat) (superblock shard block : Nat) : Prop :=
  shard < c.shards.length ∧ owned shard block = some superblockOrder ∧
    shard * c.slotsPerShard + block = superblock * superblockSize

/-- A live allocation is a block of its shard, or a slot in use of its superblock. -/
def Placed (c : Chunk) (owned : Nat → Nat → Option Nat) (a : Allocation) : Prop :=
  match a.superblock with
  | none => a.order ≠ 0 ∧ a.shard < c.shards.length ∧ owned a.shard a.block = some a.order ∧
      a.index = a.shard * c.slotsPerShard + a.block
  | some superblock => a.order = 0 ∧ Carved c owned superblock a.shard a.block ∧
      Chunk.superblockIndex a.index = superblock ∧
      ∃ state, c.superblocks[superblock]? = some state ∧
        state.freeMask.getLsbD (Chunk.superblockOffset a.index) = false

/-- Two allocations share a block only as different slots of one superblock. -/
def Allocation.Exclusive (a b : Allocation) : Prop :=
  (a.shard, a.block) ≠ (b.shard, b.block) ∨
    (a.superblock ≠ none ∧ b.superblock ≠ none ∧ a.index ≠ b.index)

structure ChunkInv (owned : Nat → Nat → Option Nat) (s : ChunkUse) : Prop where
  geometry : Geometry s.chunk
  shards : ShardsOk s.chunk.slotsPerShard owned s.chunk.shards
  placed : ∀ a ∈ s.live, Placed s.chunk owned a
  exclusive : s.live.Pairwise Allocation.Exclusive
  carved : ∀ e ∈ s.entries, Carved s.chunk owned e.superblock e.shard e.block
  active : ∀ e ∈ s.entries, ∃ state, s.chunk.superblocks[e.superblock]? = some state ∧
    state.isActive = true
  distinct : (s.entries.map CacheEntry.superblock).Nodup
  apart : ∀ e ∈ s.entries, ∀ a ∈ s.live, a.superblock = none →
    (a.shard, a.block) ≠ (e.shard, e.block)

theorem Allocation.Exclusive.symm {a b : Allocation} (h : a.Exclusive b) : b.Exclusive a := by
  rcases h with hne | ⟨ha, hb, hne⟩
  · exact Or.inl (Ne.symm hne)
  · exact Or.inr ⟨hb, ha, Ne.symm hne⟩

/-! ## Facts about holders -/

/-- The parts of a chunk that no operation changes. -/
structure SameShape (c c' : Chunk) : Prop where
  shards : c'.shards.length = c.shards.length
  superblocks : c'.superblocks.length = c.superblocks.length
  memoryLen : c'.memoryLen = c.memoryLen
  slotsPerShard : c'.slotsPerShard = c.slotsPerShard

variable {c c' : Chunk} {owned owned' : Nat → Nat → Option Nat} {s : ChunkUse}
  {a : Allocation} {e : CacheEntry} {superblock shard block i l k : Nat}

theorem Geometry.congr (h : Geometry c) (hshape : SameShape c c') : Geometry c' := by
  refine ⟨?_, ?_, ?_⟩
  · rw [hshape.slotsPerShard]
    exact h.aligned
  · rw [hshape.shards, hshape.slotsPerShard, hshape.superblocks]
    exact h.covered
  · rw [hshape.superblocks, hshape.memoryLen]
    exact h.mapped

theorem Carved.congr (h : Carved c owned superblock shard block) (hshape : SameShape c c')
    (howned : owned' shard block = owned shard block) : Carved c' owned' superblock shard block := by
  unfold Carved at h ⊢
  rw [hshape.shards, howned, hshape.slotsPerShard]
  exact h

theorem Placed.congr (h : Placed c owned a) (hshape : SameShape c c')
    (howned : owned' a.shard a.block = owned a.shard a.block)
    (hstate : ∀ superblock, a.superblock = some superblock →
      c'.superblocks[superblock]? = c.superblocks[superblock]?) : Placed c' owned' a := by
  unfold Placed at h ⊢
  cases hsb : a.superblock with
  | none =>
    simp only [hsb] at h ⊢
    rw [hshape.shards, howned, hshape.slotsPerShard]
    exact h
  | some superblock =>
    simp only [hsb] at h ⊢
    rw [hstate superblock hsb]
    exact ⟨h.1, h.2.1.congr hshape howned, h.2.2⟩

/-- The order of the block behind an allocation. -/
def Allocation.blockOrder (a : Allocation) : Nat :=
  match a.superblock with
  | none => a.order
  | some _ => superblockOrder

theorem Placed.owned_block (h : Placed c owned a) :
    a.shard < c.shards.length ∧ owned a.shard a.block = some a.blockOrder := by
  unfold Placed at h
  unfold Allocation.blockOrder
  cases hsb : a.superblock with
  | none =>
    simp only [hsb] at h
    exact ⟨h.2.1, h.2.2.1⟩
  | some superblock =>
    simp only [hsb] at h
    exact ⟨h.2.1.1, h.2.1.2.1⟩

/-- The pages of an allocation are pages of its block. -/
theorem Placed.covers_block (h : Placed c owned a) {p : Nat} (hp : Covers a.index a.order p) :
    Covers (a.shard * c.slotsPerShard + a.block) a.blockOrder p := by
  unfold Placed at h
  unfold Allocation.blockOrder
  cases hsb : a.superblock with
  | none =>
    simp only [hsb] at h
    rw [← h.2.2.2]
    exact hp
  | some superblock =>
    simp only [hsb] at h
    obtain ⟨horder, hcarved, hindex, -⟩ := h
    rw [hcarved.2.2]
    rw [horder] at hp
    unfold Covers at hp ⊢
    unfold Chunk.superblockIndex superblockSize at hindex
    simp only [superblockSize, superblockOrder]
    omega

/-- One superblock is carved from one block. -/
theorem Carved.block_eq (h : Carved c owned superblock shard block)
    (hok : ShardsOk c.slotsPerShard owned c.shards) (h' : Carved c owned superblock i l) :
    (shard, block) = (i, l) := by
  have hslot : ∀ {i l}, Carved c owned superblock i l → l < c.slotsPerShard := by
    intro i l h
    have := (hok.block h.1 h.2.1).2
    have := Nat.two_pow_pos superblockOrder
    omega
  have hsum := h.2.2.trans h'.2.2.symm
  obtain ⟨hdiv, hmod⟩ := shard_local_round_trip shard (hslot h)
  obtain ⟨hdiv', hmod'⟩ := shard_local_round_trip i (hslot h')
  rw [hsum] at hdiv hmod
  rw [← hdiv, ← hmod, hdiv', hmod']

theorem Carved.superblock_eq (h : Carved c owned superblock shard block) {superblock' : Nat}
    (h' : Carved c owned superblock' shard block) : superblock = superblock' := by
  have hsum := h.2.2.symm.trans h'.2.2
  unfold superblockSize at hsum
  omega

/-- `alloc_one` takes the free slot with the least offset. -/
theorem SuperblockState.allocOne_of_ne {state : SuperblockState} (hne : state.freeMask ≠ 0) :
    ∃ offset, offset < 64 ∧ state.freeMask.getLsbD offset = true ∧
      state.allocOne =
        ({ state with freeMask := state.freeMask &&& ~~~(1#64 <<< offset) }, some offset) := by
  have hbit := BitVec.getLsbD_true_ctz_of_ne_zero hne
  refine ⟨state.freeMask.ctz.toNat, BitVec.lt_of_getLsbD hbit, hbit, ?_⟩
  unfold SuperblockState.allocOne
  rw [if_neg hne]

namespace ChunkInv

/-! ## The moves -/

/-- Holders are forgotten. -/
theorem forget (h : ChunkInv owned s) {live : List Allocation} {entries : List CacheEntry}
    (hlive : live.Sublist s.live) (hentries : entries.Sublist s.entries) :
    ChunkInv owned ⟨s.chunk, live, entries⟩ :=
  ⟨h.geometry, h.shards, fun a ha => h.placed a (hlive.subset ha), h.exclusive.sublist hlive,
    fun e he => h.carved e (hentries.subset he), fun e he => h.active e (hentries.subset he),
    h.distinct.sublist (hentries.map _),
    fun e he a ha => h.apart e (hentries.subset he) a (hlive.subset ha)⟩

/-- The shards and their blocks change where nobody holds anything. -/
theorem reshard (h : ChunkInv owned s) (hshape : SameShape s.chunk c')
    (hsuperblocks : c'.superblocks = s.chunk.superblocks)
    (hok : ShardsOk c'.slotsPerShard owned' c'.shards)
    (hlive : ∀ a ∈ s.live, owned' a.shard a.block = owned a.shard a.block)
    (hentries : ∀ e ∈ s.entries, owned' e.shard e.block = owned e.shard e.block) :
    ChunkInv owned' ⟨c', s.live, s.entries⟩ := by
  refine ⟨h.geometry.congr hshape, hok, ?_, h.exclusive, ?_, ?_, h.distinct, h.apart⟩
  · intro a ha
    exact (h.placed a ha).congr hshape (hlive a ha) fun _ _ => by rw [hsuperblocks]
  · intro e he
    exact (h.carved e he).congr hshape (hentries e he)
  · show ∀ e ∈ s.entries, ∃ state, c'.superblocks[e.superblock]? = some state ∧ _
    rw [hsuperblocks]
    exact h.active

/-- A block is taken from a shard. -/
theorem acquire (h : ChunkInv owned s) {b : BuddyAllocator} (hfree : owned i l = none)
    (hok : ShardsOk s.chunk.slotsPerShard (setOwned owned i l (some k)) (s.chunk.shards.set i b)) :
    ChunkInv (setOwned owned i l (some k))
        ⟨{ s.chunk with shards := s.chunk.shards.set i b }, s.live, s.entries⟩ ∧
      (∀ a ∈ s.live, (a.shard, a.block) ≠ (i, l)) ∧
      (∀ e ∈ s.entries, (e.shard, e.block) ≠ (i, l)) := by
  have hlive : ∀ a ∈ s.live, (a.shard, a.block) ≠ (i, l) := by
    intro a ha heq
    have howned := (h.placed a ha).owned_block.2
    rw [show a.shard = i from congrArg Prod.fst heq, show a.block = l from congrArg Prod.snd heq,
      hfree] at howned
    exact absurd howned (by simp)
  have hentries : ∀ e ∈ s.entries, (e.shard, e.block) ≠ (i, l) := by
    intro e he heq
    have howned := (h.carved e he).2.1
    rw [show e.shard = i from congrArg Prod.fst heq, show e.block = l from congrArg Prod.snd heq,
      hfree] at howned
    exact absurd howned (by simp)
  refine ⟨h.reshard ⟨List.length_set, rfl, rfl, rfl⟩ rfl hok ?_ ?_, hlive, hentries⟩
  · exact fun a ha => setOwned_of_ne (hlive a ha)
  · exact fun e he => setOwned_of_ne (hentries e he)

/-- A block that nobody holds goes back to its shard. -/
theorem release (h : ChunkInv owned s) (hi : i < s.chunk.shards.length)
    (howned : owned i l = some k) (hlive : ∀ a ∈ s.live, (a.shard, a.block) ≠ (i, l))
    (hentries : ∀ e ∈ s.entries, (e.shard, e.block) ≠ (i, l)) :
    ∃ c', s.chunk.deallocGlobal (i * s.chunk.slotsPerShard + l) k = some c' ∧
      BlockFreed s.chunk c' i l k ∧ c'.superblocks = s.chunk.superblocks ∧
      ChunkInv (setOwned owned i l none) ⟨c', s.live, s.entries⟩ := by
  obtain ⟨c', hdealloc, hfreed, hlen, hsuperblocks, hmemory, hslots, hok⟩ :=
    Chunk.deallocGlobal_spec h.shards hi howned
  refine ⟨c', hdealloc, hfreed, hsuperblocks, h.reshard ⟨hlen, by rw [hsuperblocks], hmemory, hslots⟩
    hsuperblocks (by rw [hslots]; exact hok) ?_ ?_⟩
  · exact fun a ha => setOwned_of_ne (hlive a ha)
  · exact fun e he => setOwned_of_ne (hentries e he)

/-- The state of a superblock changes, but its slots in use stay so, and so does its
holder. -/
theorem restate (h : ChunkInv owned s) {state : SuperblockState}
    (hslots : ∀ a ∈ s.live, a.superblock = some superblock →
      state.freeMask.getLsbD (Chunk.superblockOffset a.index) = false)
    (hactive : ∀ e ∈ s.entries, e.superblock = superblock → state.isActive = true) :
    ChunkInv owned ⟨{ s.chunk with superblocks := s.chunk.superblocks.set superblock state },
      s.live, s.entries⟩ := by
  have hshape : SameShape s.chunk
      { s.chunk with superblocks := s.chunk.superblocks.set superblock state } :=
    ⟨rfl, List.length_set, rfl, rfl⟩
  -- the states that holders look at are the old ones or the new one
  have hget : ∀ j old, s.chunk.superblocks[j]? = some old →
      (s.chunk.superblocks.set superblock state)[j]? =
        some (if j = superblock then state else old) := by
    intro j old hold
    by_cases hj : j = superblock
    · subst hj
      rw [List.getElem?_set_self', hold, if_pos rfl]
      rfl
    · rw [List.getElem?_set_ne (Ne.symm hj), hold, if_neg hj]
  refine ⟨h.geometry.congr hshape, h.shards, ?_, h.exclusive, ?_, ?_, h.distinct, h.apart⟩
  · intro a ha
    have hplaced := h.placed a ha
    unfold Placed at hplaced ⊢
    cases hsb : a.superblock with
    | none =>
      simp only [hsb] at hplaced ⊢
      exact hplaced
    | some sb =>
      simp only [hsb] at hplaced ⊢
      obtain ⟨horder, hcarved, hindex, old, hold, hbit⟩ := hplaced
      refine ⟨horder, hcarved, hindex, _, hget sb old hold, ?_⟩
      split
      · rename_i heq
        exact hslots a ha (hsb.trans (congrArg some heq))
      · exact hbit
  · intro e he
    exact (h.carved e he).congr hshape rfl
  · intro e he
    obtain ⟨old, hold, hisActive⟩ := h.active e he
    refine ⟨_, hget e.superblock old hold, ?_⟩
    split
    · rename_i heq
      exact hactive e he heq
    · exact hisActive

/-- A holder of pages is added. -/
theorem addLive (h : ChunkInv owned s) (hplaced : Placed s.chunk owned a)
    (hexclusive : ∀ b ∈ s.live, a.Exclusive b)
    (hapart : ∀ e ∈ s.entries, a.superblock = none → (a.shard, a.block) ≠ (e.shard, e.block)) :
    ChunkInv owned { s with live := a :: s.live } := by
  refine ⟨h.geometry, h.shards, ?_, List.pairwise_cons.mpr ⟨hexclusive, h.exclusive⟩, h.carved,
    h.active, h.distinct, ?_⟩
  · intro b hb
    rcases List.mem_cons.mp hb with rfl | hb
    · exact hplaced
    · exact h.placed b hb
  · intro e he b hb
    rcases List.mem_cons.mp hb with rfl | hb
    · exact hapart e he
    · exact h.apart e he b hb

/-- A holder of a superblock is added. -/
theorem addEntry (h : ChunkInv owned s)
    (hcarved : Carved s.chunk owned e.superblock e.shard e.block)
    (hactive : ∃ state, s.chunk.superblocks[e.superblock]? = some state ∧ state.isActive = true)
    (hdistinct : ∀ e' ∈ s.entries, e'.superblock ≠ e.superblock)
    (hapart : ∀ a ∈ s.live, a.superblock = none → (a.shard, a.block) ≠ (e.shard, e.block)) :
    ChunkInv owned { s with entries := e :: s.entries } := by
  refine ⟨h.geometry, h.shards, h.placed, h.exclusive, ?_, ?_, ?_, ?_⟩
  · intro e' he'
    rcases List.mem_cons.mp he' with rfl | he'
    · exact hcarved
    · exact h.carved e' he'
  · intro e' he'
    rcases List.mem_cons.mp he' with rfl | he'
    · exact hactive
    · exact h.active e' he'
  · refine List.nodup_cons.mpr ⟨?_, h.distinct⟩
    intro hin
    obtain ⟨e', he', heq⟩ := List.mem_map.mp hin
    exact hdistinct e' he' heq
  · intro e' he' a ha
    rcases List.mem_cons.mp he' with rfl | he'
    · exact hapart a ha
    · exact h.apart e' he' a ha

/-! ## Allocation -/

/-- A block of more than one slot. -/
theorem allocLarge (h : ChunkInv owned s) {order : Nat} (horder : order ≠ 0) (seed : Option Nat)
    (threadHash : Nat) :
    s.chunk.allocLarge order seed threadHash = some (s.chunk, none) ∨
    ∃ c a owned', s.chunk.allocLarge order seed threadHash = some (c, some a) ∧
      ChunkInv owned' ⟨c, a :: s.live, s.entries⟩ := by
  unfold Chunk.allocLarge
  rcases Chunk.allocGlobal_spec h.shards order seed threadHash with hnone |
    ⟨i, l, b, hi, hsome, hfree, hok⟩
  · left
    simp only [hnone]
  · right
    obtain ⟨h₁, hlive, hentries⟩ := h.acquire hfree hok
    simp only [hsome]
    refine ⟨_, _, _, rfl, h₁.addLive ?_ ?_ ?_⟩
    · refine ⟨horder, ?_, setOwned_self .., rfl⟩
      rw [List.length_set]
      exact hi
    · exact fun a ha => Or.inl (Ne.symm (hlive a ha))
    · exact fun e he _ => Ne.symm (hentries e he)

/-- A fresh block of 64 slots is a superblock of its own. -/
theorem carved_fresh (hgeometry : Geometry c) (hok : ShardsOk c.slotsPerShard owned c.shards)
    (hi : i < c.shards.length) (howned : owned i l = some superblockOrder) :
    Carved c owned (Chunk.superblockIndex (c.fromShardLocal i l)) i l ∧
      Chunk.superblockIndex (c.fromShardLocal i l) < c.superblocks.length := by
  obtain ⟨hdvd, hinside⟩ := hok.block hi howned
  have hwhole : superblockSize ∣ i * c.slotsPerShard + l :=
    Nat.dvd_add (Nat.dvd_trans hgeometry.aligned (Nat.dvd_mul_left ..)) hdvd
  have hbound : i * c.slotsPerShard + c.slotsPerShard ≤ c.shards.length * c.slotsPerShard := by
    rw [← Nat.succ_mul]
    exact Nat.mul_le_mul_right _ hi
  have hcovered := hgeometry.covered
  unfold Chunk.superblockIndex Chunk.fromShardLocal
  refine ⟨⟨hi, howned, (Nat.div_mul_cancel hwhole).symm⟩, ?_⟩
  refine (Nat.div_lt_iff_lt_mul (by decide)).mpr ?_
  have hpos : 0 < 2 ^ superblockOrder := by decide
  omega

/-- The holder of a superblock takes a slot that is not in use. -/
theorem allocOne (h : ChunkInv owned s) (he : e ∈ s.entries) {state : SuperblockState}
    (hstate : s.chunk.superblocks[e.superblock]? = some state) (hne : state.freeMask ≠ 0) :
    ∃ c offset, s.chunk.allocOne e.superblock = some (c, some offset) ∧ offset < 64 ∧
      c.memoryLen = s.chunk.memoryLen ∧
      ChunkInv owned ⟨c, ⟨Chunk.fromSuperblockOffset e.superblock offset, 0, e.shard, e.block,
        some e.superblock⟩ :: s.live, s.entries⟩ := by
  obtain ⟨offset, hlt, hfree, halloc⟩ := SuperblockState.allocOne_of_ne hne
  have hsplit : Chunk.superblockIndex (Chunk.fromSuperblockOffset e.superblock offset) =
      e.superblock ∧
      Chunk.superblockOffset (Chunk.fromSuperblockOffset e.superblock offset) = offset := by
    unfold Chunk.superblockIndex Chunk.superblockOffset Chunk.fromSuperblockOffset superblockSize
    omega
  -- the slots in use of this superblock have other offsets
  have hother : ∀ a ∈ s.live, a.superblock = some e.superblock →
      state.freeMask.getLsbD (Chunk.superblockOffset a.index) = false := by
    intro a ha hsb
    have hplaced := h.placed a ha
    simp only [Placed, hsb] at hplaced
    obtain ⟨-, -, -, state', hstate', hbit⟩ := hplaced
    cases hstate'.symm.trans hstate
    exact hbit
  have hactive : state.isActive = true := by
    obtain ⟨state', hstate', hactive⟩ := h.active e he
    cases hstate'.symm.trans hstate
    exact hactive
  set used : SuperblockState :=
    { state with freeMask := state.freeMask &&& ~~~(1#64 <<< offset) } with hused
  have hmask : ∀ j, used.freeMask.getLsbD j = (state.freeMask.getLsbD j && !decide (j = offset)) :=
    fun j => Bits.getLsbD_and_not_bit _ hlt
  have hslots : ∀ a ∈ s.live, a.superblock = some e.superblock →
      used.freeMask.getLsbD (Chunk.superblockOffset a.index) = false := by
    intro a ha hsb
    rw [hmask, hother a ha hsb]
    rfl
  have h₁ := h.restate hslots fun _ _ _ => hactive
  refine ⟨{ s.chunk with superblocks := s.chunk.superblocks.set e.superblock used }, offset, ?_, hlt,
    rfl, h₁.addLive ?_ ?_ ?_⟩
  · unfold Chunk.allocOne
    rw [hstate]
    simp only [halloc]
  · refine ⟨rfl, (h.carved e he).congr ⟨rfl, List.length_set, rfl, rfl⟩ rfl, hsplit.1, used, ?_, ?_⟩
    · rw [List.getElem?_set_self', hstate]
      rfl
    · rw [hsplit.2, hmask]
      simp
  · intro a ha
    cases hsb : a.superblock with
    | none => exact Or.inl (Ne.symm (h.apart e he a ha hsb))
    | some superblock =>
      refine Or.inr ⟨by simp, by simp [hsb], ?_⟩
      rintro heq
      have hplaced := h.placed a ha
      simp only [Placed, hsb] at hplaced
      have hsame : superblock = e.superblock := by
        rw [← hplaced.2.2.1, ← heq, hsplit.1]
      have hbit := hother a ha (hsb.trans (congrArg some hsame))
      rw [← heq, hsplit.2, hfree] at hbit
      exact absurd hbit (by simp)
  · exact fun _ _ hnone => absurd hnone (by simp)

/-- A superblock without a free slot hands out nothing. -/
theorem allocOne_full {state : SuperblockState} (hstate : c.superblocks[superblock]? = some state)
    (hfull : state.freeMask = 0) : c.allocOne superblock = some (c, none) := by
  obtain ⟨hlt, rfl⟩ := List.getElem?_eq_some_iff.mp hstate
  unfold Chunk.allocOne SuperblockState.allocOne
  rw [hstate]
  simp only [hfull, if_true, List.set_getElem_self]

theorem carve_eq {offset : Nat}
    (hindex : Chunk.superblockIndex (c.fromShardLocal shard block) = superblock)
    (hlt : superblock < c.superblocks.length)
    (hone : Chunk.allocOne
      { c with superblocks := c.superblocks.set superblock SuperblockState.init } superblock =
        some (c', some offset))
    (hmapped : Chunk.fromSuperblockOffset superblock offset * slotSize < c'.memoryLen) :
    c.carve shard block = some (c', some
      (⟨Chunk.fromSuperblockOffset superblock offset, 0, shard, block, some superblock⟩,
        ⟨superblock, shard, block⟩)) := by
  unfold Chunk.carve
  simp only [hindex, if_pos hlt, hone, if_pos hmapped]

/-- A new superblock and its first slot. -/
theorem allocSmall (h : ChunkInv owned s) (seed : Option Nat) (threadHash : Nat) :
    s.chunk.allocSmall seed threadHash = some (s.chunk, none) ∨
    ∃ c a e owned', s.chunk.allocSmall seed threadHash = some (c, some (a, e)) ∧
      ChunkInv owned' ⟨c, a :: s.live, e :: s.entries⟩ := by
  unfold Chunk.allocSmall
  rcases Chunk.allocGlobal_spec h.shards superblockOrder seed threadHash with hnone |
    ⟨i, l, b, hi, hsome, hfree, hok⟩
  · left
    simp only [hnone]
  right
  obtain ⟨h₁, hlive, hentries⟩ := h.acquire hfree hok
  set owned₁ := setOwned owned i l (some superblockOrder)
  set c₁ : Chunk := { s.chunk with shards := s.chunk.shards.set i b }
  have hi₁ : i < c₁.shards.length := Nat.lt_of_lt_of_eq hi List.length_set.symm
  obtain ⟨hcarved, hlt⟩ := carved_fresh h₁.geometry h₁.shards hi₁ (setOwned_self ..)
  set superblock := Chunk.superblockIndex (c₁.fromShardLocal i l)
  -- nobody uses this superblock yet: its block was free
  have hunused : ∀ a ∈ s.live, a.superblock ≠ some superblock := by
    intro a ha hsb
    have hplaced := h₁.placed a ha
    simp only [Placed, hsb] at hplaced
    exact hlive a ha (hplaced.2.1.block_eq h₁.shards hcarved)
  have hunheld : ∀ e ∈ s.entries, e.superblock ≠ superblock := by
    intro e he hsb
    have hcarved' := h₁.carved e he
    rw [hsb] at hcarved'
    exact hentries e he (hcarved'.block_eq h₁.shards hcarved)
  set c₂ : Chunk := { c₁ with superblocks := c₁.superblocks.set superblock SuperblockState.init }
  have h₂ : ChunkInv owned₁ ⟨c₂, s.live, s.entries⟩ :=
    h₁.restate (fun a ha hsb => absurd hsb (hunused a ha))
      (fun e he hsb => absurd hsb (hunheld e he))
  have hstate : c₂.superblocks[superblock]? = some SuperblockState.init :=
    List.getElem?_set_self hlt
  have h₃ : ChunkInv owned₁ ⟨c₂, s.live, ⟨superblock, i, l⟩ :: s.entries⟩ :=
    h₂.addEntry (e := ⟨superblock, i, l⟩)
      (hcarved.congr ⟨rfl, List.length_set, rfl, rfl⟩ rfl) ⟨_, hstate, rfl⟩ hunheld
      fun a ha _ => hlive a ha
  obtain ⟨c₃, offset, hone, hoffset, hmemory, h₄⟩ :=
    h₃.allocOne (List.mem_cons_self ..) hstate (by decide)
  have hmapped : Chunk.fromSuperblockOffset superblock offset * slotSize < c₃.memoryLen := by
    rw [hmemory]
    refine Nat.lt_of_lt_of_le ?_ h₂.geometry.mapped
    refine Nat.mul_lt_mul_of_pos_right ?_ (by decide)
    unfold Chunk.fromSuperblockOffset superblockSize
    have hlen : superblock < c₂.superblocks.length := Nat.lt_of_lt_of_eq hlt List.length_set.symm
    show superblock * 64 + offset < c₂.superblocks.length * 64
    omega
  refine ⟨c₃, _, _, owned₁, ?_, h₄⟩
  rw [hsome]
  exact carve_eq rfl hlt hone hmapped

/-! ## Deallocation -/

/-- Removing one allocation from the list. -/
theorem exclusive_rest {before after : List Allocation}
    (h : (before ++ a :: after).Pairwise Allocation.Exclusive) :
    ∀ b ∈ before ++ after, a.Exclusive b := by
  obtain ⟨-, hcons, hcross⟩ := List.pairwise_append.mp h
  intro b hb
  rcases List.mem_append.mp hb with hb | hb
  · exact (hcross b hb a (List.mem_cons_self ..)).symm
  · exact (List.pairwise_cons.mp hcons).1 b hb

/-- An empty superblock without a holder goes back to the shard it was carved from. -/
theorem deallocSuperblock (h : ChunkInv owned s)
    (hcarved : Carved s.chunk owned superblock shard block) {state : SuperblockState}
    (hstate : s.chunk.superblocks[superblock]? = some state)
    (hempty : state.freeMask = BitVec.allOnes 64)
    (hentries : ∀ e ∈ s.entries, e.superblock ≠ superblock)
    (hlarge : ∀ a ∈ s.live, a.superblock = none → (a.shard, a.block) ≠ (shard, block)) :
    ∃ c' owned', s.chunk.deallocSuperblock superblock = some c' ∧
      BlockFreed s.chunk c' shard block superblockOrder ∧
      c'.superblocks = s.chunk.superblocks ∧ ChunkInv owned' ⟨c', s.live, s.entries⟩ := by
  have hlive : ∀ a ∈ s.live, (a.shard, a.block) ≠ (shard, block) := by
    intro a ha heq
    cases hsb : a.superblock with
    | none => exact hlarge a ha hsb heq
    | some superblock' =>
      have hplaced := h.placed a ha
      simp only [Placed, hsb] at hplaced
      obtain ⟨-, hcarved', -, state', hstate', hbit⟩ := hplaced
      rw [show a.shard = shard from congrArg Prod.fst heq,
        show a.block = block from congrArg Prod.snd heq] at hcarved'
      obtain rfl := hcarved'.superblock_eq hcarved
      cases hstate'.symm.trans hstate
      rw [hempty, BitVec.getLsbD_allOnes] at hbit
      have hlt : Chunk.superblockOffset a.index < 64 := Nat.mod_lt _ (by decide)
      exact absurd hbit (by simp [hlt])
  have hheld : ∀ e ∈ s.entries, (e.shard, e.block) ≠ (shard, block) := by
    intro e he heq
    have hcarved' := h.carved e he
    rw [show e.shard = shard from congrArg Prod.fst heq,
      show e.block = block from congrArg Prod.snd heq] at hcarved'
    exact hentries e he (hcarved'.superblock_eq hcarved)
  obtain ⟨c', hdealloc, hfreed, hsuperblocks, h'⟩ := h.release hcarved.1 hcarved.2.1 hlive hheld
  refine ⟨c', _, ?_, hfreed, hsuperblocks, h'⟩
  unfold Chunk.deallocSuperblock Chunk.baseSlot
  rw [← hcarved.2.2]
  exact hdealloc

/-- After its state changed, a superblock is given back if it is empty and without a
holder. -/
theorem settle (h : ChunkInv owned s) (hcarved : Carved s.chunk owned superblock shard block)
    {state : SuperblockState} {empty : Bool}
    (hstate : s.chunk.superblocks[superblock]? = some state)
    (hempty : empty = true → state.freeMask = BitVec.allOnes 64 ∧
      ∀ e ∈ s.entries, e.superblock ≠ superblock)
    (hlarge : ∀ a ∈ s.live, a.superblock = none → (a.shard, a.block) ≠ (shard, block)) :
    ∃ c' owned', (if empty then s.chunk.deallocSuperblock superblock else some s.chunk) = some c' ∧
      (c'.shards = s.chunk.shards ∨ BlockFreed s.chunk c' shard block superblockOrder) ∧
      c'.superblocks = s.chunk.superblocks ∧ ChunkInv owned' ⟨c', s.live, s.entries⟩ := by
  cases empty with
  | false => exact ⟨s.chunk, owned, rfl, Or.inl rfl, rfl, h⟩
  | true =>
    obtain ⟨hfull, hentries⟩ := hempty rfl
    obtain ⟨c', owned', hdealloc, hfreed, hsame, h'⟩ :=
      h.deallocSuperblock hcarved hstate hfull hentries hlarge
    exact ⟨c', owned', hdealloc, Or.inr hfreed, hsame, h'⟩

/-- The states of the superblocks that allocations and entries look at. -/
theorem state_of_entry (h : ChunkInv owned s) (he : e ∈ s.entries) {state : SuperblockState}
    (hstate : s.chunk.superblocks[e.superblock]? = some state) : state.isActive = true := by
  obtain ⟨state', hstate', hactive⟩ := h.active e he
  cases hstate'.symm.trans hstate
  exact hactive

theorem state_of_slot (h : ChunkInv owned s) (ha : a ∈ s.live)
    (hsb : a.superblock = some superblock) {state : SuperblockState}
    (hstate : s.chunk.superblocks[superblock]? = some state) :
    Carved s.chunk owned superblock a.shard a.block ∧
      Chunk.superblockIndex a.index = superblock ∧
      state.freeMask.getLsbD (Chunk.superblockOffset a.index) = false := by
  have hplaced := h.placed a ha
  simp only [Placed, hsb] at hplaced
  obtain ⟨-, hcarved, hindex, state', hstate', hbit⟩ := hplaced
  cases hstate'.symm.trans hstate
  exact ⟨hcarved, hindex, hbit⟩

/-- A slot is freed. -/
theorem deallocSlot (h : ChunkInv owned s) {before after : List Allocation}
    (hlive : s.live = before ++ a :: after) (hsb : a.superblock = some superblock)
    {state : SuperblockState} (hstate : s.chunk.superblocks[superblock]? = some state) :
    ∃ c' owned', s.chunk.deallocSlots a.index 0 = some c' ∧
      (∃ state', c'.superblocks[superblock]? = some state' ∧
        state'.freeMask.getLsbD (Chunk.superblockOffset a.index) = true) ∧
      (c'.shards = s.chunk.shards ∨ BlockFreed s.chunk c' a.shard a.block superblockOrder) ∧
      ChunkInv owned' ⟨c', before ++ after, s.entries⟩ := by
  have ha : a ∈ s.live := by
    rw [hlive]
    exact List.mem_append_right _ (List.mem_cons_self ..)
  have hsub : (before ++ after).Sublist s.live := by
    rw [hlive]
    exact List.Sublist.append_left (List.sublist_cons_self ..) _
  have hexclusive := exclusive_rest (hlive ▸ h.exclusive)
  obtain ⟨hcarved, hindex, -⟩ := h.state_of_slot ha hsb hstate
  have hoffset : Chunk.superblockOffset a.index < 64 := Nat.mod_lt _ (by decide)
  set freed : SuperblockState :=
    { state with freeMask := state.freeMask ||| 1#64 <<< Chunk.superblockOffset a.index }
  have hmask : ∀ j, freed.freeMask.getLsbD j =
      (state.freeMask.getLsbD j || decide (j = Chunk.superblockOffset a.index)) :=
    fun j => Bits.getLsbD_or_bit _ hoffset
  -- the other slots in use stay in use
  have hslots : ∀ b ∈ before ++ after, b.superblock = some superblock →
      freed.freeMask.getLsbD (Chunk.superblockOffset b.index) = false := by
    intro b hb hbsb
    obtain ⟨hcarved', hindex', hbit'⟩ := h.state_of_slot (hsub.subset hb) hbsb hstate
    have hne : b.index ≠ a.index := by
      rcases hexclusive b hb with hblock | ⟨-, -, hne⟩
      · exact absurd (hcarved.block_eq h.shards hcarved') hblock
      · exact Ne.symm hne
    have hoffsets : Chunk.superblockOffset b.index ≠ Chunk.superblockOffset a.index := by
      unfold Chunk.superblockIndex at hindex hindex'
      unfold Chunk.superblockOffset
      unfold superblockSize at *
      omega
    rw [hmask, hbit']
    simp [hoffsets]
  have h₁ : ChunkInv owned
      ⟨{ s.chunk with superblocks := s.chunk.superblocks.set superblock freed }, before ++ after,
        s.entries⟩ := by
    refine (h.forget hsub (List.Sublist.refl _)).restate hslots ?_
    rintro e he rfl
    show state.isActive = true
    exact h.state_of_entry he hstate
  have hnew : (s.chunk.superblocks.set superblock freed)[superblock]? = some freed := by
    rw [List.getElem?_set_self', hstate]
    rfl
  have hempty : (decide (freed.freeMask = BitVec.allOnes 64) && !state.isActive) = true →
      freed.freeMask = BitVec.allOnes 64 ∧ ∀ e ∈ s.entries, e.superblock ≠ superblock := by
    intro hboth
    rw [Bool.and_eq_true, decide_eq_true_eq] at hboth
    refine ⟨hboth.1, ?_⟩
    rintro e he rfl
    rw [h.state_of_entry he hstate] at hboth
    exact absurd hboth.2 (by simp)
  have hlarge : ∀ b ∈ before ++ after, b.superblock = none →
      (b.shard, b.block) ≠ (a.shard, a.block) := by
    intro b hb hnone heq
    rcases hexclusive b hb with hne | ⟨-, hsome, -⟩
    · exact hne heq.symm
    · exact hsome hnone
  obtain ⟨c', owned', hif, hshards, hsame, h'⟩ :=
    h₁.settle (hcarved.congr ⟨rfl, List.length_set, rfl, rfl⟩ rfl) hnew hempty hlarge
  refine ⟨c', owned', ?_, ⟨freed, ?_, ?_⟩, hshards, h'⟩
  · unfold Chunk.deallocSlots
    rw [if_pos rfl, hindex, hstate]
    exact hif
  · rw [hsame]
    exact hnew
  · rw [hmask]
    simp

/-- Every live allocation can be deallocated, which frees its block or its slot. -/
theorem deallocSlots (h : ChunkInv owned s) {before after : List Allocation}
    (hlive : s.live = before ++ a :: after) :
    ∃ c' owned', s.chunk.deallocSlots a.index a.order = some c' ∧ Freed s.chunk c' a ∧
      ChunkInv owned' ⟨c', before ++ after, s.entries⟩ := by
  have ha : a ∈ s.live := by
    rw [hlive]
    exact List.mem_append_right _ (List.mem_cons_self ..)
  have hplaced := h.placed a ha
  unfold Freed
  cases hsb : a.superblock with
  | none =>
    simp only [Placed, hsb] at hplaced
    obtain ⟨horder, hshard, howned, hindex⟩ := hplaced
    have hsub : (before ++ after).Sublist s.live := by
      rw [hlive]
      exact List.Sublist.append_left (List.sublist_cons_self ..) _
    have hrest : ∀ b ∈ before ++ after, (b.shard, b.block) ≠ (a.shard, a.block) := by
      intro b hb heq
      rcases exclusive_rest (hlive ▸ h.exclusive) b hb with hne | ⟨hsome, -⟩
      · exact hne heq.symm
      · exact hsome hsb
    have hheld : ∀ e ∈ s.entries, (e.shard, e.block) ≠ (a.shard, a.block) :=
      fun e he heq => h.apart e he a ha hsb heq.symm
    obtain ⟨c', hdealloc, hfreed, -, h'⟩ :=
      (h.forget hsub (List.Sublist.refl _)).release hshard howned hrest hheld
    refine ⟨c', _, ?_, hfreed, h'⟩
    unfold Chunk.deallocSlots
    rw [if_neg horder, hindex]
    exact hdealloc
  | some superblock =>
    simp only [Placed, hsb] at hplaced
    obtain ⟨horder, -, -, state, hstate, -⟩ := hplaced
    rw [horder]
    obtain ⟨c', owned', hdealloc, hslot, hshards, h'⟩ := h.deallocSlot hlive hsb hstate
    exact ⟨c', owned', hdealloc, ⟨hslot, hshards⟩, h'⟩

/-- Every holder of a superblock can give it up. -/
theorem retire (h : ChunkInv owned s) {before after : List CacheEntry}
    (hentries : s.entries = before ++ e :: after) :
    ∃ c' owned', s.chunk.retire e.superblock = some c' ∧
      (c'.shards = s.chunk.shards ∨ BlockFreed s.chunk c' e.shard e.block superblockOrder) ∧
      ChunkInv owned' ⟨c', s.live, before ++ after⟩ := by
  have he : e ∈ s.entries := by
    rw [hentries]
    exact List.mem_append_right _ (List.mem_cons_self ..)
  have hsub : (before ++ after).Sublist s.entries := by
    rw [hentries]
    exact List.Sublist.append_left (List.sublist_cons_self ..) _
  -- nobody else holds this superblock
  have hother : ∀ e' ∈ before ++ after, e'.superblock ≠ e.superblock := by
    have hdistinct := h.distinct
    rw [hentries, List.map_append, List.map_cons] at hdistinct
    obtain ⟨-, hcons, hcross⟩ := List.nodup_append.mp hdistinct
    intro e' he' heq
    rcases List.mem_append.mp he' with he' | he'
    · exact hcross _ (List.mem_map_of_mem he') _ (List.mem_cons_self ..) heq
    · exact (List.nodup_cons.mp hcons).1 (heq ▸ List.mem_map_of_mem he')
  obtain ⟨state, hstate, -⟩ := h.active e he
  set inactive : SuperblockState := { state with isActive := false }
  have h₁ : ChunkInv owned
      ⟨{ s.chunk with superblocks := s.chunk.superblocks.set e.superblock inactive }, s.live,
        before ++ after⟩ := by
    refine (h.forget (List.Sublist.refl _) hsub).restate ?_ ?_
    · intro a ha hsb
      show state.freeMask.getLsbD _ = false
      exact (h.state_of_slot ha hsb hstate).2.2
    · exact fun e' he' heq => absurd heq (hother e' he')
  have hnew : (s.chunk.superblocks.set e.superblock inactive)[e.superblock]? = some inactive := by
    rw [List.getElem?_set_self', hstate]
    rfl
  have hempty : decide (state.freeMask = BitVec.allOnes 64) = true →
      inactive.freeMask = BitVec.allOnes 64 ∧
        ∀ e' ∈ before ++ after, e'.superblock ≠ e.superblock :=
    fun hfull => ⟨of_decide_eq_true hfull, hother⟩
  obtain ⟨c', owned', hif, hshards, -, h'⟩ :=
    h₁.settle ((h.carved e he).congr ⟨rfl, List.length_set, rfl, rfl⟩ rfl) hnew hempty
      fun a ha hnone => h.apart e he a ha hnone
  refine ⟨c', owned', ?_, hshards, h'⟩
  unfold Chunk.retire
  rw [hstate]
  exact hif

/-! ## Writing -/

/-- A holder writes to its pages. -/
theorem write (h : ChunkInv owned s) (ha : a ∈ s.live) {page : Nat}
    (hpage : Covers a.index a.order page) (node : FreeNode) :
    ChunkInv owned ⟨s.chunk.write page node, s.live, s.entries⟩ := by
  have hplaced := h.placed a ha
  obtain ⟨hshard, howned⟩ := hplaced.owned_block
  obtain ⟨hdiv, hcovers⟩ := h.shards.page_shard hshard howned (hplaced.covers_block hpage)
  refine h.reshard ⟨?_, rfl, rfl, rfl⟩ rfl ?_ (fun _ _ => rfl) fun _ _ => rfl
  · unfold Chunk.write
    exact List.length_modify ..
  · intro i b hb
    unfold Chunk.write Chunk.shardForIndex at hb
    simp only [List.getElem?_modify, hdiv] at hb
    cases hold : s.chunk.shards[i]? with
    | none =>
      rw [hold] at hb
      exact absurd hb (by simp)
    | some old =>
      rw [hold] at hb
      obtain ⟨lists, hinv⟩ := h.shards i old hold
      by_cases hi : a.shard = i
      · subst hi
        simp only [if_true] at hb
        cases hb
        exact ⟨lists, hinv.write howned hcovers node⟩
      · simp only [hi, if_false] at hb
        cases hb
        exact ⟨lists, hinv⟩

/-! ## Soundness -/

/-- What deallocation recomputes from an index is where the allocation came from. -/
theorem recomputed (h : ChunkInv owned s) (ha : a ∈ s.live) : Recomputed s.chunk a := by
  have hplaced := h.placed a ha
  obtain ⟨hshard, howned⟩ := hplaced.owned_block
  have hslot : a.block < s.chunk.slotsPerShard := by
    have := (h.shards.block hshard howned).2
    have := Nat.two_pow_pos a.blockOrder
    omega
  obtain ⟨hdiv, hmod⟩ := shard_local_round_trip a.shard hslot
  unfold Recomputed Chunk.shardForIndex
  cases hsb : a.superblock with
  | none =>
    simp only [Placed, hsb] at hplaced
    show (_, _) = _
    rw [hplaced.2.2.2, hdiv, hmod]
  | some superblock =>
    simp only [Placed, hsb] at hplaced
    obtain ⟨-, hcarved, hindex, -⟩ := hplaced
    refine ⟨hindex, ?_⟩
    show (Chunk.baseSlot superblock / _, Chunk.baseSlot superblock % _) = _
    unfold Chunk.baseSlot
    rw [← hcarved.2.2, hdiv, hmod]

/-- Exclusive holders share no page. -/
theorem apart_of_exclusive (h : ChunkInv owned s) {b : Allocation} (ha : a ∈ s.live)
    (hb : b ∈ s.live) (hexclusive : a.Exclusive b) : a.Apart b := by
  intro p hp hp'
  rcases hexclusive with hne | ⟨hsome, hsome', hne⟩
  · obtain ⟨hshard, howned⟩ := (h.placed a ha).owned_block
    obtain ⟨hshard', howned'⟩ := (h.placed b hb).owned_block
    exact h.shards.pages_apart hshard hshard' howned howned' hne
      ((h.placed a ha).covers_block hp) ((h.placed b hb).covers_block hp')
  · have horder : ∀ {x : Allocation}, x ∈ s.live → x.superblock ≠ none → x.order = 0 := by
      intro x hx hxsome
      obtain ⟨superblock, hsb⟩ := Option.ne_none_iff_exists'.mp hxsome
      have hplaced := h.placed x hx
      simp only [Placed, hsb] at hplaced
      exact hplaced.1
    rw [horder ha hsome] at hp
    rw [horder hb hsome'] at hp'
    unfold Covers at hp hp'
    omega

theorem sound (h : ChunkInv owned s) : ChunkSound s := by
  refine ⟨?_, fun a ha => h.recomputed ha, ?_, ?_⟩
  · exact h.exclusive.imp_of_mem fun ha hb hexclusive => h.apart_of_exclusive ha hb hexclusive
  · intro a ha
    obtain ⟨before, after, hlive⟩ := List.append_of_mem ha
    obtain ⟨c', -, hdealloc, hfreed, -⟩ := h.deallocSlots hlive
    exact ⟨c', hdealloc, hfreed⟩
  · intro e he
    obtain ⟨before, after, hentries⟩ := List.append_of_mem he
    obtain ⟨c', -, hretire, hshards, -⟩ := h.retire hentries
    exact ⟨c', hretire, hshards⟩

end ChunkInv

/-- Some record of the blocks satisfies the invariant. -/
def ChunkUse.Ordered (s : ChunkUse) : Prop := ∃ owned, ChunkInv owned s

/-- Every operation keeps the invariant. -/
theorem ChunkUse.Ordered.step {s s' : ChunkUse} {ev : ChunkEvent} (h : s.Ordered)
    (hs : ChunkStep s ev s') : s'.Ordered := by
  obtain ⟨owned, h⟩ := h
  cases hs with
  | allocFailed halloc =>
    rename_i seed hash c
    rcases h.allocSmall seed hash with hnone | ⟨_, _, _, _, hsome, _⟩
    · cases hnone.symm.trans halloc
      exact ⟨owned, h⟩
    · cases hsome.symm.trans halloc
  | allocSmall halloc =>
    rename_i seed hash c a e
    rcases h.allocSmall seed hash with hnone | ⟨_, _, _, owned', hsome, h'⟩
    · cases hnone.symm.trans halloc
    · cases hsome.symm.trans halloc
      exact ⟨owned', h'⟩
  | allocLargeFailed horder halloc =>
    rename_i order seed hash c
    rcases h.allocLarge horder seed hash with hnone | ⟨_, _, _, hsome, _⟩
    · cases hnone.symm.trans halloc
      exact ⟨owned, h⟩
    · cases hsome.symm.trans halloc
  | allocLarge horder halloc =>
    rename_i order seed hash c a
    rcases h.allocLarge horder seed hash with hnone | ⟨_, _, owned', hsome, h'⟩
    · cases hnone.symm.trans halloc
    · cases hsome.symm.trans halloc
      exact ⟨owned', h'⟩
  | allocCachedFailed he halloc =>
    obtain ⟨state, hstate, -⟩ := h.active _ he
    by_cases hfull : state.freeMask = 0
    · cases (ChunkInv.allocOne_full hstate hfull).symm.trans halloc
      exact ⟨owned, h⟩
    · obtain ⟨_, _, hsome, _⟩ := h.allocOne he hstate hfull
      cases hsome.symm.trans halloc
  | allocCached he halloc =>
    obtain ⟨state, hstate, -⟩ := h.active _ he
    by_cases hfull : state.freeMask = 0
    · cases (ChunkInv.allocOne_full hstate hfull).symm.trans halloc
    · obtain ⟨_, _, hsome, _, _, h'⟩ := h.allocOne he hstate hfull
      cases hsome.symm.trans halloc
      exact ⟨owned, h'⟩
  | dealloc hlive hdealloc =>
    obtain ⟨_, owned', hsome, _, h'⟩ := h.deallocSlots hlive
    cases hsome.symm.trans hdealloc
    exact ⟨owned', h'⟩
  | retire hentries hretire =>
    obtain ⟨_, owned', hsome, _, h'⟩ := h.retire hentries
    cases hsome.symm.trans hretire
    exact ⟨owned', h'⟩
  | write ha hle hlt => exact ⟨owned, h.write ha ⟨hle, hlt⟩ _⟩

end Veloq.Heap
