import Mathlib.Data.Nat.Prime.Basic
import Veloq.Heap.ChunkRuns
set_option autoImplicit false

/-!
# Heap: which chunks are sound

`Chunk::new` picks the shard count from the parallelism and the number of superblocks,
and the shard length by division.  The chunk is sound over all runs exactly when that
length is a multiple of the superblock size: otherwise a superblock carved from the
second shard is addressed as one that starts in the first.
-/

namespace Veloq.Heap

open Veloq.Foundation
open Veloq.Foundation.Dyadic

/-! ## The shard count -/

namespace Chunk

variable {totalSlots : Nat}

/-- The shard count before it is fitted to the number of superblocks. -/
theorem wanted_two_pow (parallelism : Nat) :
    ∃ k, 3 ≤ k ∧ max (nextPowerOfTwo parallelism % 2 ^ 64) 16 = 2 ^ k := by
  obtain ⟨k, hk⟩ := exists_nextPowerOfTwo parallelism
  rw [hk]
  by_cases hfits : k < 64
  · rw [Nat.mod_eq_of_lt (Nat.pow_lt_pow_right (by decide) hfits)]
    by_cases hk4 : 4 ≤ k
    · have hle : 2 ^ 4 ≤ 2 ^ k := Nat.pow_le_pow_right (by decide) hk4
      exact ⟨k, by omega, Nat.max_eq_left hle⟩
    · have hle : 2 ^ k ≤ 2 ^ 4 := Nat.pow_le_pow_right (by decide) (by omega)
      exact ⟨4, by omega, Nat.max_eq_right hle⟩
  · rw [Nat.mod_eq_zero_of_dvd (Nat.pow_dvd_pow 2 (Nat.le_of_not_lt hfits))]
    exact ⟨4, by omega, rfl⟩

/-- The shard count is the smaller of what is wanted and the largest power of two of
superblocks. -/
theorem shardCount_eq (h : superblockSize ≤ totalSlots) (parallelism : Nat) :
    shardCount totalSlots parallelism = min (max (nextPowerOfTwo parallelism % 2 ^ 64) 16)
      (2 ^ Nat.log2 (totalSlots / superblockSize)) := by
  have hpos : 0 < totalSlots / superblockSize := Nat.div_pos h (by decide)
  have hlog : 2 ^ Nat.log2 (totalSlots / superblockSize) ≤ totalSlots / superblockSize :=
    Nat.log2_self_le (by omega)
  obtain ⟨k, -, hk⟩ := wanted_two_pow parallelism
  unfold shardCount
  simp only [hk]
  split
  · rename_i hcap
    exact (Nat.min_eq_right (Nat.le_trans hlog (Nat.le_of_lt hcap.2))).symm
  · rename_i hfits
    rw [if_neg (by omega)]
    refine (Nat.min_eq_left (Nat.pow_le_pow_right (by decide) ?_)).symm
    exact (Nat.le_log2 (by omega)).mpr (by omega)

/-- The shard count is an even power of two, and every shard holds a superblock. -/
theorem shardCount_spec (h : 8 * superblockSize ≤ totalSlots) (parallelism : Nat) :
    (∃ k, 1 ≤ k ∧ shardCount totalSlots parallelism = 2 ^ k) ∧
      shardCount totalSlots parallelism * superblockSize ≤ totalSlots := by
  have h64 : superblockSize ≤ totalSlots := Nat.le_trans (by decide) h
  have hge : 8 ≤ totalSlots / superblockSize := (Nat.le_div_iff_mul_le (by decide)).mpr h
  have hlog : 2 ^ Nat.log2 (totalSlots / superblockSize) ≤ totalSlots / superblockSize :=
    Nat.log2_self_le (by omega)
  have hlog3 : 3 ≤ Nat.log2 (totalSlots / superblockSize) := (Nat.le_log2 (by omega)).mpr hge
  rw [shardCount_eq h64]
  constructor
  · obtain ⟨k, hk3, hk⟩ := wanted_two_pow parallelism
    rw [hk]
    rcases Nat.le_total (2 ^ k) (2 ^ Nat.log2 (totalSlots / superblockSize)) with hle | hle
    · exact ⟨k, by omega, Nat.min_eq_left hle⟩
    · exact ⟨_, by omega, Nat.min_eq_right hle⟩
  · refine (Nat.le_div_iff_mul_le (by decide)).mp (Nat.le_trans (Nat.min_le_right ..) hlog)

/-! ## A new chunk -/

/-- Every shard of a new chunk is a fresh allocator with room for a superblock. -/
structure Fresh (c : Chunk) : Prop where
  ok : ShardsOk c.slotsPerShard (fun _ _ => none) c.shards
  room : ∀ (i : Nat) (b : BuddyAllocator), c.shards[i]? = some b →
    ∃ b' l, b.alloc superblockOrder = some (b', some l)

/-- A fresh allocator of at least 64 slots has a block of 64 slots. -/
theorem alloc_superblock {slots : Nat} (hslots : superblockSize ≤ slots) {b : BuddyAllocator}
    {lists : Nat → List Nat} (hfirst : 0 ∈ lists (min (Nat.log2 slots) maxOrder))
    (h : Inv slots b lists (fun _ => none) none) :
    ∃ b' l, b.alloc superblockOrder = some (b', some l) := by
  have hlog : superblockOrder ≤ Nat.log2 slots :=
    (Nat.le_log2 (by unfold superblockSize at hslots; omega)).mpr hslots
  rcases h.alloc superblockOrder with ⟨-, hempty⟩ | ⟨b', _, l, hsome, _⟩
  · have hnil := hempty (min (Nat.log2 slots) maxOrder)
      (Nat.le_min.mpr ⟨hlog, by decide⟩) (Nat.min_le_right ..)
    rw [hnil] at hfirst
    exact absurd hfirst (by simp)
  · exact ⟨b', l, hsome⟩

theorem new_spec {size : Nat} (hsize : 8 * superblockSize ≤ size / slotSize) (parallelism : Nat)
    (memory : Nat → FreeNode) :
    ∃ c, Chunk.new memory size parallelism = .ok c ∧ Fresh c ∧
      c.shards.length = shardCount (size / slotSize) parallelism ∧
      c.superblocks.length = size / slotSize / superblockSize ∧ c.memoryLen = size ∧
      c.slotsPerShard = size / slotSize / shardCount (size / slotSize) parallelism := by
  obtain ⟨⟨k, hk, hcount⟩, hroom⟩ := shardCount_spec hsize parallelism
  set count := shardCount (size / slotSize) parallelism
  have hpos : 0 < count := by
    rw [hcount]
    exact Nat.two_pow_pos k
  have hslots : superblockSize ≤ size / slotSize / count := by
    rw [Nat.le_div_iff_mul_le hpos, Nat.mul_comm]
    exact hroom
  set slots := size / slotSize / count
  have hlen : slotSize ≤ slots * slotSize :=
    Nat.le_mul_of_pos_left _ (Nat.lt_of_lt_of_le (by decide) hslots)
  have hdiv : slots * slotSize / slotSize = slots := Nat.mul_div_cancel _ (by decide)
  -- the allocator of every shard
  have hnew : ∀ i, ∃ b lists,
      BuddyAllocator.new (fun slot => memory (i * slots + slot)) (slots * slotSize) = some b ∧
      0 ∈ lists (min (Nat.log2 slots) maxOrder) ∧ Inv slots b lists (fun _ => none) none := by
    intro i
    obtain ⟨b, lists, hspec⟩ := Heap.new_spec hlen (fun slot => memory (i * slots + slot))
    rw [hdiv] at hspec
    exact ⟨b, lists, hspec.1, hspec.2.1, hspec.2.2.1⟩
  choose buddy lists hbuddy hfirst hinv using hnew
  have hget : ∀ i b, ((List.range count).map buddy)[i]? = some b → b = buddy i := by
    intro i b hb
    rw [List.getElem?_map, Option.map_eq_some_iff] at hb
    obtain ⟨j, hj, rfl⟩ := hb
    obtain ⟨hlt, rfl⟩ := List.getElem?_eq_some_iff.mp hj
    rw [List.getElem_range]
  refine ⟨{ shards := (List.range count).map buddy
            superblocks := List.replicate (size / slotSize / superblockSize) SuperblockState.new
            memoryLen := size
            slotsPerShard := slots }, ?_, ⟨?_, ?_⟩, ?_, ?_, rfl, rfl⟩
  · unfold Chunk.new
    simp only
    rw [if_neg (Nat.ne_of_gt (Nat.lt_of_lt_of_le (by decide) hslots)),
      show (fun i => BuddyAllocator.new (fun slot => memory (i * slots + slot))
        (slots * slotSize)) = fun i => pure (buddy i) from funext hbuddy, List.mapM_pure]
    rfl
  · intro i b hb
    rw [hget i b hb]
    exact ⟨lists i, hinv i⟩
  · intro i b hb
    rw [hget i b hb]
    exact alloc_superblock hslots (hfirst i) (hinv i)
  · rw [List.length_map, List.length_range]
  · exact List.length_replicate

/-- The superblocks lie in mapped memory. -/
theorem superblocks_mapped {c : Chunk} {size : Nat} (hmemory : c.memoryLen = size)
    (hsuperblocks : c.superblocks.length = size / slotSize / superblockSize) :
    c.superblocks.length * superblockSize * slotSize ≤ c.memoryLen := by
  rw [hsuperblocks, hmemory]
  exact Nat.le_trans (Nat.mul_le_mul_right _ (Nat.div_mul_le_self ..)) (Nat.div_mul_le_self ..)

/-! ## Aligned shards -/

/-- In a new chunk whose shards consist of whole superblocks everything is in order. -/
theorem Fresh.ordered {c : Chunk} (h : Fresh c) (haligned : superblockSize ∣ c.slotsPerShard)
    {size : Nat} (hshards : c.shards.length * c.slotsPerShard ≤ size / slotSize)
    (hsuperblocks : c.superblocks.length = size / slotSize / superblockSize)
    (hmemory : c.memoryLen = size) : ChunkUse.Ordered ⟨c, [], []⟩ := by
  refine ⟨fun _ _ => none, ⟨haligned, ?_, superblocks_mapped hmemory hsuperblocks⟩, h.ok, ?_,
    List.Pairwise.nil, ?_, ?_, List.nodup_nil, ?_⟩
  · obtain ⟨n, hn⟩ := Nat.dvd_trans haligned (Nat.dvd_mul_left c.slotsPerShard c.shards.length)
    show c.shards.length * c.slotsPerShard ≤ c.superblocks.length * superblockSize
    rw [hn, Nat.mul_comm] at hshards
    rw [hn, hsuperblocks, Nat.mul_comm]
    exact Nat.mul_le_mul_right _ ((Nat.le_div_iff_mul_le (by decide)).mpr hshards)
  · exact fun a ha => absurd ha (by simp)
  · exact fun e he => absurd he (by simp)
  · exact fun e he => absurd he (by simp)
  · exact fun e he => absurd he (by simp)

/-! ## Unaligned shards -/

/-- The first shard that `alloc_global` visits. -/
theorem visitOrder_head {c : Chunk} (hpos : 0 < c.shards.length) {hash : Nat}
    (hhash : hash < 2 ^ 64) :
    ∃ rest, c.visitOrder hash = (hash &&& (c.shards.length - 1)) :: rest := by
  obtain ⟨n, hn⟩ := Nat.exists_eq_succ_of_ne_zero (Nat.ne_of_gt hpos)
  unfold visitOrder
  simp only [hn, List.range_succ_eq_map, List.map_cons, Nat.zero_mul, Nat.zero_mod, Nat.add_zero]
  rw [Nat.mod_eq_of_lt (Nat.lt_of_le_of_lt Nat.and_le_left hhash), Nat.and_assoc, Nat.and_self]
  exact ⟨_, rfl⟩

/-- If the first shard has a block, `alloc_global` takes it. -/
theorem allocGlobal_first {c : Chunk} {order threadHash i l : Nat} {seed : Option Nat}
    {rest : List Nat} {b b' : BuddyAllocator}
    (hvisit : c.visitOrder (startHash seed threadHash) = i :: rest) (hb : c.shards[i]? = some b)
    (halloc : b.alloc order = some (b', some l)) :
    c.allocGlobal order seed threadHash =
      some ({ c with shards := c.shards.set i b' }, some (i, l)) := by
  unfold allocGlobal
  simp only [hvisit, scan, hb, halloc]

/-- A block that lies below the end of the superblocks can be carved, aligned or not. -/
theorem carve_spec {c : Chunk} {shard block : Nat}
    (hlt : superblockIndex (c.fromShardLocal shard block) < c.superblocks.length)
    (hmapped : c.superblocks.length * superblockSize * slotSize ≤ c.memoryLen) :
    ∃ c' a e, c.carve shard block = some (c', some (a, e)) ∧ c'.slotsPerShard = c.slotsPerShard ∧
      a.shard = shard ∧ a.block = block ∧
      a.superblock = some (superblockIndex (c.fromShardLocal shard block)) := by
  set superblock := superblockIndex (c.fromShardLocal shard block) with hindex
  obtain ⟨offset, hoffset, -, halloc⟩ :=
    SuperblockState.allocOne_of_ne (show SuperblockState.init.freeMask ≠ 0 by decide)
  obtain ⟨c', hone, hslots, hmemory⟩ : ∃ c', Chunk.allocOne
      { c with superblocks := c.superblocks.set superblock SuperblockState.init } superblock =
      some (c', some offset) ∧ c'.slotsPerShard = c.slotsPerShard ∧ c'.memoryLen = c.memoryLen := by
    unfold Chunk.allocOne
    simp only [List.getElem?_set_self hlt, halloc]
    exact ⟨_, rfl, rfl, rfl⟩
  refine ⟨c', _, _, ChunkInv.carve_eq hindex.symm hlt hone ?_, hslots, rfl, rfl, rfl⟩
  rw [hmemory]
  refine Nat.lt_of_lt_of_le (Nat.mul_lt_mul_of_pos_right ?_ (by decide)) hmapped
  unfold fromSuperblockOffset superblockSize
  omega

/-- A superblock carved at an odd shard is recomputed only if the shards are aligned. -/
theorem aligned_of_recomputed {c : Chunk} {a : Allocation} {shard block : Nat}
    (hodd : shard % 2 = 1) (hblock : superblockSize ∣ block) (hshard : a.shard = shard)
    (hblock' : a.block = block) {superblock : Nat} (hsb : a.superblock = some superblock)
    (h : Recomputed c a) : superblockSize ∣ c.slotsPerShard := by
  simp only [Recomputed, hsb, shardForIndex, hshard, hblock', Prod.mk.injEq] at h
  obtain ⟨-, hdiv, hmod⟩ := h
  have hsum := Nat.div_add_mod (baseSlot superblock) c.slotsPerShard
  rw [hdiv, hmod] at hsum
  have hdvd : superblockSize ∣ c.slotsPerShard * shard := by
    refine (Nat.dvd_add_iff_left hblock).mpr ?_
    rw [hsum]
    exact Nat.dvd_mul_left ..
  refine Nat.Coprime.dvd_of_dvd_mul_right ?_ hdvd
  show Nat.Coprime (2 ^ 6) shard
  exact Nat.Coprime.pow_left 6 ((Nat.coprime_two_left).mpr (Nat.odd_iff.mpr hodd))

/-- The second worker's first slot shows whether the shards are aligned: its seed starts
at an odd shard. -/
theorem Fresh.aligned_of_sound {c : Chunk} (h : Fresh c) {k : Nat} (hk : 1 ≤ k)
    (hcount : c.shards.length = 2 ^ k)
    (hcovered : c.shards.length * c.slotsPerShard < (c.superblocks.length + 1) * superblockSize)
    (hmapped : c.superblocks.length * superblockSize * slotSize ≤ c.memoryLen)
    (hsound : ∀ s, Run ChunkStep Always (fun s => s = ⟨c, [], []⟩) s → ChunkSound s) :
    superblockSize ∣ c.slotsPerShard := by
  have hhash : startHash (some 1) 0 < 2 ^ 64 := by decide
  obtain ⟨rest, hvisit⟩ := visitOrder_head (hcount ▸ Nat.two_pow_pos k) hhash
  set i := startHash (some 1) 0 &&& (c.shards.length - 1) with hi
  have hlt : i < c.shards.length := by
    refine c.visitOrder_lt (startHash (some 1) 0) i ?_
    rw [hvisit]
    exact List.mem_cons_self ..
  have hodd : i % 2 = 1 := by
    rw [hi, hcount, Nat.and_two_pow_sub_one_eq_mod]
    rw [Nat.mod_mod_of_dvd _ (dvd_pow_self 2 (by omega))]
    decide
  -- the block that shard hands out
  have hget := List.getElem?_eq_getElem hlt
  obtain ⟨b, l, halloc⟩ := h.room i _ hget
  obtain ⟨lists, hinv⟩ := h.ok i _ hget
  have hblock : superblockSize ∣ l ∧ l + superblockSize ≤ c.slotsPerShard := by
    rcases hinv.alloc superblockOrder with ⟨hnone, -⟩ | ⟨_, lists', _, hsome, hinv', -⟩
    · cases hnone.symm.trans halloc
    · cases hsome.symm.trans halloc
      have hheld : Holds lists' (Function.update (fun _ => none) l (some superblockOrder)) none
          .live l superblockOrder := Function.update_self ..
      exact ⟨hinv'.tiling.aligned _ _ _ hheld, hinv'.tiling.inside _ _ _ hheld⟩
  have hindex : superblockIndex (c.fromShardLocal i l) < c.superblocks.length := by
    have hrow : i * c.slotsPerShard + c.slotsPerShard ≤ c.shards.length * c.slotsPerShard := by
      rw [← Nat.succ_mul]
      exact Nat.mul_le_mul_right _ hlt
    unfold superblockIndex fromShardLocal superblockSize at *
    omega
  obtain ⟨c', a, e, hcarve, hslots, hshard, hblock', hsb⟩ :=
    carve_spec (c := { c with shards := c.shards.set i b }) hindex hmapped
  have hsmall : c.allocSmall (some 1) 0 = some (c', some (a, e)) := by
    unfold allocSmall
    rw [allocGlobal_first hvisit hget halloc]
    exact hcarve
  have hstart : Run ChunkStep Always (fun s => s = ⟨c, [], []⟩) ⟨c, [], []⟩ := Run.start rfl
  have hrun := hsound _ (hstart.next (.allocSmall (some 1) 0) trivial (.allocSmall hsmall))
  have haligned := aligned_of_recomputed hodd hblock.1 hshard hblock' hsb
    (hrun.recomputed a (List.mem_cons_self ..))
  rw [← hslots]
  exact haligned

end Chunk

/-! ## The condition -/

/-- A chunk of at least `MIN_THREAD_MEMORY` stays sound in every run exactly when its
shards consist of whole superblocks. -/
theorem chunk_sound_iff {totalMemory : Nat} (hmin : minThreadMemory ≤ totalMemory)
    (parallelism : Nat) (memory : Nat → FreeNode) :
    ∃ chunk, Chunk.new memory totalMemory parallelism = .ok chunk ∧
      ((∀ s, Run ChunkStep Always (fun s => s = ⟨chunk, [], []⟩) s → ChunkSound s) ↔
        superblockSize ∣ totalMemory / slotSize /
          min (max (nextPowerOfTwo parallelism % 2 ^ 64) 16)
            (2 ^ Nat.log2 (totalMemory / slotSize / superblockSize))) := by
  have hslots : 8 * superblockSize ≤ totalMemory / slotSize :=
    (Nat.le_div_iff_mul_le (by decide)).mpr hmin
  obtain ⟨c, hnew, hfresh, hshards, hsuperblocks, hmemory, hper⟩ :=
    Chunk.new_spec hslots parallelism memory
  obtain ⟨⟨k, hk, hcount⟩, -⟩ := Chunk.shardCount_spec hslots parallelism
  rw [← Chunk.shardCount_eq (Nat.le_trans (by decide) hslots), ← hper]
  have hrow : c.shards.length * c.slotsPerShard ≤ totalMemory / slotSize := by
    rw [hshards, hper]
    exact Nat.mul_div_le ..
  refine ⟨c, hnew, ?_, ?_⟩
  · intro hsound
    refine hfresh.aligned_of_sound hk (hshards.trans hcount) ?_
      (Chunk.superblocks_mapped hmemory hsuperblocks) hsound
    rw [hsuperblocks]
    refine Nat.lt_of_le_of_lt hrow ?_
    rw [← Nat.div_lt_iff_lt_mul (by decide)]
    exact Nat.lt_succ_self _
  · intro haligned s hs
    have hordered : s.Ordered := by
      refine Run.invariant ?_ (fun _ _ _ h _ hstep => h.step hstep) hs
      rintro _ rfl
      exact hfresh.ordered haligned hrow hsuperblocks hmemory
    obtain ⟨owned, hinv⟩ := hordered
    exact hinv.sound

/-- The smallest chunk on a single core: 8 shards of one superblock each. -/
theorem chunk_sound_two_mib :
    minThreadMemory ≤ 2097152 ∧
      superblockSize ∣ 2097152 / slotSize / min (max (nextPowerOfTwo 1 % 2 ^ 64) 16)
        (2 ^ Nat.log2 (2097152 / slotSize / superblockSize)) ∧
      ∃ chunk, Chunk.new (fun _ => zeroPage) 2097152 1 = .ok chunk ∧
        ∀ s, Run ChunkStep Always (fun s => s = ⟨chunk, [], []⟩) s → ChunkSound s := by
  have haligned : superblockSize ∣ 2097152 / slotSize /
      min (max (nextPowerOfTwo 1 % 2 ^ 64) 16)
        (2 ^ Nat.log2 (2097152 / slotSize / superblockSize)) := by decide +kernel
  have hmin : minThreadMemory ≤ 2097152 := by decide
  obtain ⟨chunk, hnew, hiff⟩ := chunk_sound_iff hmin 1 (fun _ => zeroPage)
  exact ⟨hmin, haligned, chunk, hnew, hiff.mpr haligned⟩

/-- The chunk of 12 MiB on 32 cores: 32 shards of 96 slots each. -/
def unevenChunk : Chunk :=
  match Chunk.new (fun _ => zeroPage) 12582912 32 with
  | .ok c => c
  | .error _ => { shards := [], superblocks := [], memoryLen := 0, slotsPerShard := 0 }

/-- After the second worker took one slot. -/
def unevenSmall : Chunk × Option (Allocation × CacheEntry) :=
  (unevenChunk.allocSmall (some 1) 0).get (by decide +kernel)

/-- After the worker with seed 12 then took 32 slots. -/
def unevenLarge : Chunk × Option Allocation :=
  (unevenSmall.1.allocLarge 5 (some 12) 0).get (by decide +kernel)

/-- Both allocations start at page 2752. -/
theorem uneven_chunk_overlaps :
    Chunk.new (fun _ => zeroPage) 12582912 32 = .ok unevenChunk ∧
      ∃ s, Run ChunkStep Always (fun s => s = ⟨unevenChunk, [], []⟩) s ∧
        (∃ a b : Allocation, s.live = [a, b] ∧ a.index = 2752 ∧ b.index = 2752) ∧
        ¬ ChunkSound s := by
  have hsmall : unevenChunk.allocSmall (some 1) 0 =
      some (unevenSmall.1, some (⟨2752, 0, 29, 0, some 43⟩, ⟨43, 29, 0⟩)) := by
    have hfound : unevenSmall.2 = some (⟨2752, 0, 29, 0, some 43⟩, ⟨43, 29, 0⟩) := by
      decide +kernel
    have hget : unevenChunk.allocSmall (some 1) 0 = some unevenSmall := by
      unfold unevenSmall
      rw [Option.some_get]
    rw [hget, ← hfound]
  have hlarge : unevenSmall.1.allocLarge 5 (some 12) 0 =
      some (unevenLarge.1, some ⟨2752, 5, 28, 64, none⟩) := by
    have hfound : unevenLarge.2 = some ⟨2752, 5, 28, 64, none⟩ := by decide +kernel
    have hget : unevenSmall.1.allocLarge 5 (some 12) 0 = some unevenLarge := by
      unfold unevenLarge
      rw [Option.some_get]
    rw [hget, ← hfound]
  have hnew : Chunk.new (fun _ => zeroPage) 12582912 32 = .ok unevenChunk := by
    have hslots : 8 * superblockSize ≤ 12582912 / slotSize := by decide
    obtain ⟨c, hok, -⟩ := Chunk.new_spec hslots 32 (fun _ => zeroPage)
    unfold unevenChunk
    rw [hok]
  -- from here on the chunks are only names
  generalize unevenSmall.1 = c₁ at hsmall hlarge
  generalize unevenLarge.1 = c₂ at hlarge
  generalize unevenChunk = c₀ at hnew hsmall ⊢
  have hstart : Run ChunkStep Always (fun s => s = ⟨c₀, [], []⟩) ⟨c₀, [], []⟩ := Run.start rfl
  have hrun := (hstart.next (.allocSmall (some 1) 0) trivial (.allocSmall hsmall)).next
    (.allocLarge 5 (some 12) 0) trivial (.allocLarge (by decide) hlarge)
  refine ⟨hnew, _, hrun, ⟨_, _, rfl, rfl, rfl⟩, ?_⟩
  intro hsound
  have hapart := (List.pairwise_cons.mp hsound.apart).1 _ (List.mem_cons_self ..)
  exact hapart 2752 (covers_self 2752 5) (covers_self 2752 0)

end Veloq.Heap
