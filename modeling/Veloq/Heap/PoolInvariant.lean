import Veloq.Heap.Pool
set_option autoImplicit false

/-!
# Heap: what ties caches and handles to pools

`Consistent` relates the chunks, the pools, the entries that the threads hold and the
slots that are handed out.  Every chunk carries the invariant of a chunk in use, with a
record of its live allocations and of the superblocks that some thread holds; each entry
and each handle is one of these.  The lemmas follow what an operation does to a chunk.
-/

namespace Veloq.Heap

open Veloq.Foundation
open Veloq.Foundation.Dyadic

/-- For every chunk its live allocations, the superblocks that are held, and the blocks
behind them. -/
structure Records where
  live : Nat → List Allocation
  entries : Nat → List CacheEntry
  owned : Nat → Nat → Nat → Option Nat

/-- The records of chunk `i` are replaced. -/
def Records.set (r : Records) (i : Nat) (live : List Allocation) (entries : List CacheEntry)
    (owned : Nat → Nat → Option Nat) : Records :=
  { live := Function.update r.live i live
    entries := Function.update r.entries i entries
    owned := Function.update r.owned i owned }

/-- Chunk `i` changes, its id and its memory stay. -/
def setAt (chunks : List SharedChunk) (i : Nat) (chunk : Chunk) : List SharedChunk :=
  chunks.modify i fun c => { c with chunk := chunk }

/-- Thread `t` now has `value` under `key`. -/
def hold (held : Nat → Nat → Option LocalCacheEntry) (t key : Nat)
    (value : Option LocalCacheEntry) : Nat → Nat → Option LocalCacheEntry :=
  Function.update held t (Function.update (held t) key value)

/-- The chunk and the slot that a handle stands for. -/
def place (pools : Nat → Option (List Nat)) (h : Nat × SlotHandle) : Option Nat × Nat :=
  ((pools h.1).bind fun refs => refs[h.2.chunkId]?, h.2.slot)

/-- A handle stands for a live slot of a chunk of its pool. -/
def HandleOk (live : Nat → List Allocation) (chunks : List SharedChunk)
    (pools : Nat → Option (List Nat)) (h : Nat × SlotHandle) : Prop :=
  ∃ i c a, (place pools h).1 = some i ∧ chunks[i]? = some c ∧ a ∈ live i ∧
    a.index = h.2.slot ∧ a.superblock ≠ none ∧ h.2.ptr = c.base + h.2.slot * slotSize

/-- The superblock of an entry is held, and its chunk has its place in the pool that lies
at the address, if there is one. -/
def EntryOk (entries : Nat → List CacheEntry) (chunks : List SharedChunk)
    (pools : Nat → Option (List Nat)) (key : Nat) (entry : LocalCacheEntry) : Prop :=
  (∃ c, chunks[entry.chunk]? = some c) ∧
    (∃ e ∈ entries entry.chunk, e.superblock = entry.sbIdx) ∧
    ∀ refs, pools key = some refs → refs[entry.chunkId]? = some entry.chunk

structure Consistent (r : Records) (chunks : List SharedChunk) (pools : Nat → Option (List Nat))
    (held : Nat → Nat → Option LocalCacheEntry) (handles : List (Nat × SlotHandle)) : Prop where
  chunk : ∀ i c, chunks[i]? = some c → ChunkInv (r.owned i) ⟨c.chunk, r.live i, r.entries i⟩
  pool : ∀ a refs j i, pools a = some refs → refs[j]? = some i →
    ∃ c : SharedChunk, chunks[i]? = some c ∧ c.id = j
  entry : ∀ t key entry, held t key = some entry → EntryOk r.entries chunks pools key entry
  sole : ∀ t key entry t' key' entry', held t key = some entry → held t' key' = some entry' →
    entry.chunk = entry'.chunk → entry.sbIdx = entry'.sbIdx → t = t' ∧ key = key'
  handle : ∀ h ∈ handles, HandleOk r.live chunks pools h
  apart : (handles.map (place pools)).Nodup

theorem hold_self (held : Nat → Nat → Option LocalCacheEntry) (t key : Nat)
    (value : Option LocalCacheEntry) : hold held t key value t key = value := by
  unfold hold
  rw [Function.update_self, Function.update_self]

theorem hold_of_ne {held : Nat → Nat → Option LocalCacheEntry} {t key t' key' : Nat}
    {value : Option LocalCacheEntry} (h : ¬ (t' = t ∧ key' = key)) :
    hold held t key value t' key' = held t' key' := by
  unfold hold
  by_cases ht : t' = t
  · subst ht
    rw [Function.update_self, Function.update_of_ne fun hk => h ⟨rfl, hk⟩]
  · rw [Function.update_of_ne ht]

/-! ## Chunks -/

section
variable {chunks : List SharedChunk} {i j : Nat} {c : SharedChunk} {chunk : Chunk}

theorem setAt_self (hc : chunks[i]? = some c) :
    (setAt chunks i chunk)[i]? = some { c with chunk := chunk } := by
  unfold setAt
  rw [List.getElem?_modify_eq, hc]
  rfl

theorem setAt_of_ne (h : j ≠ i) : (setAt chunks i chunk)[j]? = chunks[j]? := by
  unfold setAt
  exact List.getElem?_modify_ne _ _ (Ne.symm h)

theorem setAt_same (hc : chunks[i]? = some c) : setAt chunks i c.chunk = chunks := by
  refine List.ext_getElem? fun j => ?_
  by_cases h : j = i
  · subst h
    rw [setAt_self hc, hc]
  · exact setAt_of_ne h

/-- The last chunk changes. -/
theorem setAt_concat (chunks : List SharedChunk) (c : SharedChunk) (chunk : Chunk) :
    setAt (chunks ++ [c]) chunks.length chunk = chunks ++ [{ c with chunk := chunk }] := by
  induction chunks with
  | nil => rfl
  | cons d chunks ih =>
    unfold setAt at ih ⊢
    rw [List.cons_append, List.length_cons, List.modify_succ_cons, ih, List.cons_append]

/-- No change makes a chunk appear or disappear, or moves one. -/
theorem exists_setAt (i : Nat) (chunk : Chunk) (hj : ∃ c, chunks[j]? = some c) :
    ∃ c', (setAt chunks i chunk)[j]? = some c' ∧ ∀ c, chunks[j]? = some c →
      c'.id = c.id ∧ c'.base = c.base := by
  obtain ⟨c, hc⟩ := hj
  by_cases h : j = i
  · subst h
    refine ⟨_, setAt_self hc, ?_⟩
    intro c' hc'
    cases hc.symm.trans hc'
    exact ⟨rfl, rfl⟩
  · refine ⟨c, (setAt_of_ne h).trans hc, ?_⟩
    intro c' hc'
    cases hc.symm.trans hc'
    exact ⟨rfl, rfl⟩

end

/-- What `alloc_slots` of a chunk returns: a slot of the superblock it carved. -/
theorem Chunk.allocSmall_eq {c c' : Chunk} {seed : Option Nat} {threadHash : Nat} {a : Allocation}
    {e : CacheEntry} (h : c.allocSmall seed threadHash = some (c', some (a, e))) :
    a.superblock = some e.superblock := by
  unfold Chunk.allocSmall at h
  split at h
  · cases h
  · cases h
  · unfold Chunk.carve at h
    dsimp only at h
    split at h
    · split at h
      · cases h
      · cases h
      · split at h
        · cases h
          rfl
        · cases h
    · cases h

/-- The slot is in use. -/
def Chunk.Used (c : Chunk) (slot : Nat) : Prop :=
  ∃ state, c.superblocks[Chunk.superblockIndex slot]? = some state ∧
    state.freeMask.getLsbD (Chunk.superblockOffset slot) = false

/-- From `c` to `c'` the slot was freed and no other. -/
def Chunk.OnlyFreed (c c' : Chunk) (slot : Nat) : Prop :=
  c.Used slot ∧ ∀ other, c'.Used other ↔ c.Used other ∧ other ≠ slot

theorem Chunk.deallocGlobal_superblocks {c c' : Chunk} {index order : Nat}
    (h : c.deallocGlobal index order = some c') : c'.superblocks = c.superblocks := by
  unfold Chunk.deallocGlobal at h
  dsimp only at h
  split at h
  · cases h
  · split at h
    · cases h
      rfl
    · cases h

/-- Freeing a slot that is in use frees that slot. -/
theorem Chunk.onlyFreed_of_deallocSlots {c c' : Chunk} {slot : Nat} (hused : c.Used slot)
    (h : c.deallocSlots slot 0 = some c') : c.OnlyFreed c' slot := by
  refine ⟨hused, ?_⟩
  obtain ⟨state, hstate, hbit⟩ := hused
  have hsame : c'.superblocks = c.superblocks.set (superblockIndex slot)
      { state with freeMask := state.freeMask ||| 1#64 <<< superblockOffset slot } := by
    unfold Chunk.deallocSlots SuperblockState.freeOne at h
    rw [if_pos rfl, hstate] at h
    dsimp only at h
    split at h
    · exact Chunk.deallocGlobal_superblocks h
    · cases h
      rfl
  have hoffset : superblockOffset slot < 64 := Nat.mod_lt _ (by decide)
  intro other
  unfold Chunk.Used
  rw [hsame]
  by_cases hindex : superblockIndex other = superblockIndex slot
  · obtain ⟨hlt, -⟩ := List.getElem?_eq_some_iff.mp hstate
    have hne : other ≠ slot ↔ superblockOffset other ≠ superblockOffset slot := by
      unfold superblockOffset superblockIndex superblockSize at *
      omega
    rw [hindex, List.getElem?_set_self hlt, hstate, hne]
    constructor
    · rintro ⟨state', hstate', hbit'⟩
      cases hstate'
      rw [Bits.getLsbD_or_bit _ hoffset, Bool.or_eq_false_iff] at hbit'
      exact ⟨⟨state, rfl, hbit'.1⟩, of_decide_eq_false hbit'.2⟩
    · rintro ⟨⟨state', hstate', hbit'⟩, hdiff⟩
      cases hstate'
      refine ⟨_, rfl, ?_⟩
      rw [Bits.getLsbD_or_bit _ hoffset, Bool.or_eq_false_iff]
      exact ⟨hbit', decide_eq_false hdiff⟩
  · rw [List.getElem?_set_ne (Ne.symm hindex)]
    constructor
    · intro hother
      exact ⟨hother, fun heq => hindex (by rw [heq])⟩
    · exact And.left

/-- Two allocations of single slots that are apart have different slots. -/
theorem index_ne {owned : Nat → Nat → Option Nat} {c : Chunk} {a b : Allocation}
    {live : List Allocation} {entries : List CacheEntry}
    (h : ChunkInv owned ⟨c, a :: live, entries⟩) (hb : b ∈ live) : a.index ≠ b.index := by
  have hexclusive := (List.pairwise_cons.mp h.exclusive).1 b hb
  have hapart := h.apart_of_exclusive (List.mem_cons_self ..) (List.mem_cons_of_mem _ hb) hexclusive
  intro heq
  refine hapart a.index (covers_self a.index a.order) ?_
  rw [heq]
  exact covers_self b.index b.order

namespace Consistent

variable {r : Records} {chunks : List SharedChunk} {pools : Nat → Option (List Nat)}
  {held : Nat → Nat → Option LocalCacheEntry} {handles : List (Nat × SlotHandle)}
  {i t key : Nat} {c : SharedChunk} {chunk : Chunk} {entry : LocalCacheEntry}
  {live : List Allocation} {entries : List CacheEntry} {owned : Nat → Nat → Option Nat}

/-- Chunk `i` changes along with its records.  The handles of that chunk that stay have
their slots among the live ones, the entries that stay are held. -/
theorem change (h : Consistent r chunks pools held handles) (hc : chunks[i]? = some c)
    (hinv : ChunkInv owned ⟨chunk, live, entries⟩) {held' : Nat → Nat → Option LocalCacheEntry}
    {handles' : List (Nat × SlotHandle)}
    (hheld : ∀ t key entry, held' t key = some entry → held t key = some entry)
    (hsub : handles'.Sublist handles)
    (hentries : ∀ t key entry, held' t key = some entry → entry.chunk = i →
      ∃ e ∈ entries, e.superblock = entry.sbIdx)
    (hlive : ∀ h ∈ handles', (place pools h).1 = some i →
      ∃ a ∈ live, a.index = h.2.slot ∧ a.superblock ≠ none) :
    Consistent (r.set i live entries owned) (setAt chunks i chunk) pools held' handles' := by
  refine ⟨?_, ?_, ?_, ?_, ?_, h.apart.sublist (hsub.map _)⟩
  · intro j d hd
    by_cases hj : j = i
    · subst hj
      rw [setAt_self hc] at hd
      cases hd
      simp only [Records.set, Function.update_self]
      exact hinv
    · rw [setAt_of_ne hj] at hd
      simp only [Records.set, Function.update_of_ne hj]
      exact h.chunk j d hd
  · intro a refs j k hrefs hk
    obtain ⟨d, hd, hid⟩ := h.pool a refs j k hrefs hk
    obtain ⟨d', hd', hsame⟩ := exists_setAt i chunk ⟨d, hd⟩
    exact ⟨d', hd', (hsame d hd).1.trans hid⟩
  · intro t key entry hentry
    obtain ⟨hd, he, hpool⟩ := h.entry t key entry (hheld t key entry hentry)
    obtain ⟨d', hd', -⟩ := exists_setAt i chunk hd
    refine ⟨⟨d', hd'⟩, ?_, hpool⟩
    by_cases hi : entry.chunk = i
    · rw [hi]
      simp only [Records.set, Function.update_self]
      exact hentries t key entry hentry hi
    · simp only [Records.set, Function.update_of_ne hi]
      exact he
  · intro t key entry t' key' entry' hentry hentry'
    exact h.sole t key entry t' key' entry' (hheld _ _ _ hentry) (hheld _ _ _ hentry')
  · intro x hx
    obtain ⟨j, d, a, hj, hd, ha, hindex, hsb, hptr⟩ := h.handle x (hsub.subset hx)
    obtain ⟨d', hd', hsame⟩ := exists_setAt i chunk ⟨d, hd⟩
    by_cases hji : j = i
    · subst hji
      obtain ⟨a', ha', hindex', hsb'⟩ := hlive x hx hj
      refine ⟨j, d', a', hj, hd', ?_, hindex', hsb', ?_⟩
      · simp only [Records.set, Function.update_self]
        exact ha'
      · rw [(hsame d hd).2]
        exact hptr
    · refine ⟨j, d', a, hj, hd', ?_, hindex, hsb, ?_⟩
      · simp only [Records.set, Function.update_of_ne hji]
        exact ha
      · rw [(hsame d hd).2]
        exact hptr

/-- A slot that has just become live is handed out. -/
theorem hand (h : Consistent r chunks pools held handles) {address refs a}
    (hpool : pools address = some refs) (hi : refs[c.id]? = some i) (hc : chunks[i]? = some c)
    {live : List Allocation} (hlive : r.live i = a :: live) (hsb : a.superblock ≠ none)
    (hold : ∀ h ∈ handles, (place pools h).1 = some i →
      ∃ b ∈ live, b.index = h.2.slot ∧ b.superblock ≠ none) :
    Consistent r chunks pools held
      ((address, ⟨c.id, a.index, c.base + a.index * slotSize⟩) :: handles) := by
  have hplace : (place pools (address, ⟨c.id, a.index, c.base + a.index * slotSize⟩)) =
      (some i, a.index) := by
    unfold place
    rw [hpool, Option.bind_some, hi]
  refine ⟨h.chunk, h.pool, h.entry, h.sole, ?_, List.nodup_cons.mpr ⟨?_, h.apart⟩⟩
  · intro x hx
    rcases List.mem_cons.mp hx with rfl | hx
    · refine ⟨i, c, a, by rw [hplace], hc, ?_, rfl, hsb, rfl⟩
      rw [hlive]
      exact List.mem_cons_self ..
    · exact h.handle x hx
  · intro hmem
    obtain ⟨x, hx, heq⟩ := List.mem_map.mp hmem
    rw [hplace] at heq
    obtain ⟨b, hb, hindex, -⟩ := hold x hx (by rw [heq])
    have hinv := h.chunk i c hc
    rw [hlive] at hinv
    refine index_ne hinv hb ?_
    rw [hindex]
    exact (congrArg Prod.snd heq).symm

/-- The handles of a chunk stand for live slots of it. -/
theorem live_of_handle (h : Consistent r chunks pools held handles) {x : Nat × SlotHandle}
    (hx : x ∈ handles) (hi : (place pools x).1 = some i) :
    ∃ a ∈ r.live i, a.index = x.2.slot ∧ a.superblock ≠ none := by
  obtain ⟨j, d, a, hj, hd, ha, hindex, hsb, hptr⟩ := h.handle x hx
  cases hi.symm.trans hj
  exact ⟨a, ha, hindex, hsb⟩

/-- A thread takes a slot from a superblock that it holds. -/
theorem takeSlot (h : Consistent r chunks pools held handles) (hheld : held t key = some entry)
    {refs : List Nat} (hpool : pools key = some refs) (hc : chunks[entry.chunk]? = some c)
    {offset : Nat} (hone : c.chunk.allocOne entry.sbIdx = some (chunk, some offset)) :
    ∃ r', Consistent r' (setAt chunks entry.chunk chunk) pools held
      ((key, ⟨entry.chunkId, Chunk.fromSuperblockOffset entry.sbIdx offset,
        c.base + Chunk.fromSuperblockOffset entry.sbIdx offset * slotSize⟩) :: handles) := by
  obtain ⟨-, ⟨e, he, hsb⟩, hplace⟩ := h.entry t key entry hheld
  have hid : entry.chunkId = c.id := by
    obtain ⟨d, hd, hid⟩ := h.pool key refs _ _ hpool (hplace refs hpool)
    cases hc.symm.trans hd
    exact hid.symm
  have hinv := h.chunk _ c hc
  obtain ⟨state, hstate, -⟩ := hinv.active e he
  have hne : state.freeMask ≠ 0 := by
    intro hfull
    have hnone := ChunkInv.allocOne_full hstate hfull
    rw [hsb, hone] at hnone
    cases hnone
  obtain ⟨chunk', offset', hsome, -, -, hinv'⟩ := hinv.allocOne he hstate hne
  rw [hsb, hone] at hsome
  cases hsome
  have hchanged := h.change hc hinv' (fun _ _ _ hx => hx) (List.Sublist.refl _)
    (fun t' key' entry' hentry' hchunk => hchunk ▸ (h.entry t' key' entry' hentry').2.1)
    (fun x hx hi => by
      obtain ⟨a, ha, hrest⟩ := h.live_of_handle hx hi
      exact ⟨a, List.mem_cons_of_mem _ ha, hrest⟩)
  have hrefs : refs[c.id]? = some entry.chunk := hid ▸ hplace refs hpool
  have hhanded := hchanged.hand hpool (c := { c with chunk := chunk }) hrefs (setAt_self hc)
    (show Function.update r.live entry.chunk _ entry.chunk = _ from Function.update_self ..)
    (Option.some_ne_none _) (fun x hx hi => h.live_of_handle hx hi)
  rw [hid, ← hsb]
  exact ⟨_, hhanded⟩

/-- A thread gives up a superblock that it holds. -/
theorem retire (h : Consistent r chunks pools held handles) (hheld : held t key = some entry)
    (hc : chunks[entry.chunk]? = some c) :
    ∃ chunk r', c.chunk.retire entry.sbIdx = some chunk ∧
      Consistent r' (setAt chunks entry.chunk chunk) pools (hold held t key none) handles := by
  obtain ⟨-, ⟨e, he, hsb⟩, -⟩ := h.entry t key entry hheld
  obtain ⟨before, after, hentries⟩ := List.append_of_mem he
  obtain ⟨chunk, owned, hretire, -, hinv⟩ := (h.chunk _ c hc).retire (e := e) hentries
  rw [hsb] at hretire
  have hheld' : ∀ t' key' entry', hold held t key none t' key' = some entry' →
      held t' key' = some entry' ∧ ¬ (t' = t ∧ key' = key) := by
    intro t' key' entry' hentry'
    by_cases hloc : t' = t ∧ key' = key
    · obtain ⟨rfl, rfl⟩ := hloc
      rw [hold_self] at hentry'
      cases hentry'
    · rw [hold_of_ne hloc] at hentry'
      exact ⟨hentry', hloc⟩
  refine ⟨chunk, _, hretire, h.change hc hinv (fun _ _ _ hx => (hheld' _ _ _ hx).1)
    (List.Sublist.refl _) ?_ (fun x hx hi => h.live_of_handle hx hi)⟩
  intro t' key' entry' hentry' hchunk
  obtain ⟨hentry', hne⟩ := hheld' t' key' entry' hentry'
  obtain ⟨-, ⟨e', he', hsb'⟩, -⟩ := h.entry t' key' entry' hentry'
  rw [hchunk, hentries] at he'
  -- the other entries of the chunk hold other superblocks
  have hother : e' ≠ e := by
    rintro rfl
    exact hne (h.sole t' key' entry' t key entry hentry' hheld hchunk (hsb'.symm.trans hsb))
  refine ⟨e', ?_, hsb'⟩
  rcases List.mem_append.mp he' with he' | he'
  · exact List.mem_append_left _ he'
  · exact List.mem_append_right _ ((List.mem_cons.mp he').resolve_left hother)

/-- A thread carves a superblock from a chunk of the pool and takes its first slot. -/
theorem carve (h : Consistent r chunks pools held handles) (t : Nat)
    {refs : List Nat} {j : Nat} (hpool : pools key = some refs) (hj : refs[j]? = some i)
    (hc : chunks[i]? = some c) {seed : Option Nat} {threadHash : Nat} {a : Allocation}
    {e : CacheEntry} (hsmall : c.chunk.allocSmall seed threadHash = some (chunk, some (a, e))) :
    ∃ r', Consistent r' (setAt chunks i chunk) pools
      (hold held t key (some ⟨i, e.superblock, c.id⟩))
      ((key, ⟨c.id, a.index, c.base + a.index * slotSize⟩) :: handles) := by
  have hid : c.id = j := by
    obtain ⟨d, hd, hid⟩ := h.pool key refs j i hpool hj
    cases hc.symm.trans hd
    exact hid
  have hinv : ∃ owned, ChunkInv owned ⟨chunk, a :: r.live i, e :: r.entries i⟩ := by
    rcases (h.chunk i c hc).allocSmall seed threadHash with hfail | ⟨_, _, _, owned, hsome, hinv⟩
    · cases hfail.symm.trans hsmall
    · cases hsome.symm.trans hsmall
      exact ⟨owned, hinv⟩
  obtain ⟨owned, hinv⟩ := hinv
  have hsb : a.superblock ≠ none := by
    rw [Chunk.allocSmall_eq hsmall]
    exact Option.some_ne_none _
  -- first the chunk with its records, then the handle, then the entry
  have hchanged := h.change hc hinv (fun _ _ _ hx => hx) (List.Sublist.refl _)
    (fun t' key' entry' hentry' hchunk => by
      obtain ⟨e', he', hsb'⟩ := hchunk ▸ (h.entry t' key' entry' hentry').2.1
      exact ⟨e', List.mem_cons_of_mem _ he', hsb'⟩)
    (fun x hx hi => by
      obtain ⟨a', ha', hrest⟩ := h.live_of_handle hx hi
      exact ⟨a', List.mem_cons_of_mem _ ha', hrest⟩)
  have hhanded := hchanged.hand hpool (c := { c with chunk := chunk }) (by rw [hid]; exact hj)
    (setAt_self hc) (show Function.update r.live i _ i = _ from Function.update_self ..) hsb
    (fun x hx hi => h.live_of_handle hx hi)
  have hfresh : ∀ t' key' entry', held t' key' = some entry' → entry'.chunk = i →
      entry'.sbIdx ≠ e.superblock := by
    intro t' key' entry' hentry' hchunk heq
    obtain ⟨e', he', hsb'⟩ := hchunk ▸ (h.entry t' key' entry' hentry').2.1
    refine (List.nodup_cons.mp hinv.distinct).1 ?_
    rw [← heq, ← hsb']
    exact List.mem_map_of_mem he'
  refine ⟨_, hhanded.chunk, hhanded.pool, ?_, ?_, hhanded.handle, hhanded.apart⟩
  · intro t' key' entry' hentry'
    by_cases hloc : t' = t ∧ key' = key
    · obtain ⟨rfl, rfl⟩ := hloc
      rw [hold_self] at hentry'
      cases hentry'
      refine ⟨⟨_, setAt_self hc⟩, ⟨e, ?_, rfl⟩, ?_⟩
      · show e ∈ Function.update r.entries i _ i
        rw [Function.update_self]
        exact List.mem_cons_self ..
      · intro refs' hrefs'
        cases hpool.symm.trans hrefs'
        show refs[c.id]? = some i
        rw [hid]
        exact hj
    · rw [hold_of_ne hloc] at hentry'
      exact hhanded.entry t' key' entry' hentry'
  · intro t₁ key₁ entry₁ t₂ key₂ entry₂ h₁ h₂ hchunk hsbIdx
    by_cases hloc₁ : t₁ = t ∧ key₁ = key
    · by_cases hloc₂ : t₂ = t ∧ key₂ = key
      · exact ⟨hloc₁.1.trans hloc₂.1.symm, hloc₁.2.trans hloc₂.2.symm⟩
      · rw [hloc₁.1, hloc₁.2, hold_self] at h₁
        rw [hold_of_ne hloc₂] at h₂
        cases h₁
        exact absurd hsbIdx.symm (hfresh t₂ key₂ entry₂ h₂ hchunk.symm)
    · rw [hold_of_ne hloc₁] at h₁
      by_cases hloc₂ : t₂ = t ∧ key₂ = key
      · rw [hloc₂.1, hloc₂.2, hold_self] at h₂
        cases h₂
        exact absurd hsbIdx (hfresh t₁ key₁ entry₁ h₁ hchunk)
      · rw [hold_of_ne hloc₂] at h₂
        exact h.sole t₁ key₁ entry₁ t₂ key₂ entry₂ h₁ h₂ hchunk hsbIdx

/-- A handle stands for a slot in use inside the memory of its chunk. -/
theorem used (h : Consistent r chunks pools held handles) {x : Nat × SlotHandle}
    (hx : x ∈ handles) :
    ∃ i c, (place pools x).1 = some i ∧ chunks[i]? = some c ∧ c.chunk.Used x.2.slot ∧
      x.2.ptr = c.base + x.2.slot * slotSize ∧ x.2.slot * slotSize < c.chunk.memoryLen := by
  obtain ⟨i, c, a, hi, hc, ha, hindex, hsb, hptr⟩ := h.handle x hx
  have hinv := h.chunk i c hc
  obtain ⟨superblock, hsuperblock⟩ := Option.ne_none_iff_exists'.mp hsb
  have hplaced := hinv.placed a ha
  simp only [Placed, hsuperblock] at hplaced
  obtain ⟨-, -, hsame, state, hstate, hbit⟩ := hplaced
  rw [← hsame, hindex] at hstate
  rw [hindex] at hbit
  refine ⟨i, c, hi, hc, ⟨state, hstate, hbit⟩, hptr, ?_⟩
  obtain ⟨hlt, -⟩ := List.getElem?_eq_some_iff.mp hstate
  have hmapped : c.chunk.superblocks.length * superblockSize * slotSize ≤ c.chunk.memoryLen :=
    hinv.geometry.mapped
  refine Nat.lt_of_lt_of_le ?_ hmapped
  refine Nat.mul_lt_mul_of_pos_right ?_ (by decide)
  exact (Nat.div_lt_iff_lt_mul (by decide)).mp hlt

/-- The slot of a handle is freed. -/
theorem free (h : Consistent r chunks pools held handles) {x : Nat × SlotHandle}
    (hx : x ∈ handles) (hi : (place pools x).1 = some i) (hc : chunks[i]? = some c) :
    ∃ chunk r', c.chunk.deallocSlots x.2.slot 0 = some chunk ∧
      Consistent r' (setAt chunks i chunk) pools held (handles.erase x) := by
  obtain ⟨a, ha, hindex, hsb⟩ := h.live_of_handle hx hi
  obtain ⟨before, after, hlive⟩ := List.append_of_mem ha
  obtain ⟨superblock, hsuperblock⟩ := Option.ne_none_iff_exists'.mp hsb
  have hinv := h.chunk i c hc
  obtain ⟨chunk, owned, hdealloc, -, hinv'⟩ := hinv.deallocSlots (a := a) hlive
  have horder : a.order = 0 := by
    have hplaced := hinv.placed a ha
    simp only [Placed, hsuperblock] at hplaced
    exact hplaced.1
  rw [hindex, horder] at hdealloc
  refine ⟨chunk, _, hdealloc, h.change hc hinv' (fun _ _ _ hx => hx) List.erase_sublist
    (fun t key entry hentry hchunk => hchunk ▸ (h.entry t key entry hentry).2.1) ?_⟩
  intro y hy hiy
  obtain ⟨hne, hy⟩ := (h.apart.of_map _).mem_erase_iff.mp hy
  obtain ⟨b, hb, hindex', hsb'⟩ := h.live_of_handle hy hiy
  refine ⟨b, ?_, hindex', hsb'⟩
  -- the other handles of the chunk stand for other slots
  have hother : b ≠ a := by
    rintro rfl
    refine hne (List.inj_on_of_nodup_map h.apart hy hx ?_)
    exact Prod.ext (hiy.trans hi.symm) (hindex'.symm.trans hindex)
  rw [hlive] at hb
  rcases List.mem_append.mp hb with hb | hb
  · exact List.mem_append_left _ hb
  · exact List.mem_append_right _ ((List.mem_cons.mp hb).resolve_left hother)

/-- A pool is dropped. -/
theorem dropPool (h : Consistent r chunks pools held handles) (address : Nat) :
    Consistent r chunks (Function.update pools address none) held
      (handles.filter fun x => x.1 ≠ address) := by
  have hpools : ∀ a refs, Function.update pools address none a = some refs →
      pools a = some refs := by
    intro a refs hrefs
    by_cases ha : a = address
    · subst ha
      rw [Function.update_self] at hrefs
      cases hrefs
    · rwa [Function.update_of_ne ha] at hrefs
  have hplace : ∀ x ∈ handles.filter fun x => x.1 ≠ address,
      place (Function.update pools address none) x = place pools x := by
    intro x hx
    have hne : x.1 ≠ address := of_decide_eq_true (List.mem_filter.mp hx).2
    unfold place
    rw [Function.update_of_ne hne]
  refine ⟨h.chunk, fun a refs j i hrefs => h.pool a refs j i (hpools a refs hrefs), ?_, h.sole,
    ?_, ?_⟩
  · intro t key entry hentry
    obtain ⟨hd, he, hpool⟩ := h.entry t key entry hentry
    exact ⟨hd, he, fun refs hrefs => hpool refs (hpools key refs hrefs)⟩
  · intro x hx
    obtain ⟨i, c, a, hi, hrest⟩ := h.handle x (List.mem_filter.mp hx).1
    exact ⟨i, c, a, by rw [hplace x hx]; exact hi, hrest⟩
  · rw [List.map_congr_left hplace]
    exact h.apart.sublist (List.filter_sublist.map _)

/-- The pool at `address`, new or not, gets a new chunk. -/
theorem addChunk (h : Consistent r chunks pools held handles) {address : Nat} {refs : List Nat}
    (hrefs : pools address = some refs ∨
      pools address = none ∧ refs = [] ∧ ∀ t, held t address = none)
    (hordered : ChunkUse.Ordered ⟨chunk, [], []⟩) (base : Nat) :
    ∃ r', Consistent r' (chunks ++ [⟨refs.length, base, chunk⟩])
      (Function.update pools address (some (refs ++ [chunks.length]))) held handles := by
  obtain ⟨owned, hinv⟩ := hordered
  have hold : ∀ i c, chunks[i]? = some c →
      (chunks ++ [⟨refs.length, base, chunk⟩])[i]? = some c ∧ i ≠ chunks.length := by
    intro i c hc
    obtain ⟨hlt, -⟩ := List.getElem?_eq_some_iff.mp hc
    rw [List.getElem?_append_left hlt]
    exact ⟨hc, Nat.ne_of_lt hlt⟩
  have hnew : (chunks ++ [⟨refs.length, base, chunk⟩])[chunks.length]? =
      some ⟨refs.length, base, chunk⟩ := by
    rw [List.getElem?_concat_length]
  -- what a pool had, it still has
  have hpools : ∀ (a : Nat) (refs' : List Nat) (j i : Nat), pools a = some refs' →
      refs'[j]? = some i →
      (Function.update pools address (some (refs ++ [chunks.length])) a).bind (fun l => l[j]?) =
        some i := by
    intro a refs' j i ha hj
    by_cases heq : a = address
    · subst heq
      rcases hrefs with hrefs | ⟨hnone, -, -⟩
      · cases ha.symm.trans hrefs
        obtain ⟨hlt, -⟩ := List.getElem?_eq_some_iff.mp hj
        rw [Function.update_self, Option.bind_some, List.getElem?_append_left hlt, hj]
      · cases ha.symm.trans hnone
    · rw [Function.update_of_ne heq, ha, Option.bind_some, hj]
  have hplace : ∀ x ∈ handles,
      place (Function.update pools address (some (refs ++ [chunks.length]))) x =
        place pools x := by
    intro x hx
    obtain ⟨i, c, a, hi, -⟩ := h.handle x hx
    obtain ⟨refs', hrefs', hj⟩ := Option.bind_eq_some_iff.mp hi
    refine Prod.ext ?_ rfl
    rw [hi]
    exact hpools x.1 refs' _ i hrefs' hj
  refine ⟨r.set chunks.length [] [] owned, ?_, ?_, ?_, h.sole, ?_, ?_⟩
  · intro i c hc
    by_cases hi : i = chunks.length
    · subst hi
      rw [hnew] at hc
      cases hc
      simp only [Records.set, Function.update_self]
      exact hinv
    · simp only [Records.set, Function.update_of_ne hi]
      refine h.chunk i c ?_
      obtain ⟨hlt, -⟩ := List.getElem?_eq_some_iff.mp hc
      rw [List.length_append, List.length_singleton] at hlt
      rwa [List.getElem?_append_left (by omega)] at hc
  · intro a refs' j i ha hj
    by_cases heq : a = address
    · subst heq
      rw [Function.update_self] at ha
      cases ha
      by_cases hlt : j < refs.length
      · rw [List.getElem?_append_left hlt] at hj
        rcases hrefs with hrefs | ⟨-, rfl, -⟩
        · obtain ⟨c, hc, hid⟩ := h.pool _ refs j i hrefs hj
          exact ⟨c, (hold i c hc).1, hid⟩
        · exact absurd hlt (Nat.not_lt_zero j)
      · rw [List.getElem?_append_right (Nat.le_of_not_lt hlt)] at hj
        obtain ⟨hzero, rfl⟩ := List.getElem?_eq_some_iff.mp hj
        rw [List.length_singleton] at hzero
        refine ⟨⟨refs.length, base, chunk⟩, ?_, show refs.length = j by omega⟩
        rw [List.getElem_singleton]
        exact hnew
    · rw [Function.update_of_ne heq] at ha
      obtain ⟨c, hc, hid⟩ := h.pool a refs' j i ha hj
      exact ⟨c, (hold i c hc).1, hid⟩
  · intro t key entry hentry
    obtain ⟨⟨c, hc⟩, he, hpool⟩ := h.entry t key entry hentry
    obtain ⟨hc', hne⟩ := hold _ c hc
    refine ⟨⟨c, hc'⟩, ?_, ?_⟩
    · simp only [Records.set, Function.update_of_ne hne]
      exact he
    · intro refs' hrefs'
      by_cases heq : key = address
      · subst heq
        rcases hrefs with hrefs | ⟨-, -, hempty⟩
        · have hstill := hpools key refs _ _ hrefs (hpool refs hrefs)
          rwa [hrefs', Option.bind_some] at hstill
        · rw [hempty t] at hentry
          cases hentry
      · rw [Function.update_of_ne heq] at hrefs'
        exact hpool refs' hrefs'
  · intro x hx
    obtain ⟨i, c, a, hi, hc, ha, hrest⟩ := h.handle x hx
    obtain ⟨hc', hne⟩ := hold i c hc
    refine ⟨i, c, a, by rw [hplace x hx]; exact hi, hc', ?_, hrest⟩
    simp only [Records.set, Function.update_of_ne hne]
    exact ha
  · rw [List.map_congr_left hplace]
    exact h.apart

end Consistent

end Veloq.Heap
