import Veloq.Heap.PoolRuns
import Veloq.Heap.ShardScan
set_option autoImplicit false

/-!
# Heap: what a failed allocation leaves behind

`GlobalSlotPool::alloc_slots` for every order, with the listener that is told of new chunks.
When no chunk of the pool can serve a request the pool grows by a chunk, and only then it is
seen whether the request fits into it.

Blocks of more than one slot do not go through the caches.  `handles` are the blocks that were
allocated from a pool that still exists and were not freed, with their orders.
-/

namespace Veloq.Heap

open Veloq.Foundation

/-- `ChunkAlloc`. -/
inductive ChunkAlloc where
  | small (alloc : SmallAlloc)
  | large (handle : SlotHandle)

/-- `ChunkInfo`. -/
structure ChunkInfo where
  id : Nat
  ptr : Nat
  len : Nat
  deriving DecidableEq, Repr

/-- The heap, the pools whose listener is set, and what the listeners were told. -/
structure ListenedHeap where
  heap : PoolHeap
  listeners : Nat → Bool
  notified : List (Nat × ChunkInfo)
  handles : List (Nat × Nat × SlotHandle)

/-- `Chunk::alloc_slots` on the chunk `i`. -/
def SharedChunk.allocSlots (c : SharedChunk) (i order : Nat) (seed : Option Nat)
    (threadHash : Nat) : Option (Chunk × Option ChunkAlloc) :=
  if order = 0 then
    (c.chunk.allocSmall seed threadHash).map fun allocated =>
      (allocated.1, allocated.2.map fun found =>
        .small ⟨i, c.id, found.2.superblock, found.1.index, c.base + found.1.index * slotSize⟩)
  else
    (c.chunk.allocLarge order seed threadHash).map fun allocated =>
      (allocated.1, allocated.2.map fun a => .large ⟨c.id, a.index, c.base + a.index * slotSize⟩)

namespace PoolHeap

/-- `Chunk::alloc_slots` on the chunks of a pool, up to the first that can serve. -/
def scanPool (order : Nat) (seed : Option Nat) (threadHash : Nat) :
    PoolHeap → List Nat → Option (PoolHeap × Option ChunkAlloc)
  | s, [] => some (s, none)
  | s, i :: rest => do
      let c ← s.chunks[i]?
      let (chunk, found) ← c.allocSlots i order seed threadHash
      let s := s.setChunk i chunk
      match found with
      | some alloc => return (s, some alloc)
      | none => scanPool order seed threadHash s rest

/-- `finish_alloc`. -/
def finish (s : PoolHeap) (t address : Nat) : ChunkAlloc → Option (PoolHeap × Option SlotHandle)
  | .small alloc => s.finishAlloc t address alloc
  | .large handle => some (s, some handle)

end PoolHeap

namespace ListenedHeap

def new : ListenedHeap :=
  { heap := PoolHeap.new, listeners := fun _ => false, notified := [], handles := [] }

variable (s : ListenedHeap)

/-- The listener of a pool is told of a new chunk. -/
def notify (address : Nat) (info : ChunkInfo) : ListenedHeap :=
  if s.listeners address then { s with notified := s.notified ++ [(address, info)] } else s

/-- The heap has changed. -/
def withHeap (result : PoolHeap × Option SlotHandle) : ListenedHeap × Option SlotHandle :=
  ({ s with heap := result.1 }, result.2)

/-- The pool grows by a chunk, and is asked for the block. -/
def expand (t address : Nat) (refs : List Nat) (order : Nat) (seed : Option Nat)
    (threadHash : Nat) (provision : Option Provision) :
    Option (ListenedHeap × Option SlotHandle) :=
  if refs.length < 2 ^ 16 then
    match provision with
    | none => some (s, none)
    | some p =>
        match Chunk.new p.memory PoolHeap.expansionSize p.parallelism with
        | .error .chunkTooSmall => some (s, none)
        | .error .panicked => none
        | .ok chunk => do
            let i := s.heap.chunks.length
            let fresh : SharedChunk := ⟨refs.length, p.base, chunk⟩
            let (chunk, found) ← fresh.allocSlots i order seed threadHash
            let heap := { s.heap with
              chunks := s.heap.chunks ++ [{ fresh with chunk := chunk }]
              pools := Function.update s.heap.pools address (some (refs ++ [i])) }
            let grown := { s with heap := heap }.notify address
              ⟨refs.length, p.base, PoolHeap.expansionSize⟩
            match found with
            | some alloc => (heap.finish t address alloc).map grown.withHeap
            | none => return (grown, none)
  else
    some (s, none)

/-- The path without locks, which is for single slots. -/
def tryCache (t address order : Nat) : Option (PoolHeap × Option SlotHandle) :=
  if order = 0 then s.heap.tryAlloc 2 t address else some (s.heap, none)

/-- `GlobalSlotPool::alloc_slots`, called by thread `t`. -/
def allocSlots (t address order : Nat) (seed : Option Nat) (threadHash : Nat)
    (provision : Option Provision) : Option (ListenedHeap × Option SlotHandle) := do
  let (heap, found) ← s.tryCache t address order
  match found with
  | some handle => return s.withHeap (heap, some handle)
  | none =>
      let refs ← heap.pools address
      let (heap, found) ← heap.scanPool order seed threadHash refs
      match found with
      | some alloc => (heap.finish t address alloc).map s.withHeap
      | none =>
          let (heap, found) ← heap.scanPool order seed threadHash refs
          match found with
          | some alloc => (heap.finish t address alloc).map s.withHeap
          | none => (s.withHeap (heap, none)).1.expand t address refs order seed threadHash provision

/-- `GlobalSlotPool::dealloc_slots`. -/
def deallocSlots (address chunkId slot order : Nat) : Option ListenedHeap := do
  let refs ← s.heap.pools address
  let i ← refs[chunkId]?
  let c ← s.heap.chunks[i]?
  let chunk ← c.chunk.deallocSlots slot order
  return { s with heap := s.heap.setChunk i chunk }

/-- What happens to pools and threads. -/
inductive Event where
  | create (address totalMemory : Nat) (provision : Option Provision)
  | drop (address : Nat)
  /-- `set_listener`. -/
  | listen (address : Nat)
  | alloc (t address order : Nat) (seed : Option Nat) (threadHash : Nat)
      (provision : Option Provision)
  | free (block : Nat × Nat × SlotHandle)
  | exit (t : Nat)

def step : Event → Option ListenedHeap
  | .create address totalMemory provision =>
      if s.heap.pools address = none then
        (s.heap.createPool address totalMemory provision).map fun heap =>
          { s with heap := heap, listeners := Function.update s.listeners address false }
      else none
  | .drop address =>
      if s.heap.pools address = none then none
      else some { s with
        heap := s.heap.dropPool address
        handles := s.handles.filter fun block => block.1 ≠ address }
  | .listen address =>
      if s.heap.pools address = none then none
      else some { s with listeners := Function.update s.listeners address true }
  | .alloc t address order seed threadHash provision =>
      if s.heap.pools address = none then none
      else (s.allocSlots t address order seed threadHash provision).map fun allocated =>
        { allocated.1 with
          handles := (allocated.2.map fun handle => (address, order, handle)).toList ++
            allocated.1.handles }
  | .free (address, order, handle) =>
      if (address, order, handle) ∈ s.handles then
        (s.deallocSlots address handle.chunkId handle.slot order).map fun freed =>
          { freed with handles := freed.handles.erase (address, order, handle) }
      else none
  | .exit t => (s.heap.exitThread t).map fun heap => { s with heap := heap }

end ListenedHeap

/-- The steps as a relation. -/
def ListenedStep (s : ListenedHeap) (e : ListenedHeap.Event) (s' : ListenedHeap) : Prop :=
  s.step e = some s'

/-! ## The same blocks -/

/-- The shards of a chunk and the free slots of its superblocks are the same. -/
structure SameBlocks (c c' : SharedChunk) : Prop where
  id : c'.id = c.id
  base : c'.base = c.base
  shards : c'.chunk.shards = c.chunk.shards
  masks : c'.chunk.superblocks.map (·.freeMask) = c.chunk.superblocks.map (·.freeMask)

theorem SameBlocks.refl (c : SharedChunk) : SameBlocks c c := ⟨rfl, rfl, rfl, rfl⟩

theorem SameBlocks.trans {c c' c'' : SharedChunk} (h : SameBlocks c c') (h' : SameBlocks c' c'') :
    SameBlocks c c'' :=
  ⟨h'.id.trans h.id, h'.base.trans h.base, h'.shards.trans h.shards, h'.masks.trans h.masks⟩

/-- The pools have the same chunks, and these the same blocks. -/
structure SameHeap (s s' : PoolHeap) : Prop where
  pools : s'.pools = s.pools
  length : s'.chunks.length = s.chunks.length
  chunks : ∀ (i : Nat) (c c' : SharedChunk), s.chunks[i]? = some c → s'.chunks[i]? = some c' → SameBlocks c c'

theorem SameHeap.refl (s : PoolHeap) : SameHeap s s :=
  ⟨rfl, rfl, fun i c c' hc hc' => by
    cases hc.symm.trans hc'
    exact .refl c⟩

theorem SameHeap.trans {s s' s'' : PoolHeap} (h : SameHeap s s') (h' : SameHeap s' s'') :
    SameHeap s s'' := by
  refine ⟨h'.pools.trans h.pools, h'.length.trans h.length, fun i c c'' hc hc'' => ?_⟩
  obtain ⟨hlt, -⟩ := List.getElem?_eq_some_iff.mp hc
  have hlt' : i < s'.chunks.length := h.length ▸ hlt
  have hc' : s'.chunks[i]? = some s'.chunks[i] := List.getElem?_eq_getElem hlt'
  exact (h.chunks i c _ hc hc').trans (h'.chunks i _ c'' hc' hc'')

/-! ## A chunk that cannot serve -/

namespace Chunk

variable {c c' : Chunk} {order : Nat}

theorem allocGlobal_none {seed : Option Nat} {threadHash : Nat}
    (h : c.allocGlobal order seed threadHash = some (c', none)) : c' = c := by
  unfold allocGlobal at h
  dsimp only at h
  split at h
  · cases h
  · cases h
  · rename_i hscan
    obtain rfl := scan_none hscan
    exact scan_none h

theorem carve_some {shard block : Nat} {found : Option (Allocation × CacheEntry)}
    (h : c.carve shard block = some (c', found)) : found.isSome = true := by
  unfold carve at h
  dsimp only at h
  split at h
  · split at h
    · cases h
    · cases h
    · split at h
      · cases h
        rfl
      · cases h
  · cases h

theorem allocSmall_none {seed : Option Nat} {threadHash : Nat}
    (h : c.allocSmall seed threadHash = some (c', none)) : c' = c := by
  unfold allocSmall at h
  split at h
  · cases h
  · rename_i hglobal
    cases h
    exact allocGlobal_none hglobal
  · exact absurd (carve_some h) Bool.false_ne_true

theorem allocLarge_none {seed : Option Nat} {threadHash : Nat}
    (h : c.allocLarge order seed threadHash = some (c', none)) : c' = c := by
  unfold allocLarge at h
  split at h
  · cases h
  · rename_i hglobal
    cases h
    exact allocGlobal_none hglobal
  · cases h

end Chunk

theorem SharedChunk.allocSlots_none {c : SharedChunk} {chunk : Chunk} {i order threadHash : Nat}
    {seed : Option Nat} (h : c.allocSlots i order seed threadHash = some (chunk, none)) :
    chunk = c.chunk := by
  unfold SharedChunk.allocSlots at h
  split at h
  · obtain ⟨⟨chunk', found⟩, halloc, heq⟩ := Option.map_eq_some_iff.mp h
    cases found with
    | none =>
      cases heq
      exact Chunk.allocSmall_none halloc
    | some found => cases heq
  · obtain ⟨⟨chunk', found⟩, halloc, heq⟩ := Option.map_eq_some_iff.mp h
    cases found with
    | none =>
      cases heq
      exact Chunk.allocLarge_none halloc
    | some found => cases heq

namespace PoolHeap

variable {s s' : PoolHeap} {t address order threadHash : Nat} {seed : Option Nat}

theorem setChunk_same {i : Nat} {c : SharedChunk} (hc : s.chunks[i]? = some c) :
    s.setChunk i c.chunk = s := by
  unfold setChunk
  rw [show s.chunks.modify i (fun x => { x with chunk := c.chunk }) = s.chunks from setAt_same hc]

/-- A pool none of whose chunks can serve stays as it was. -/
theorem scanPool_none {refs : List Nat}
    (h : s.scanPool order seed threadHash refs = some (s', none)) : s' = s := by
  induction refs generalizing s with
  | nil =>
    cases h
    rfl
  | cons i rest ih =>
    rw [scanPool] at h
    obtain ⟨c, hc, h⟩ := Option.bind_eq_some_iff.mp h
    obtain ⟨⟨chunk, found⟩, halloc, h⟩ := Option.bind_eq_some_iff.mp h
    cases found with
    | none =>
      obtain rfl := SharedChunk.allocSlots_none halloc
      dsimp only at h
      rw [setChunk_same hc] at h
      exact ih h
    | some alloc => cases h

end PoolHeap

/-! ## The caches -/

/-- The hot cells say what the owner says, and `others` has no entry for the hot pool. -/
structure LocalCache.Paired (cache : LocalCache) : Prop where
  null : cache.hot.owner = none → cache.hot.sbState = none
  state : ∀ entry, cache.hot.owner = some entry →
    cache.hot.sbState = some (entry.chunk, entry.sbIdx)
  apart : cache.hot.owner ≠ none → cache.others.lookup cache.hot.poolId = none

theorem LocalCache.Paired.new : LocalCache.new.Paired :=
  ⟨fun _ => rfl, (fun _ hf => by cases hf), fun hf => absurd rfl hf⟩

theorem Chunk.allocOne_none {c c' : Chunk} {superblock : Nat}
    (h : c.allocOne superblock = some (c', none)) :
    ∃ state, c.superblocks[superblock]? = some state ∧ state.freeMask = 0 ∧ c' = c := by
  unfold Chunk.allocOne at h
  split at h
  · cases h
  · rename_i state hstate
    unfold SuperblockState.allocOne at h
    by_cases hfull : state.freeMask = 0
    · rw [if_pos hfull] at h
      cases h
      obtain ⟨hlt, heq⟩ := List.getElem?_eq_some_iff.mp hstate
      refine ⟨state, hstate, hfull, ?_⟩
      rw [← heq, List.set_getElem_self]
    · rw [if_neg hfull] at h
      cases h

/-- A superblock without free slots that nobody holds any more stays allocated. -/
theorem Chunk.retire_full {c c' : Chunk} {superblock : Nat} {state : SuperblockState}
    (hstate : c.superblocks[superblock]? = some state) (hfull : state.freeMask = 0)
    (h : c.retire superblock = some c') :
    c'.shards = c.shards ∧
      c'.superblocks.map (·.freeMask) = c.superblocks.map (·.freeMask) := by
  unfold Chunk.retire at h
  simp only [hstate, SuperblockState.setInactive, hfull] at h
  rw [if_neg (by decide)] at h
  cases h
  refine ⟨rfl, ?_⟩
  obtain ⟨hlt, heq⟩ := List.getElem?_eq_some_iff.mp hstate
  show (c.superblocks.set superblock _).map _ = _
  have hlt' : superblock < (c.superblocks.map (·.freeMask)).length := by
    rwa [List.length_map]
  have hzero : (0 : BitVec 64) = (c.superblocks.map (·.freeMask))[superblock] := by
    rw [List.getElem_map, heq, hfull]
  rw [List.map_set, hzero, List.set_getElem_self]

namespace PoolHeap

variable {s s' : PoolHeap} {t poolId address order threadHash : Nat} {seed : Option Nat}
  {entry : LocalCacheEntry}

/-- All caches are in order. -/
def Paired (s : PoolHeap) : Prop := ∀ t, (s.caches t).Paired

theorem Paired.setCache (h : s.Paired) {cache : LocalCache} (hcache : cache.Paired) :
    (s.setCache t cache).Paired := by
  intro t'
  show (Function.update s.caches t cache t').Paired
  by_cases ht : t' = t
  · rw [ht, Function.update_self]
    exact hcache
  · rw [Function.update_of_ne ht]
    exact h t'

theorem sameHeap_setCache (s : PoolHeap) (t : Nat) (cache : LocalCache) :
    SameHeap s (s.setCache t cache) :=
  ⟨rfl, rfl, fun i c c' hc hc' => by
    cases hc.symm.trans hc'
    exact .refl c⟩

theorem sameHeap_setChunk {i : Nat} {c : SharedChunk} {chunk : Chunk} (hc : s.chunks[i]? = some c)
    (hsame : SameBlocks c { c with chunk := chunk }) : SameHeap s (s.setChunk i chunk) := by
  refine ⟨rfl, List.length_modify .., fun j c₁ c₂ h₁ h₂ => ?_⟩
  by_cases hj : j = i
  · subst hj
    cases hc.symm.trans h₁
    have hself : (setAt s.chunks j chunk)[j]? = some { c with chunk := chunk } := setAt_self hc
    cases hself.symm.trans h₂
    exact hsame
  · have hother : (setAt s.chunks i chunk)[j]? = s.chunks[j]? := setAt_of_ne hj
    cases (hother.trans h₁).symm.trans h₂
    exact .refl c₁

/-- The hot entry is given up after its superblock has run out. -/
theorem Paired.hotClear (h : s.Paired) {c : SharedChunk} {state : SuperblockState}
    (howner : (s.caches t).hot.owner = some entry) (hc : s.chunks[entry.chunk]? = some c)
    (hstate : c.chunk.superblocks[entry.sbIdx]? = some state) (hfull : state.freeMask = 0)
    (hrun : s.hotClear t = some s') :
    SameHeap s s' ∧ s'.Paired ∧ (s'.caches t).hot.owner = none ∧
      (s'.caches t).others = (s.caches t).others := by
  have hdrop : (s.setCache t (s.caches t).cleared).dropEntry entry = some s' := by
    unfold PoolHeap.hotClear at hrun
    simp only [howner] at hrun
    exact hrun
  unfold PoolHeap.dropEntry at hdrop
  obtain ⟨c', hc', hdrop⟩ := Option.bind_eq_some_iff.mp hdrop
  cases hc.symm.trans hc'
  obtain ⟨chunk, hretire, hdrop⟩ := Option.bind_eq_some_iff.mp hdrop
  cases hdrop
  obtain ⟨hshards, hmasks⟩ := Chunk.retire_full hstate hfull hretire
  have hcache : (Function.update s.caches t (s.caches t).cleared) t = (s.caches t).cleared :=
    Function.update_self ..
  have hsame : SameBlocks c { c with chunk := chunk } := ⟨rfl, rfl, hshards, hmasks⟩
  refine ⟨(sameHeap_setCache ..).trans (sameHeap_setChunk hc hsame),
    h.setCache (t := t) ⟨fun _ => rfl, (fun _ hf => by cases hf), fun hf => absurd rfl hf⟩, ?_, ?_⟩
  · show ((Function.update s.caches t _) t).hot.owner = none
    rw [hcache]
    rfl
  · show ((Function.update s.caches t _) t).others = _
    rw [hcache]
    rfl

/-- The fast path: a slot, or nothing from this pool is hot any more. -/
theorem Paired.tryHot (h : s.Paired) {found : Option SlotHandle}
    (hrun : s.tryHot t poolId = some (s', found)) :
    s'.Paired ∧ (found = none → SameHeap s s' ∧ s'.Cold t poolId ∧
      (s'.caches t).others = (s.caches t).others) := by
  unfold PoolHeap.tryHot at hrun
  dsimp only at hrun
  split at hrun
  · rename_i hnull
    cases hrun
    refine ⟨h, fun _ => ⟨.refl s, .inl ?_, rfl⟩⟩
    cases howner : (s.caches t).hot.owner with
    | none => rfl
    | some entry =>
      rw [(h t).state entry howner] at hnull
      cases hnull
  · rename_i i superblock hstate
    split at hrun
    · obtain ⟨c, hc, hrun⟩ := Option.bind_eq_some_iff.mp hrun
      obtain ⟨⟨chunk, offset⟩, hone, hrun⟩ := Option.bind_eq_some_iff.mp hrun
      cases offset with
      | some offset =>
        cases hrun
        exact ⟨h, fun hf => by cases hf⟩
      | none =>
        obtain ⟨cleared, hclear, heq⟩ := Option.bind_eq_some_iff.mp hrun
        cases heq
        obtain ⟨entry, howner⟩ : ∃ entry, (s.caches t).hot.owner = some entry := by
          cases howner : (s.caches t).hot.owner with
          | none =>
            rw [(h t).null howner] at hstate
            cases hstate
          | some entry => exact ⟨entry, rfl⟩
        rw [(h t).state entry howner] at hstate
        cases hstate
        obtain ⟨state, hsuper, hfull, rfl⟩ := Chunk.allocOne_none hone
        rw [setChunk_same hc] at hclear
        obtain ⟨hsame, hpaired, hnone, hothers⟩ := h.hotClear howner hc hsuper hfull hclear
        exact ⟨hpaired, fun _ => ⟨hsame, .inl hnone, hothers⟩⟩
    · rename_i hne
      cases hrun
      exact ⟨h, fun _ => ⟨.refl s, .inr hne, rfl⟩⟩

/-- An entry becomes hot while nothing is. -/
theorem hotSet_eq (hnone : (s.caches t).hot.owner = none)
    (hrun : s.hotSet t poolId entry = some s') :
    ∃ base, s' = s.setCache t ⟨LocalCache.hotOf poolId base entry, (s.caches t).others⟩ := by
  unfold PoolHeap.hotSet at hrun
  obtain ⟨c, -, hrun⟩ := Option.bind_eq_some_iff.mp hrun
  obtain ⟨-, -, hrun⟩ := Option.bind_eq_some_iff.mp hrun
  rw [hnone] at hrun
  exact ⟨c.base, (Option.some.inj hrun).symm⟩

/-- An entry is added that the thread does not have yet. -/
theorem Paired.cacheInsert (h : s.Paired) (hcold : s.Cold t poolId)
    (hlookup : (s.caches t).others.lookup poolId = none)
    (hrun : s.cacheInsert t poolId entry = some s') :
    SameHeap s s' ∧ s'.Paired ∧ (s'.caches t).others.lookup poolId = none := by
  unfold PoolHeap.cacheInsert at hrun
  rw [stashHot_eq (h t).apart] at hrun
  have hcache : (s.setCache t (s.caches t).stash).caches t = (s.caches t).stash :=
    Function.update_self ..
  obtain ⟨base, rfl⟩ := hotSet_eq (by rw [hcache]; exact LocalCache.stash_owner _) hrun
  have hnone : (s.caches t).stash.others.lookup poolId = none := by
    rw [LocalCache.lookup_stash, LocalCache.cached_others hcold]
    exact hlookup
  rw [hcache]
  refine ⟨⟨rfl, rfl, (SameHeap.refl s).chunks⟩, ?_, ?_⟩
  · intro t'
    show (Function.update (Function.update s.caches t _) t _ t').Paired
    rw [Function.update_idem]
    refine h.setCache (t := t) ⟨(fun hf => by cases hf), fun e he => ?_, fun _ => hnone⟩ t'
    cases he
    rfl
  · show ((Function.update (Function.update s.caches t _) t _) t).others.lookup poolId = none
    rw [Function.update_self]
    exact hnone

/-- The cache of a thread: a slot, or the thread has no entry for the pool. -/
theorem Paired.tryAlloc {depth : Nat} (h : s.Paired) {found : Option SlotHandle}
    (hrun : PoolHeap.tryAlloc depth s t poolId = some (s', found)) :
    s'.Paired ∧ (found = none → SameHeap s s' ∧ s'.Cold t poolId ∧
      (s'.caches t).others.lookup poolId = none) := by
  induction depth generalizing s with
  | zero => cases hrun
  | succ depth ih =>
    rw [PoolHeap.tryAlloc] at hrun
    obtain ⟨⟨s₁, first⟩, hhot, hrun⟩ := Option.bind_eq_some_iff.mp hrun
    obtain ⟨hpaired, hnone⟩ := h.tryHot hhot
    cases first with
    | some handle =>
      cases hrun
      exact ⟨hpaired, fun hf => by cases hf⟩
    | none =>
      obtain ⟨hsame, hcold, -⟩ := hnone rfl
      dsimp only at hrun
      split at hrun
      · rename_i hlookup
        cases hrun
        exact ⟨hpaired, fun _ => ⟨hsame, hcold, hlookup⟩⟩
      · rename_i entry hlookup
        set erased := s₁.setCache t
          { s₁.caches t with others := (s₁.caches t).others.erase poolId } with herased
        obtain ⟨s₂, hstash, hrun⟩ := Option.bind_eq_some_iff.mp hrun
        obtain ⟨s₃, hset, hrun⟩ := Option.bind_eq_some_iff.mp hrun
        have hcache : erased.caches t =
            { s₁.caches t with others := (s₁.caches t).others.erase poolId } :=
          Function.update_self ..
        have herase : erased.Paired := by
          refine hpaired.setCache ⟨(hpaired t).null, (hpaired t).state, fun howner => ?_⟩
          have hlook := (hpaired t).apart howner
          show ((s₁.caches t).others.erase poolId).lookup (s₁.caches t).hot.poolId = none
          have hne : (s₁.caches t).hot.poolId ≠ poolId := hcold.resolve_left howner
          rw [AList.lookup_erase_ne hne]
          exact hlook
        have hcold' : erased.Cold t poolId := by
          unfold PoolHeap.Cold
          rw [hcache]
          exact hcold
        have hgone : (erased.caches t).others.lookup poolId = none := by
          rw [hcache]
          exact AList.lookup_erase _ _
        have hinsert : erased.cacheInsert t poolId entry = some s₃ := by
          unfold PoolHeap.cacheInsert
          rw [hstash]
          exact hset
        obtain ⟨hsame', hpaired', -⟩ := herase.cacheInsert hcold' hgone hinsert
        obtain ⟨hlast, hlast'⟩ := ih hpaired' hrun
        refine ⟨hlast, fun hf => ?_⟩
        obtain ⟨hsame'', hrest⟩ := hlast' hf
        exact ⟨(hsame.trans (sameHeap_setCache ..)).trans (hsame'.trans hsame''), hrest⟩

/-- Only single slots go through the caches. -/
theorem allocSlots_small {c : SharedChunk} {chunk : Chunk} {i : Nat} {alloc : SmallAlloc}
    (h : c.allocSlots i order seed threadHash = some (chunk, some (.small alloc))) : order = 0 := by
  unfold SharedChunk.allocSlots at h
  by_cases horder : order = 0
  · exact horder
  · rw [if_neg horder] at h
    obtain ⟨⟨chunk', found⟩, -, heq⟩ := Option.map_eq_some_iff.mp h
    cases found with
    | none => cases heq
    | some found => cases heq

/-- The chunks of a pool are asked; the caches stay as they are. -/
theorem scanPool_caches {refs : List Nat} {found : Option ChunkAlloc}
    (h : s.scanPool order seed threadHash refs = some (s', found)) :
    s'.caches = s.caches ∧ ∀ alloc, found = some (.small alloc) → order = 0 := by
  induction refs generalizing s with
  | nil =>
    cases h
    exact ⟨rfl, fun alloc hf => by cases hf⟩
  | cons i rest ih =>
    rw [scanPool] at h
    obtain ⟨c, hc, h⟩ := Option.bind_eq_some_iff.mp h
    obtain ⟨⟨chunk, first⟩, halloc, h⟩ := Option.bind_eq_some_iff.mp h
    cases first with
    | none =>
      obtain ⟨hcaches, hsmall⟩ := ih h
      exact ⟨hcaches, hsmall⟩
    | some alloc =>
      cases h
      refine ⟨rfl, fun alloc' heq => ?_⟩
      cases heq
      exact allocSlots_small halloc

/-- `finish_alloc` gives out the block. -/
theorem finish_some {alloc : ChunkAlloc} {found : Option SlotHandle}
    (hrun : s.finish t address alloc = some (s', found)) : found ≠ none := by
  cases alloc with
  | large handle =>
    cases hrun
    exact Option.some_ne_none _
  | small alloc =>
    obtain ⟨s₁, -, heq⟩ := Option.bind_eq_some_iff.mp hrun
    cases heq
    exact Option.some_ne_none _

theorem Paired.finish (h : s.Paired) {alloc : ChunkAlloc}
    (hcold : ∀ small, alloc = .small small → s.Cold t address ∧
      (s.caches t).others.lookup address = none) {found : Option SlotHandle}
    (hrun : s.finish t address alloc = some (s', found)) : s'.Paired := by
  cases alloc with
  | large handle =>
    cases hrun
    exact h
  | small alloc =>
    obtain ⟨hcold, hlookup⟩ := hcold alloc rfl
    obtain ⟨s₁, hinsert, heq⟩ := Option.bind_eq_some_iff.mp hrun
    cases heq
    exact (h.cacheInsert hcold hlookup hinsert).2.1

end PoolHeap

namespace ListenedHeap

variable {s s' : ListenedHeap} {t address order threadHash : Nat} {seed : Option Nat}
  {provision : Option Provision} {refs : List Nat} {found : Option SlotHandle}

/-! ## Growing -/

theorem notify_heap (s : ListenedHeap) (address : Nat) (info : ChunkInfo) :
    (s.notify address info).heap = s.heap := by
  unfold notify
  split
  · rfl
  · rfl

/-- A new chunk has memory for all its shards. -/
theorem expansion_new (p : Provision) :
    ∃ chunk, Chunk.new p.memory PoolHeap.expansionSize p.parallelism = .ok chunk := by
  have hslots : 8 * superblockSize ≤ PoolHeap.expansionSize / slotSize := by decide
  obtain ⟨chunk, hnew, -⟩ := Chunk.new_spec hslots p.parallelism p.memory
  exact ⟨chunk, hnew⟩

/-- A pool that can grow has grown, although the block does not fit. -/
theorem expand_grows (hlt : refs.length < 2 ^ 16) {p : Provision}
    (hrun : s.expand t address refs order seed threadHash (some p) = some (s', none)) :
    s'.heap.chunks.length = s.heap.chunks.length + 1 := by
  unfold expand at hrun
  obtain ⟨chunk, hnew⟩ := expansion_new p
  simp only [if_pos hlt, hnew] at hrun
  obtain ⟨⟨chunk', alloc⟩, -, hrun⟩ := Option.bind_eq_some_iff.mp hrun
  cases alloc with
  | none =>
    cases hrun
    rw [notify_heap]
    exact List.length_append
  | some alloc =>
    obtain ⟨⟨heap, handle⟩, hfinish, heq⟩ := Option.map_eq_some_iff.mp hrun
    cases heq
    exact absurd rfl (PoolHeap.finish_some hfinish)

/-- A pool that cannot grow stays as it is. -/
theorem expand_stays (hstays : 2 ^ 16 ≤ refs.length ∨ provision = none)
    (hrun : s.expand t address refs order seed threadHash provision = some (s', found)) :
    s' = s := by
  unfold expand at hrun
  split at hrun
  · rename_i hlt
    rcases hstays with hle | rfl
    · omega
    · cases hrun
      rfl
  · cases hrun
    rfl

/-- The caches are in order after the pool has grown. -/
theorem expand_paired (h : s.heap.Paired) (hcold : order = 0 → s.heap.Cold t address ∧
      (s.heap.caches t).others.lookup address = none)
    (hrun : s.expand t address refs order seed threadHash provision = some (s', found)) :
    s'.heap.Paired := by
  unfold expand at hrun
  split at hrun
  · cases provision with
    | none =>
      cases hrun
      exact h
    | some p =>
      obtain ⟨chunk, hnew⟩ := expansion_new p
      simp only [hnew] at hrun
      obtain ⟨⟨chunk', alloc⟩, halloc, hrun⟩ := Option.bind_eq_some_iff.mp hrun
      cases alloc with
      | none =>
        cases hrun
        rw [notify_heap]
        exact h
      | some alloc =>
        obtain ⟨⟨heap, handle⟩, hfinish, heq⟩ := Option.map_eq_some_iff.mp hrun
        cases heq
        have hgrown : PoolHeap.Paired { s.heap with
            chunks := s.heap.chunks ++ [⟨refs.length, p.base, chunk'⟩]
            pools := Function.update s.heap.pools address
              (some (refs ++ [s.heap.chunks.length])) } := h
        refine hgrown.finish (fun small heq => ?_) hfinish
        cases heq
        exact hcold (PoolHeap.allocSlots_small halloc)
  · cases hrun
    exact h

/-! ## Allocation -/

/-- What `alloc_slots` does before the pool grows. -/
inductive Searched (s : ListenedHeap) (t address order : Nat) (seed : Option Nat)
    (threadHash : Nat) (provision : Option Provision) (s' : ListenedHeap)
    (found : Option SlotHandle) : Prop where
  | found : found ≠ none → s'.heap.Paired → Searched s t address order seed threadHash provision s'
      found
  | expand (heap : PoolHeap) (refs : List Nat) : SameHeap s.heap heap → heap.Paired →
      (order = 0 → heap.Cold t address ∧ (heap.caches t).others.lookup address = none) →
      heap.pools address = some refs →
      (s.withHeap (heap, none)).1.expand t address refs order seed threadHash provision =
        some (s', found) → Searched s t address order seed threadHash provision s' found

theorem tryCache_spec (h : s.heap.Paired) {heap : PoolHeap}
    (hrun : s.tryCache t address order = some (heap, found)) :
    heap.Paired ∧ (found = none → SameHeap s.heap heap ∧
      (order = 0 → heap.Cold t address ∧ (heap.caches t).others.lookup address = none)) := by
  unfold tryCache at hrun
  by_cases horder : order = 0
  · rw [if_pos horder] at hrun
    obtain ⟨hpaired, hnone⟩ := h.tryAlloc hrun
    exact ⟨hpaired, fun hf => ⟨(hnone hf).1, fun _ => (hnone hf).2⟩⟩
  · rw [if_neg horder] at hrun
    cases hrun
    exact ⟨h, fun _ => ⟨.refl _, fun hf => absurd hf horder⟩⟩

/-- A chunk of the pool serves the request. -/
theorem served {heap heap' : PoolHeap} {alloc : ChunkAlloc} (h : heap.Paired)
    (hcold : order = 0 → heap.Cold t address ∧ (heap.caches t).others.lookup address = none)
    (hscan : heap.scanPool order seed threadHash refs = some (heap', some alloc))
    (hrun : (heap'.finish t address alloc).map s.withHeap = some (s', found)) :
    found ≠ none ∧ s'.heap.Paired := by
  obtain ⟨⟨last, handle⟩, hfinish, heq⟩ := Option.map_eq_some_iff.mp hrun
  cases heq
  obtain ⟨hcaches, hsmall⟩ := PoolHeap.scanPool_caches hscan
  refine ⟨PoolHeap.finish_some hfinish, PoolHeap.Paired.finish (fun t' => ?_) (fun small heq => ?_)
    hfinish⟩
  · rw [hcaches]
    exact h t'
  · subst heq
    unfold PoolHeap.Cold
    rw [hcaches]
    exact hcold (hsmall small rfl)

theorem searched (h : s.heap.Paired)
    (hrun : s.allocSlots t address order seed threadHash provision = some (s', found)) :
    Searched s t address order seed threadHash provision s' found := by
  unfold allocSlots at hrun
  obtain ⟨⟨heap, first⟩, htry, hrun⟩ := Option.bind_eq_some_iff.mp hrun
  obtain ⟨hpaired, hnone⟩ := tryCache_spec h htry
  cases first with
  | some handle =>
    cases hrun
    exact .found (Option.some_ne_none _) hpaired
  | none =>
    obtain ⟨hsame, hcold⟩ := hnone rfl
    obtain ⟨refs, hrefs, hrun₁⟩ := Option.bind_eq_some_iff.mp hrun
    obtain ⟨⟨heap₁, first⟩, hscan, hrun₂⟩ := Option.bind_eq_some_iff.mp hrun₁
    cases first with
    | some alloc =>
      obtain ⟨hfound, hlast⟩ := served hpaired hcold hscan hrun₂
      exact .found hfound hlast
    | none =>
      obtain rfl := PoolHeap.scanPool_none hscan
      obtain ⟨⟨heap₂, second⟩, hscan₂, hrun₃⟩ := Option.bind_eq_some_iff.mp hrun₂
      cases second with
      | some alloc =>
        obtain ⟨hfound, hlast⟩ := served hpaired hcold hscan₂ hrun₃
        exact .found hfound hlast
      | none =>
        obtain rfl := PoolHeap.scanPool_none hscan₂
        exact .expand heap₂ refs hsame hpaired hcold hrefs hrun₃

/-! ## Runs -/

theorem paired_allocSlots (h : s.heap.Paired)
    (hrun : s.allocSlots t address order seed threadHash provision = some (s', found)) :
    s'.heap.Paired := by
  cases searched h hrun with
  | found _ hpaired => exact hpaired
  | expand heap refs _ hpaired hcold _ hrun => exact expand_paired (by exact hpaired) hcold hrun

theorem dropEntry_caches {heap heap' : PoolHeap} {entry : LocalCacheEntry}
    (h : heap.dropEntry entry = some heap') : heap'.caches = heap.caches := by
  obtain ⟨c, -, h⟩ := Option.bind_eq_some_iff.mp h
  obtain ⟨chunk, -, heq⟩ := Option.bind_eq_some_iff.mp h
  cases heq
  rfl

theorem dropEntries_caches {entries : List LocalCacheEntry} {heap heap' : PoolHeap}
    (h : PoolHeap.dropEntries entries heap = some heap') : heap'.caches = heap.caches := by
  induction entries generalizing heap with
  | nil =>
    cases h
    rfl
  | cons entry entries ih =>
    obtain ⟨heap₁, hdrop, h⟩ := Option.bind_eq_some_iff.mp h
    exact (ih h).trans (dropEntry_caches hdrop)

theorem createPool_caches {heap heap' : PoolHeap} {totalMemory : Nat}
    (h : heap.createPool address totalMemory provision = some heap') :
    heap'.caches = heap.caches := by
  unfold PoolHeap.createPool at h
  split at h
  · cases h
    rfl
  · split at h
    · cases h
      rfl
    · split at h
      · cases h
        rfl
      · cases h
      · cases h
        rfl

theorem deallocSlots_caches {chunkId slot : Nat}
    (h : s.deallocSlots address chunkId slot order = some s') :
    s'.heap.caches = s.heap.caches := by
  obtain ⟨refs, -, h⟩ := Option.bind_eq_some_iff.mp h
  obtain ⟨i, -, h⟩ := Option.bind_eq_some_iff.mp h
  obtain ⟨c, -, h⟩ := Option.bind_eq_some_iff.mp h
  obtain ⟨chunk, -, heq⟩ := Option.bind_eq_some_iff.mp h
  cases heq
  rfl

/-- The caches are in order in every state. -/
theorem paired_step (h : s.heap.Paired) {e : Event} (hs : s.step e = some s') :
    s'.heap.Paired := by
  have hkeep : ∀ {s' : ListenedHeap}, s'.heap.caches = s.heap.caches → s'.heap.Paired := by
    intro s' hcaches t'
    rw [hcaches]
    exact h t'
  cases e with
  | create address totalMemory provision =>
    obtain ⟨-, hs⟩ := Option.ite_none_right_eq_some.mp hs
    obtain ⟨heap, hcreate, rfl⟩ := Option.map_eq_some_iff.mp hs
    exact hkeep (createPool_caches hcreate)
  | drop address =>
    obtain ⟨-, heq⟩ := Option.ite_none_left_eq_some.mp hs
    cases heq
    exact hkeep rfl
  | listen address =>
    obtain ⟨-, heq⟩ := Option.ite_none_left_eq_some.mp hs
    cases heq
    exact hkeep rfl
  | alloc t address order seed threadHash provision =>
    obtain ⟨-, hs⟩ := Option.ite_none_left_eq_some.mp hs
    obtain ⟨⟨s₁, found⟩, hrun, rfl⟩ := Option.map_eq_some_iff.mp hs
    have hpaired := paired_allocSlots h hrun
    exact hpaired
  | free block =>
    obtain ⟨address, order, handle⟩ := block
    obtain ⟨-, hs⟩ := Option.ite_none_right_eq_some.mp hs
    obtain ⟨s₁, hrun, rfl⟩ := Option.map_eq_some_iff.mp hs
    have hcaches := deallocSlots_caches hrun
    exact hkeep hcaches
  | exit t =>
    obtain ⟨heap, hrun, rfl⟩ := Option.map_eq_some_iff.mp hs
    have hcaches := dropEntries_caches hrun
    intro t'
    rw [hcaches]
    exact h.setCache LocalCache.Paired.new t'

/-- The caches of a heap with listeners. -/
def Orderly (s : ListenedHeap) : Prop := s.heap.Paired

theorem paired_of_run (h : Run ListenedStep Always (· = ListenedHeap.new) s) : s.heap.Paired := by
  have hinv : s.Orderly := by
    refine h.invariant (fun s hs => ?_) fun _ _ _ hinv _ hs => paired_step hinv hs
    rw [hs]
    exact fun _ => LocalCache.Paired.new
  exact hinv

/-- The pools have the chunks they had, these have the same blocks, and no listener was told of
anything. -/
structure Unchanged (s s' : ListenedHeap) : Prop where
  heap : SameHeap s.heap s'.heap
  notified : s'.notified = s.notified

/-- An allocation that fails leaves everything as it was exactly if the pool could not grow. -/
theorem failed_alloc_unchanged (s s' : ListenedHeap)
    (h : Run ListenedStep Always (· = ListenedHeap.new) s) (t address order threadHash : Nat)
    (seed : Option Nat) (provision : Option Provision) (refs : List Nat)
    (hpool : s.heap.pools address = some refs)
    (hfails : s.allocSlots t address order seed threadHash provision = some (s', none)) :
    Unchanged s s' ↔ 2 ^ 16 ≤ refs.length ∨ provision = none := by
  cases searched (paired_of_run h) hfails with
  | found hfound _ => exact absurd rfl hfound
  | expand heap refs' hsame _ _ hrefs hrun =>
    have hrefs' : refs' = refs := by
      rw [hsame.pools, hpool] at hrefs
      exact (Option.some.inj hrefs).symm
    subst hrefs'
    constructor
    · intro hunchanged
      by_contra hgrows
      obtain ⟨hlt, hmemory⟩ := not_or.mp hgrows
      obtain ⟨p, rfl⟩ := Option.ne_none_iff_exists'.mp hmemory
      have hlength := expand_grows (Nat.lt_of_not_le hlt) hrun
      have hsame' := hunchanged.heap.length
      have hbefore := hsame.length
      simp only [withHeap] at hlength
      omega
    · intro hstays
      rw [expand_stays hstays hrun]
      exact ⟨hsame, rfl⟩

/-- The smallest pool, with a listener. -/
def small : List Event :=
  [.create 4096 minThreadMemory (PoolHeap.provide 0), .listen 4096]

def smallHeap : ListenedHeap :=
  (replay ListenedHeap.step (fun _ _ => true) .new small).get (by decide +kernel)

theorem run_smallHeap : Run ListenedStep Always (· = ListenedHeap.new) smallHeap := by
  have hreplay : replay ListenedHeap.step (fun _ _ => true) .new small = some smallHeap :=
    (Option.some_get _).symm
  have hstart : Run ListenedStep Always (· = ListenedHeap.new) .new := .start rfl
  exact hstart.replay (fun _ _ _ h => h) (fun _ _ _ => trivial) hreplay

/-- What is left after a request of `2 ^ 11` slots. -/
def afterLarge (provision : Option Provision) : Option (ListenedHeap × Option SlotHandle) :=
  smallHeap.allocSlots 0 4096 11 (some 0) 0 provision

/-- Without memory for another chunk. -/
def refused : ListenedHeap × Option SlotHandle := (afterLarge none).get (by decide +kernel)

theorem failed_alloc_unchanged_refused : Unchanged smallHeap refused.1 := by
  have hrun : afterLarge none = some refused := (Option.some_get _).symm
  have hnone : refused.2 = none := by decide +kernel
  have hpair : refused = (refused.1, none) := Prod.ext rfl hnone
  rw [hpair] at hrun
  exact (failed_alloc_unchanged smallHeap refused.1 run_smallHeap 0 4096 11 0 (some 0) none [0]
    (by decide +kernel) hrun).mpr (.inr rfl)

/-- With memory for another chunk. -/
def grown : ListenedHeap × Option SlotHandle :=
  (afterLarge (PoolHeap.provide (2 ^ 30))).get (by decide +kernel)

/-- The request fails, and the pool has one more chunk. -/
theorem failed_alloc_grows :
    ¬ ∀ (s s' : ListenedHeap) (t address order threadHash : Nat) (seed : Option Nat)
      (provision : Option Provision), Run ListenedStep Always (· = ListenedHeap.new) s →
      s.allocSlots t address order seed threadHash provision = some (s', none) →
      Unchanged s s' := by
  intro hclaim
  have hrun : afterLarge (PoolHeap.provide (2 ^ 30)) = some grown := (Option.some_get _).symm
  have hnone : grown.2 = none := by decide +kernel
  have hpair : grown = (grown.1, none) := Prod.ext rfl hnone
  rw [hpair] at hrun
  have hunchanged := hclaim smallHeap grown.1 0 4096 11 0 (some 0) _ run_smallHeap hrun
  have hlength : grown.1.heap.chunks.length ≠ smallHeap.heap.chunks.length := by decide +kernel
  exact hlength hunchanged.heap.length

end ListenedHeap

end Veloq.Heap
