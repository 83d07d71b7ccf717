import Veloq.Foundation.Tenancy
import Veloq.Heap.PoolRuns
set_option autoImplicit false

/-!
# Heap: who holds which superblock

A superblock in use by `alloc_one` is active, and a place of a cache (a thread and the address of
a pool) holds its entry.  Seen from there a heap is a `Tenancy` of its superblocks: an entry is
made when a superblock is carved, and retired by `LocalCacheEntry::drop`.  The slots that are
handed out are memory of their holders, who write to them.
-/

namespace Veloq.Heap

open Veloq.Foundation

/-! ## Active superblocks -/

/-- `is_active` of a superblock. -/
def Chunk.activeAt (c : Chunk) (superblock : Nat) : Bool :=
  (c.superblocks[superblock]?).any SuperblockState.isActive

/-- The same for a chunk and a superblock of it. -/
def activeIn (chunks : List SharedChunk) (x : Nat × Nat) : Bool :=
  (chunks[x.1]?).any fun c => c.chunk.activeAt x.2

/-- The superblock that an entry stands for. -/
def LocalCacheEntry.superblock (entry : LocalCacheEntry) : Nat × Nat := (entry.chunk, entry.sbIdx)

theorem SuperblockState.allocOne_isActive (state : SuperblockState) :
    state.allocOne.1.isActive = state.isActive := by
  unfold SuperblockState.allocOne
  split <;> rfl

namespace Chunk

variable {c c' : Chunk} {superblock index : Nat} {state state' : SuperblockState}

theorem activeAt_congr (h : c'.superblocks = c.superblocks) : c'.activeAt = c.activeAt := by
  funext j
  unfold activeAt
  rw [h]

/-- One state is replaced. -/
theorem activeAt_set (h : c'.superblocks = c.superblocks.set superblock state')
    (hlt : superblock < c.superblocks.length) :
    c'.activeAt = Function.update c.activeAt superblock state'.isActive := by
  funext j
  unfold activeAt
  rw [h]
  rcases Classical.em (j = superblock) with rfl | hne
  · rw [Function.update_self, List.getElem?_set_self hlt]
    rfl
  · rw [Function.update_of_ne hne, List.getElem?_set_ne (Ne.symm hne)]

/-- A state is replaced by one with the same flag. -/
theorem activeAt_restate (h : c'.superblocks = c.superblocks.set superblock state')
    (hstate : c.superblocks[superblock]? = some state) (hsame : state'.isActive = state.isActive) :
    c'.activeAt = c.activeAt := by
  obtain ⟨hlt, -⟩ := List.getElem?_eq_some_iff.mp hstate
  rw [activeAt_set h hlt, hsame]
  refine Function.update_eq_self_iff.mpr ?_
  unfold activeAt
  rw [hstate]
  rfl

theorem activeAt_allocOne {offset : Option Nat} (h : c.allocOne superblock = some (c', offset)) :
    c'.activeAt = c.activeAt := by
  unfold allocOne at h
  split at h
  · cases h
  · rename_i state hstate
    cases h
    exact activeAt_restate rfl hstate (SuperblockState.allocOne_isActive state)

theorem activeAt_deallocSlots (h : c.deallocSlots index 0 = some c') :
    c'.activeAt = c.activeAt := by
  unfold deallocSlots at h
  rw [if_pos rfl] at h
  split at h
  · cases h
    rfl
  · rename_i state hstate
    dsimp only at h
    split at h
    · exact activeAt_restate (deallocGlobal_superblocks h) hstate rfl
    · cases h
      exact activeAt_restate rfl hstate rfl

theorem activeAt_retire (h : c.retire superblock = some c') :
    c'.activeAt = Function.update c.activeAt superblock false := by
  unfold retire at h
  split at h
  · cases h
  · rename_i state hstate
    obtain ⟨hlt, -⟩ := List.getElem?_eq_some_iff.mp hstate
    dsimp only at h
    split at h
    · exact activeAt_set (deallocGlobal_superblocks h) hlt
    · cases h
      refine (activeAt_set rfl hlt).trans ?_
      rfl

theorem scan_superblocks {order : Nat} {visit : List Nat} {found : Option (Nat × Nat)}
    (h : c.scan order visit = some (c', found)) : c'.superblocks = c.superblocks := by
  induction visit generalizing c with
  | nil =>
    cases h
    rfl
  | cons i rest ih =>
    unfold scan at h
    split at h
    · cases h
    · split at h
      · cases h
      · cases h
        rfl
      · exact (ih h).trans rfl

theorem allocGlobal_superblocks {order threadHash : Nat} {seed : Option Nat}
    {found : Option (Nat × Nat)} (h : c.allocGlobal order seed threadHash = some (c', found)) :
    c'.superblocks = c.superblocks := by
  unfold allocGlobal at h
  dsimp only at h
  split at h
  · cases h
  · rename_i hscan
    cases h
    exact scan_superblocks hscan
  · rename_i hscan
    exact (scan_superblocks h).trans (scan_superblocks hscan)

/-- A superblock is active from `init` on. -/
theorem activeAt_carve {shard block : Nat} {a : Allocation} {e : CacheEntry}
    (h : c.carve shard block = some (c', some (a, e))) :
    c'.activeAt = Function.update c.activeAt e.superblock true := by
  unfold carve at h
  dsimp only at h
  split at h
  · rename_i hlt
    split at h
    · cases h
    · cases h
    · rename_i hone
      split at h
      · cases h
        refine (activeAt_allocOne hone).trans ((activeAt_set rfl hlt).trans ?_)
        rfl
      · cases h
  · cases h

theorem activeAt_allocSmall {seed : Option Nat} {threadHash : Nat} {a : Allocation}
    {e : CacheEntry} (h : c.allocSmall seed threadHash = some (c', some (a, e))) :
    c'.activeAt = Function.update c.activeAt e.superblock true := by
  unfold allocSmall at h
  split at h
  · cases h
  · cases h
  · rename_i hglobal
    rw [activeAt_carve h, activeAt_congr (allocGlobal_superblocks hglobal)]

theorem activeAt_new {memory : Nat → FreeNode} {size parallelism : Nat}
    (h : Chunk.new memory size parallelism = .ok c) (j : Nat) : c.activeAt j = false := by
  unfold Chunk.new at h
  dsimp only at h
  split at h
  · cases h
  · split at h
    · cases h
    · cases h
      unfold activeAt
      dsimp only
      rw [List.getElem?_replicate]
      split <;> rfl

end Chunk

variable {chunks : List SharedChunk} {i : Nat} {c : SharedChunk} {chunk : Chunk}

/-- A chunk changes, and with it what is active in it. -/
theorem activeIn_setAt (hc : chunks[i]? = some c) (x : Nat × Nat) :
    activeIn (setAt chunks i chunk) x =
      if x.1 = i then chunk.activeAt x.2 else activeIn chunks x := by
  unfold activeIn
  split
  case isTrue heq =>
    rw [heq, setAt_self hc]
    rfl
  case isFalse hne => rw [setAt_of_ne hne]

theorem activeIn_same (hc : chunks[i]? = some c) (h : chunk.activeAt = c.chunk.activeAt) :
    activeIn (setAt chunks i chunk) = activeIn chunks := by
  funext x
  rw [activeIn_setAt hc, h]
  split
  case isTrue heq =>
    unfold activeIn
    rw [heq, hc]
    rfl
  case isFalse => rfl

theorem activeIn_update (hc : chunks[i]? = some c) {superblock : Nat} {value : Bool}
    (h : chunk.activeAt = Function.update c.chunk.activeAt superblock value) :
    activeIn (setAt chunks i chunk) =
      Function.update (activeIn chunks) (i, superblock) value := by
  funext x
  rw [activeIn_setAt hc, h]
  rcases Classical.em (x = (i, superblock)) with rfl | hne
  · rw [if_pos rfl, Function.update_self, Function.update_self]
  · rw [Function.update_of_ne hne]
    split
    case isTrue heq =>
      rw [Function.update_of_ne fun hx => hne (Prod.ext heq hx)]
      unfold activeIn
      rw [heq, hc]
      rfl
    case isFalse => rfl

/-- Nothing is active in a new chunk. -/
theorem activeIn_concat (h : ∀ j, c.chunk.activeAt j = false) :
    activeIn (chunks ++ [c]) = activeIn chunks := by
  funext x
  unfold activeIn
  rcases Nat.lt_trichotomy x.1 chunks.length with hlt | heq | hgt
  · rw [List.getElem?_append_left hlt]
  · rw [heq, List.getElem?_concat_length, List.getElem?_eq_none (Nat.le_refl _)]
    exact h x.2
  · rw [List.getElem?_eq_none (by rw [List.length_append]; exact hgt),
      List.getElem?_eq_none (Nat.le_of_lt hgt)]

/-! ## The heap as a tenancy -/

/-- The places are the cache entries, by thread and address. -/
structure Follows (l : Tenancy (Nat × Nat) (Nat × Nat)) (chunks : List SharedChunk)
    (held : Nat → Nat → Option LocalCacheEntry) : Prop where
  held : ∀ t key, l.held (t, key) = (held t key).map LocalCacheEntry.superblock
  active : l.active = activeIn chunks

/-- The ledger can be carried on from one heap to the other. -/
def Passes (chunks : List SharedChunk) (held : Nat → Nat → Option LocalCacheEntry)
    (chunks' : List SharedChunk) (held' : Nat → Nat → Option LocalCacheEntry) : Prop :=
  ∀ l, l.Sound → Follows l chunks held → ∃ l', l.Moves l' ∧ Follows l' chunks' held'

variable {chunks' chunks'' : List SharedChunk} {t key : Nat} {entry : LocalCacheEntry}
  {held held' held'' : Nat → Nat → Option LocalCacheEntry}

theorem Passes.refl (chunks : List SharedChunk) (held : Nat → Nat → Option LocalCacheEntry) :
    Passes chunks held chunks held :=
  fun l _ h => ⟨l, .refl l, h⟩

theorem Passes.trans (h : Passes chunks held chunks' held')
    (h' : Passes chunks' held' chunks'' held'') : Passes chunks held chunks'' held'' := by
  intro l hl hfollows
  obtain ⟨l', hmoves, hfollows'⟩ := h l hl hfollows
  obtain ⟨l'', hmoves', hfollows''⟩ := h' l' (hl.moves hmoves) hfollows'
  exact ⟨l'', hmoves.trans hmoves', hfollows''⟩

/-- No flag changes. -/
theorem Passes.quiet (h : activeIn chunks' = activeIn chunks) : Passes chunks held chunks' held :=
  fun l _ hfollows => ⟨l, .refl l, hfollows.held, hfollows.active.trans h.symm⟩

/-- What a place holds, seen as a tenancy. -/
theorem superblock_hold {f : Nat × Nat → Option (Nat × Nat)}
    (hl : ∀ t key, (held t key).map LocalCacheEntry.superblock =
      f (t, key)) (value : Option LocalCacheEntry) (t' key' : Nat) :
    (hold held t key value t' key').map LocalCacheEntry.superblock =
      Function.update f (t, key) (value.map LocalCacheEntry.superblock) (t', key') := by
  rcases Classical.em (t' = t ∧ key' = key) with ⟨rfl, rfl⟩ | hne
  · rw [hold_self, Function.update_self]
  · rw [hold_of_ne hne, Function.update_of_ne fun heq => hne (Prod.mk.inj heq), hl]

/-- An entry is dropped. -/
theorem Passes.retire (hheld : held t key = some entry) (hc : chunks[entry.chunk]? = some c)
    (hretire : c.chunk.retire entry.sbIdx = some chunk) :
    Passes chunks held (setAt chunks entry.chunk chunk) (hold held t key none) := by
  intro l _ hfollows
  have hplace : l.held (t, key) = some entry.superblock := by
    rw [hfollows.held, hheld]
    rfl
  refine ⟨l.retire (t, key) entry.superblock, .of_retire hplace, fun t' key' => ?_, ?_⟩
  · exact (superblock_hold (fun t key => (hfollows.held t key).symm) none t' key').symm
  · show Function.update l.active entry.superblock false = _
    rw [hfollows.active, activeIn_update hc (Chunk.activeAt_retire hretire)]
    rfl

/-- A superblock is carved, and a place that is free gets its entry. -/
theorem Passes.carve {seed : Option Nat} {threadHash : Nat} {a : Allocation} {e : CacheEntry}
    (hnone : held t key = none) (hc : chunks[i]? = some c)
    (hsmall : c.chunk.allocSmall seed threadHash = some (chunk, some (a, e)))
    (hfresh : ∀ t' key' entry', held t' key' = some entry' →
      entry'.superblock ≠ (i, e.superblock)) :
    Passes chunks held (setAt chunks i chunk) (hold held t key (some ⟨i, e.superblock, c.id⟩)) := by
  intro l hl hfollows
  have hplace : l.held (t, key) = none := by
    rw [hfollows.held, hnone]
    rfl
  have hinactive : l.active (i, e.superblock) = false := by
    rw [Bool.eq_false_iff]
    intro hactive
    obtain ⟨⟨t', key'⟩, hx⟩ := (hl.active _).mp hactive
    rw [hfollows.held] at hx
    obtain ⟨entry', hentry', heq⟩ := Option.map_eq_some_iff.mp hx
    exact hfresh t' key' entry' hentry' heq
  refine ⟨l.acquire (t, key) (i, e.superblock), .of_acquire hplace hinactive, fun t' key' => ?_, ?_⟩
  · exact (superblock_hold (fun t key => (hfollows.held t key).symm)
      (some ⟨i, e.superblock, c.id⟩) t' key').symm
  · show Function.update l.active (i, e.superblock) true = _
    rw [hfollows.active, activeIn_update hc (Chunk.activeAt_allocSmall hsmall)]

/-! ## Events -/

namespace PoolHeap

/-- The holder of a slot writes to it. -/
def writeSlot (s : PoolHeap) (h : Nat × SlotHandle) (node : FreeNode) : Option PoolHeap :=
  if h ∈ s.handles then do
    let refs ← s.pools h.1
    let i ← refs[h.2.chunkId]?
    let c ← s.chunks[i]?
    return s.setChunk i (c.chunk.write h.2.slot node)
  else none

/-- An operation, or a write by the holder of a slot. -/
inductive CacheEvent where
  | op (e : Event)
  | write (h : Nat × SlotHandle) (node : FreeNode)

def cacheStep (s : PoolHeap) : CacheEvent → Option PoolHeap
  | .op e => s.step e
  | .write h node => s.writeSlot h node

/-- Pools stay alive, and are created with shards of whole superblocks. -/
def Whole (_ : PoolHeap) : CacheEvent → Prop
  | .op (.drop _) => False
  | .op (.create _ totalMemory provision) => ∀ p, provision = some p → superblockSize ∣
      totalMemory / slotSize / Chunk.shardCount (totalMemory / slotSize) p.parallelism
  | _ => True

end PoolHeap

/-- The steps as a relation. -/
def CacheStep (s : PoolHeap) (e : PoolHeap.CacheEvent) (s' : PoolHeap) : Prop :=
  s.cacheStep e = some s'

end Veloq.Heap
