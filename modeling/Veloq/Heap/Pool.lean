import Veloq.Foundation.Run
import Veloq.Heap.ChunkGeometry
import Mathlib.Data.List.AList
import Mathlib.Logic.Function.Basic
set_option autoImplicit false

/-!
# Heap: pools and the caches of the threads

`GlobalSlotPool` of `heap/pool.rs` and `LocalCache` of `heap/cache.rs`, for single slots.
A thread keeps the superblocks it allocates from in its cache, under the address of the
pool; an entry holds its chunk alive, also after the pool is gone.

Every operation runs as a whole.  As for chunks, `none` is a panic.  A chunk is shared, so
it is referred to by its number; a pool is referred to by its address.
-/

namespace Veloq.Heap

open Veloq.Foundation

/-- A `Chunk` behind its `Arc`, with its id and the address of its memory. -/
structure SharedChunk where
  id : Nat
  base : Nat
  chunk : Chunk

/-- `LocalCacheEntry`. -/
structure LocalCacheEntry where
  chunk : Nat
  sbIdx : Nat
  chunkId : Nat
  deriving DecidableEq, Repr

/-- `HotSegment`.  `sb_state` points to a superblock of a chunk; zero is the null
pointer of `chunk_base`. -/
structure HotSegment where
  poolId : Nat
  sbState : Option (Nat × Nat)
  chunkBase : Nat
  sbIdx : Nat
  chunkId : Nat
  owner : Option LocalCacheEntry

def HotSegment.new : HotSegment :=
  { poolId := 0, sbState := none, chunkBase := 0, sbIdx := 0, chunkId := 0, owner := none }

/-- `LocalCache`. -/
structure LocalCache where
  hot : HotSegment
  others : AList fun _ : Nat => LocalCacheEntry

def LocalCache.new : LocalCache := { hot := HotSegment.new, others := ∅ }

/-- What `alloc_slots` returns: the id of the chunk, the slot and the pointer. -/
structure SlotHandle where
  chunkId : Nat
  slot : Nat
  ptr : Nat
  deriving DecidableEq, Repr

instance : LawfulBEq (Nat × SlotHandle) := inferInstance

/-- `SmallAlloc`. -/
structure SmallAlloc where
  chunk : Nat
  chunkId : Nat
  sbIdx : Nat
  slotIdx : Nat
  ptr : Nat

/-- What the system provides for a new chunk: memory at an address, and the number of
cores that `available_parallelism` reports. -/
structure Provision where
  base : Nat
  memory : Nat → FreeNode
  parallelism : Nat

/-- All pools, threads and chunks.  `handles` are the slots that were allocated from a
pool that still exists and were not freed. -/
structure PoolHeap where
  chunks : List SharedChunk
  pools : Nat → Option (List Nat)
  caches : Nat → LocalCache
  handles : List (Nat × SlotHandle)

namespace PoolHeap

def new : PoolHeap :=
  { chunks := [], pools := fun _ => none, caches := fun _ => LocalCache.new, handles := [] }

def setChunk (s : PoolHeap) (i : Nat) (chunk : Chunk) : PoolHeap :=
  { s with chunks := s.chunks.modify i fun c => { c with chunk := chunk } }

def setCache (s : PoolHeap) (t : Nat) (cache : LocalCache) : PoolHeap :=
  { s with caches := Function.update s.caches t cache }

def setHot (s : PoolHeap) (t : Nat) (hot : HotSegment) : PoolHeap :=
  s.setCache t { s.caches t with hot := hot }

/-- `LocalCacheEntry::drop`. -/
def dropEntry (s : PoolHeap) (entry : LocalCacheEntry) : Option PoolHeap := do
  let c ← s.chunks[entry.chunk]?
  let chunk ← c.chunk.retire entry.sbIdx
  return s.setChunk entry.chunk chunk

/-- The drop of a value that may hold an entry. -/
def dropOwner (s : PoolHeap) : Option LocalCacheEntry → Option PoolHeap
  | none => some s
  | some entry => s.dropEntry entry

/-! ## The cache of a thread -/

/-- `HotSegment::set`.  The owner that is replaced is dropped. -/
def hotSet (s : PoolHeap) (t poolId : Nat) (entry : LocalCacheEntry) : Option PoolHeap := do
  let c ← s.chunks[entry.chunk]?
  let _ ← c.chunk.superblocks[entry.sbIdx]?
  let old := (s.caches t).hot.owner
  let s := s.setHot t
    { poolId := poolId
      sbState := some (entry.chunk, entry.sbIdx)
      chunkBase := c.base
      sbIdx := entry.sbIdx
      chunkId := entry.chunkId
      owner := some entry }
  s.dropOwner old

/-- `HotSegment::clear`. -/
def hotClear (s : PoolHeap) (t : Nat) : Option PoolHeap :=
  let hot := (s.caches t).hot
  (s.setHot t { hot with sbState := none, chunkBase := 0, owner := none }).dropOwner hot.owner

/-- The hot entry, if there is one, moves to `others`; what it replaces there is
dropped. -/
def stashHot (s : PoolHeap) (t : Nat) : Option PoolHeap :=
  let cache := s.caches t
  match cache.hot.owner with
  | none => some s
  | some entry =>
      let s := s.setCache t
        { hot := { cache.hot with owner := none }
          others := cache.others.insert cache.hot.poolId entry }
      s.dropOwner (cache.others.lookup cache.hot.poolId)

/-- The fast path of `try_alloc`.  A full superblock is given up. -/
def tryHot (s : PoolHeap) (t poolId : Nat) : Option (PoolHeap × Option SlotHandle) :=
  let hot := (s.caches t).hot
  match hot.sbState with
  | none => some (s, none)
  | some (i, superblock) =>
      if hot.poolId = poolId then do
        let c ← s.chunks[i]?
        let (chunk, offset) ← c.chunk.allocOne superblock
        let s := s.setChunk i chunk
        match offset with
        | some offset =>
            let slot := Chunk.fromSuperblockOffset hot.sbIdx offset
            return (s, some ⟨hot.chunkId, slot, hot.chunkBase + slot * slotSize⟩)
        | none =>
            let s ← s.hotClear t
            return (s, none)
      else
        some (s, none)

/-- `try_alloc` and `try_alloc_slow`, which call each other: an entry of `others` becomes
hot and is tried again.  In the runs below the second call is the last one. -/
def tryAlloc : Nat → PoolHeap → Nat → Nat → Option (PoolHeap × Option SlotHandle)
  | 0, _, _, _ => none
  | depth + 1, s, t, poolId => do
      let (s, found) ← s.tryHot t poolId
      match found with
      | some handle => return (s, some handle)
      | none =>
          let cache := s.caches t
          match cache.others.lookup poolId with
          | none => return (s, none)
          | some entry =>
              let s := s.setCache t { cache with others := cache.others.erase poolId }
              let s ← s.stashHot t
              let s ← s.hotSet t poolId entry
              tryAlloc depth s t poolId

/-- `LocalCache::insert`. -/
def cacheInsert (s : PoolHeap) (t poolId : Nat) (entry : LocalCacheEntry) : Option PoolHeap := do
  let s ← s.stashHot t
  s.hotSet t poolId entry

/-! ## Pools -/

/-- `EXPANSION_SIZE`. -/
def expansionSize : Nat := 64 * 1024 * 1024

/-- `Chunk::alloc_slots` of one slot on the chunks of a pool, up to the first that has
one. -/
def scanChunks (seed : Option Nat) (threadHash : Nat) :
    PoolHeap → List Nat → Option (PoolHeap × Option SmallAlloc)
  | s, [] => some (s, none)
  | s, i :: rest => do
      let c ← s.chunks[i]?
      let (chunk, found) ← c.chunk.allocSmall seed threadHash
      let s := s.setChunk i chunk
      match found with
      | some (a, e) =>
          return (s, some ⟨i, c.id, e.superblock, a.index, c.base + a.index * slotSize⟩)
      | none => scanChunks seed threadHash s rest

/-- `finish_alloc` of a single slot. -/
def finishAlloc (s : PoolHeap) (t address : Nat) (alloc : SmallAlloc) :
    Option (PoolHeap × Option SlotHandle) := do
  let s ← s.cacheInsert t address ⟨alloc.chunk, alloc.sbIdx, alloc.chunkId⟩
  return (s, some ⟨alloc.chunkId, alloc.slotIdx, alloc.ptr⟩)

/-- The pool grows by a chunk and takes the slot from it.  Ids of chunks are 16 bits wide;
the system may have no memory. -/
def expand (s : PoolHeap) (t address : Nat) (refs : List Nat) (seed : Option Nat)
    (threadHash : Nat) (provision : Option Provision) : Option (PoolHeap × Option SlotHandle) :=
  if refs.length < 2 ^ 16 then
    match provision with
    | none => some (s, none)
    | some p =>
        match Chunk.new p.memory expansionSize p.parallelism with
        | .error .chunkTooSmall => some (s, none)
        | .error .panicked => none
        | .ok chunk => do
            let (chunk, found) ← chunk.allocSmall seed threadHash
            let i := s.chunks.length
            let s := { s with
              chunks := s.chunks ++ [⟨refs.length, p.base, chunk⟩]
              pools := Function.update s.pools address (some (refs ++ [i])) }
            match found with
            | some (a, e) =>
                s.finishAlloc t address
                  ⟨i, refs.length, e.superblock, a.index, p.base + a.index * slotSize⟩
            | none => return (s, none)
  else
    some (s, none)

/-- `GlobalSlotPool::alloc_slots` of one slot, called by thread `t`. -/
def allocSlots (s : PoolHeap) (t address : Nat) (seed : Option Nat) (threadHash : Nat)
    (provision : Option Provision) : Option (PoolHeap × Option SlotHandle) := do
  let (s, found) ← s.tryAlloc 2 t address
  match found with
  | some handle => return (s, some handle)
  | none =>
      let refs ← s.pools address
      let (s, found) ← scanChunks seed threadHash s refs
      match found with
      | some alloc => s.finishAlloc t address alloc
      | none =>
          let (s, found) ← scanChunks seed threadHash s refs
          match found with
          | some alloc => s.finishAlloc t address alloc
          | none => s.expand t address refs seed threadHash provision

/-- `GlobalSlotPool::dealloc_slots` of one slot. -/
def deallocSlots (s : PoolHeap) (address chunkId slot : Nat) : Option PoolHeap := do
  let refs ← s.pools address
  let i ← refs[chunkId]?
  let c ← s.chunks[i]?
  let chunk ← c.chunk.deallocSlots slot 0
  return s.setChunk i chunk

/-- `GlobalSlotPool::new`; the pool comes to lie at `address`. -/
def createPool (s : PoolHeap) (address totalMemory : Nat) (provision : Option Provision) :
    Option PoolHeap :=
  if totalMemory < minThreadMemory ∨ ¬ slotSize ∣ totalMemory then
    some s
  else
    match provision with
    | none => some s
    | some p =>
        match Chunk.new p.memory totalMemory p.parallelism with
        | .error .chunkTooSmall => some s
        | .error .panicked => none
        | .ok chunk => some { s with
            chunks := s.chunks ++ [⟨0, p.base, chunk⟩]
            pools := Function.update s.pools address (some [s.chunks.length]) }

/-- The drop of a pool.  Its slots can no longer be freed through it. -/
def dropPool (s : PoolHeap) (address : Nat) : PoolHeap :=
  { s with
    pools := Function.update s.pools address none
    handles := s.handles.filter fun h => h.1 ≠ address }

/-- The drop of some entries. -/
def dropEntries : List LocalCacheEntry → PoolHeap → Option PoolHeap
  | [], s => some s
  | entry :: entries, s => (s.dropEntry entry).bind (dropEntries entries)

/-- A thread ends, and its cache with it. -/
def exitThread (s : PoolHeap) (t : Nat) : Option PoolHeap :=
  let cache := s.caches t
  dropEntries (cache.hot.owner.toList ++ cache.others.entries.map Sigma.snd)
    (s.setCache t LocalCache.new)

/-! ## Runs -/

/-- What happens to pools and threads. -/
inductive Event where
  | create (address totalMemory : Nat) (provision : Option Provision)
  | drop (address : Nat)
  | alloc (t address : Nat) (seed : Option Nat) (threadHash : Nat) (provision : Option Provision)
  | free (h : Nat × SlotHandle)
  | exit (t : Nat)

/-- One whole operation.  A pool is created where none is, and dropped or used where one
is; a slot is freed through its pool by whoever was given it. -/
def step (s : PoolHeap) : Event → Option PoolHeap
  | .create address totalMemory provision =>
      if s.pools address = none then s.createPool address totalMemory provision else none
  | .drop address => if s.pools address = none then none else some (s.dropPool address)
  | .alloc t address seed threadHash provision =>
      if s.pools address = none then none
      else (s.allocSlots t address seed threadHash provision).map fun r =>
        { r.1 with handles := (r.2.map fun h => (address, h)).toList ++ r.1.handles }
  | .free h =>
      if h ∈ s.handles then
        (s.deallocSlots h.1 h.2.chunkId h.2.slot).map fun s =>
          { s with handles := s.handles.erase h }
      else none
  | .exit t => s.exitThread t

end PoolHeap

/-- The steps as a relation. -/
def PoolStep (s : PoolHeap) (e : PoolHeap.Event) (s' : PoolHeap) : Prop := s.step e = some s'

end Veloq.Heap
