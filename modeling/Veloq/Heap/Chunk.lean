import Veloq.Foundation.Machine
import Veloq.Heap.Buddy
set_option autoImplicit false

/-!
# Heap: chunks

A `Chunk` cuts its memory into shards of equal length, each with a buddy allocator of
its own.  Pages are handed out one by one from superblocks, blocks of 64 slots taken
from a shard and tracked by a `SuperblockState`; larger requests go to the shards
directly.  On deallocation the shard and the superblock are recomputed from the slot
index alone.

As in the allocator, `none` is a panic.  The slot index of an allocation is also its
first page.
-/

namespace Veloq.Heap

open Veloq.Foundation

/-- `SUPERBLOCK_ORDER`. -/
def superblockOrder : Nat := 6

/-- `SUPERBLOCK_SIZE`. -/
def superblockSize : Nat := 64

/-- `MIN_THREAD_MEMORY`. -/
def minThreadMemory : Nat := 2 * 1024 * 1024

/-- `SuperblockState`. -/
structure SuperblockState where
  freeMask : BitVec 64
  isActive : Bool
  deriving DecidableEq, Repr

namespace SuperblockState

def new : SuperblockState := { freeMask := 0, isActive := false }

def init : SuperblockState := { freeMask := BitVec.allOnes 64, isActive := true }

/-- `alloc_one`. -/
def allocOne (s : SuperblockState) : SuperblockState × Option Nat :=
  if s.freeMask = 0 then
    (s, none)
  else
    let idx := s.freeMask.ctz.toNat
    ({ s with freeMask := s.freeMask &&& ~~~(1#64 <<< idx) }, some idx)

/-- `free_one`: the superblock is empty and nobody holds it. -/
def freeOne (s : SuperblockState) (idx : Nat) : SuperblockState × Bool :=
  let newMask := s.freeMask ||| 1#64 <<< idx
  ({ s with freeMask := newMask }, newMask = BitVec.allOnes 64 && !s.isActive)

/-- `set_inactive`: the superblock is empty. -/
def setInactive (s : SuperblockState) : SuperblockState × Bool :=
  ({ s with isActive := false }, s.freeMask = BitVec.allOnes 64)

end SuperblockState

/-- `Chunk`; the mapped memory appears as its length and inside the allocators. -/
structure Chunk where
  shards : List BuddyAllocator
  superblocks : List SuperblockState
  memoryLen : Nat
  slotsPerShard : Nat

/-- Why there is no chunk. -/
inductive ChunkError where
  | chunkTooSmall
  | panicked
  deriving DecidableEq, Repr

namespace Chunk

/-- The shard count of `Chunk::new`.  `next_power_of_two` wraps to zero when the result
does not fit. -/
def shardCount (totalSlots parallelism : Nat) : Nat :=
  let shardCount := max (nextPowerOfTwo parallelism % 2 ^ 64) 16
  let maxShards := totalSlots / superblockSize
  if 0 < maxShards ∧ maxShards < shardCount then
    2 ^ Nat.log2 maxShards
  else if maxShards = 0 then
    1
  else
    shardCount

/-- `Chunk::new` on mapped memory of `size` bytes, a multiple of the page size. -/
def new (memory : Nat → FreeNode) (size parallelism : Nat) : Except ChunkError Chunk :=
  let totalSlots := size / slotSize
  let shardCount := shardCount totalSlots parallelism
  let slotsPerShard := totalSlots / shardCount
  if slotsPerShard = 0 then
    .error .chunkTooSmall
  else
    let shards := (List.range shardCount).mapM fun i =>
      BuddyAllocator.new (fun slot => memory (i * slotsPerShard + slot)) (slotsPerShard * slotSize)
    match shards with
    | none => .error .panicked
    | some shards => .ok
        { shards := shards
          superblocks := List.replicate (totalSlots / superblockSize) SuperblockState.new
          memoryLen := size
          slotsPerShard := slotsPerShard }

/-- `SlotIndex::shard_local`. -/
def shardForIndex (c : Chunk) (index : Nat) : Nat × Nat :=
  (index / c.slotsPerShard, index % c.slotsPerShard)

/-- `SlotIndex::from_shard_local`. -/
def fromShardLocal (c : Chunk) (shard slot : Nat) : Nat := shard * c.slotsPerShard + slot

def superblockIndex (index : Nat) : Nat := index / superblockSize

def superblockOffset (index : Nat) : Nat := index % superblockSize

def fromSuperblockOffset (superblock offset : Nat) : Nat := superblock * superblockSize + offset

/-- `SuperblockIndex::base_slot`. -/
def baseSlot (superblock : Nat) : Nat := superblock * superblockSize

/-- The scan of `alloc_global` over the shards it visits. -/
def scan (c : Chunk) (order : Nat) : List Nat → Option (Chunk × Option (Nat × Nat))
  | [] => some (c, none)
  | idx :: rest =>
      match c.shards[idx]? with
      | none => none
      | some buddy =>
          match buddy.alloc order with
          | none => none
          | some (buddy, some slot) =>
              some ({ c with shards := c.shards.set idx buddy }, some (idx, slot))
          | some (buddy, none) => scan { c with shards := c.shards.set idx buddy } order rest

/-- The shards in the order in which `alloc_global` visits them. -/
def visitOrder (c : Chunk) (hash : Nat) : List Nat :=
  let mask := c.shards.length - 1
  let start := hash &&& mask
  let stride := hash >>> 16 ||| 1
  (List.range c.shards.length).map fun i => (start + i * stride % 2 ^ 64) % 2 ^ 64 &&& mask

/-- What `alloc_global` starts from: the caller's seed or the hash of the thread id. -/
def startHash (seed : Option Nat) (threadHash : Nat) : Nat :=
  match seed with
  | some s => s * 0x27bb2ee687b0b0fd % 2 ^ 64
  | none => threadHash

/-- `alloc_global`: the shard and the slot in it.  Without contention the second,
blocking pass sees what the first one saw. -/
def allocGlobal (c : Chunk) (order : Nat) (seed : Option Nat) (threadHash : Nat) :
    Option (Chunk × Option (Nat × Nat)) :=
  let hash := startHash seed threadHash
  match c.scan order (c.visitOrder hash) with
  | none => none
  | some (c, some found) => some (c, some found)
  | some (c, none) => c.scan order (c.visitOrder hash)

end Chunk

/-- A live allocation: its slot index and order, where the buddy block behind it came
from, and the superblock of a single slot. -/
structure Allocation where
  index : Nat
  order : Nat
  shard : Nat
  block : Nat
  superblock : Option Nat
  deriving DecidableEq, Repr

/-- A `LocalCacheEntry`: some thread holds the superblock, carved from `block` of
`shard`. -/
structure CacheEntry where
  superblock : Nat
  shard : Nat
  block : Nat
  deriving DecidableEq, Repr

namespace Chunk

/-- The superblock at `superblock` hands out a slot. -/
def allocOne (c : Chunk) (superblock : Nat) : Option (Chunk × Option Nat) :=
  match c.superblocks[superblock]? with
  | none => none
  | some state =>
      let (state, offset) := state.allocOne
      some ({ c with superblocks := c.superblocks.set superblock state }, offset)

/-- The block of `shard` at `block` becomes a superblock, which hands out its first
slot. -/
def carve (c : Chunk) (shard block : Nat) : Option (Chunk × Option (Allocation × CacheEntry)) :=
  let superblock := superblockIndex (c.fromShardLocal shard block)
  if superblock < c.superblocks.length then
    let c := { c with superblocks := c.superblocks.set superblock SuperblockState.init }
    match c.allocOne superblock with
    | none => none
    | some (_, none) => none
    | some (c, some offset) =>
        let index := fromSuperblockOffset superblock offset
        if index * slotSize < c.memoryLen then
          some (c, some (⟨index, 0, shard, block, some superblock⟩, ⟨superblock, shard, block⟩))
        else
          none
  else
    none

/-- `Chunk::alloc_slots` for a single slot. -/
def allocSmall (c : Chunk) (seed : Option Nat) (threadHash : Nat) :
    Option (Chunk × Option (Allocation × CacheEntry)) :=
  match c.allocGlobal superblockOrder seed threadHash with
  | none => none
  | some (c, none) => some (c, none)
  | some (c, some (shard, block)) => c.carve shard block

/-- `Chunk::alloc_slots` for more than one slot. -/
def allocLarge (c : Chunk) (order : Nat) (seed : Option Nat) (threadHash : Nat) :
    Option (Chunk × Option Allocation) :=
  match c.allocGlobal order seed threadHash with
  | none => none
  | some (c, none) => some (c, none)
  | some (c, some (shard, block)) =>
      some (c, some ⟨c.fromShardLocal shard block, order, shard, block, none⟩)

/-- `dealloc_global`. -/
def deallocGlobal (c : Chunk) (index order : Nat) : Option Chunk :=
  let (shard, slot) := c.shardForIndex index
  match c.shards[shard]? with
  | none => none
  | some buddy =>
      match buddy.dealloc slot order with
      | some (buddy, .ok ()) => some { c with shards := c.shards.set shard buddy }
      | _ => none

/-- `dealloc_superblock`. -/
def deallocSuperblock (c : Chunk) (superblock : Nat) : Option Chunk :=
  c.deallocGlobal (baseSlot superblock) superblockOrder

/-- `Chunk::dealloc_slots`. -/
def deallocSlots (c : Chunk) (index order : Nat) : Option Chunk :=
  if order = 0 then
    match c.superblocks[superblockIndex index]? with
    | none => some c
    | some state =>
        let (state, empty) := state.freeOne (superblockOffset index)
        let c := { c with superblocks := c.superblocks.set (superblockIndex index) state }
        if empty then c.deallocSuperblock (superblockIndex index) else some c
  else
    c.deallocGlobal index order

/-- `LocalCacheEntry::drop`. -/
def retire (c : Chunk) (superblock : Nat) : Option Chunk :=
  match c.superblocks[superblock]? with
  | none => none
  | some state =>
      let (state, empty) := state.setInactive
      let c := { c with superblocks := c.superblocks.set superblock state }
      if empty then c.deallocSuperblock superblock else some c

/-- The holder of page `page` writes to it. -/
def write (c : Chunk) (page : Nat) (node : FreeNode) : Chunk :=
  let (shard, slot) := c.shardForIndex page
  { c with shards := c.shards.modify shard fun buddy =>
      { buddy with memory := Function.update buddy.memory slot node } }

end Chunk

/-! ## Runs -/

/-- A chunk in use. -/
structure ChunkUse where
  chunk : Chunk
  live : List Allocation
  entries : List CacheEntry

/-- What happens to a chunk. -/
inductive ChunkEvent where
  | allocSmall (seed : Option Nat) (threadHash : Nat)
  | allocLarge (order : Nat) (seed : Option Nat) (threadHash : Nat)
  /-- A thread allocates from the superblock it holds. -/
  | allocCached (superblock : Nat)
  | dealloc (a : Allocation)
  | retire (e : CacheEntry)
  | write (page : Nat) (node : FreeNode)

/-- One whole operation.  Live allocations are deallocated with their own index and
order, which is the safety contract of `dealloc_slots`; pages are written to only while
they are allocated. -/
inductive ChunkStep : ChunkUse → ChunkEvent → ChunkUse → Prop where
  | allocFailed {s : ChunkUse} {seed : Option Nat} {hash : Nat} {c : Chunk} :
      s.chunk.allocSmall seed hash = some (c, none) →
      ChunkStep s (.allocSmall seed hash) { s with chunk := c }
  | allocSmall {s : ChunkUse} {seed : Option Nat} {hash : Nat} {c : Chunk} {a : Allocation}
      {e : CacheEntry} :
      s.chunk.allocSmall seed hash = some (c, some (a, e)) →
      ChunkStep s (.allocSmall seed hash) ⟨c, a :: s.live, e :: s.entries⟩
  | allocLargeFailed {s : ChunkUse} {order : Nat} {seed : Option Nat} {hash : Nat} {c : Chunk} :
      order ≠ 0 → s.chunk.allocLarge order seed hash = some (c, none) →
      ChunkStep s (.allocLarge order seed hash) { s with chunk := c }
  | allocLarge {s : ChunkUse} {order : Nat} {seed : Option Nat} {hash : Nat} {c : Chunk}
      {a : Allocation} :
      order ≠ 0 → s.chunk.allocLarge order seed hash = some (c, some a) →
      ChunkStep s (.allocLarge order seed hash) { s with chunk := c, live := a :: s.live }
  | allocCachedFailed {s : ChunkUse} {e : CacheEntry} {c : Chunk} :
      e ∈ s.entries → s.chunk.allocOne e.superblock = some (c, none) →
      ChunkStep s (.allocCached e.superblock) { s with chunk := c }
  | allocCached {s : ChunkUse} {e : CacheEntry} {c : Chunk} {offset : Nat} :
      e ∈ s.entries → s.chunk.allocOne e.superblock = some (c, some offset) →
      ChunkStep s (.allocCached e.superblock) { s with
        chunk := c
        live := ⟨Chunk.fromSuperblockOffset e.superblock offset, 0, e.shard, e.block,
          some e.superblock⟩ :: s.live }
  | dealloc {s : ChunkUse} {a : Allocation} {before after : List Allocation} {c : Chunk} :
      s.live = before ++ a :: after → s.chunk.deallocSlots a.index a.order = some c →
      ChunkStep s (.dealloc a) { s with chunk := c, live := before ++ after }
  | retire {s : ChunkUse} {e : CacheEntry} {before after : List CacheEntry} {c : Chunk} :
      s.entries = before ++ e :: after → s.chunk.retire e.superblock = some c →
      ChunkStep s (.retire e) { s with chunk := c, entries := before ++ after }
  | write {s : ChunkUse} {a : Allocation} {page : Nat} {node : FreeNode} :
      a ∈ s.live → a.index ≤ page → page < a.index + 2 ^ a.order →
      ChunkStep s (.write page node) { s with chunk := s.chunk.write page node }

end Veloq.Heap
