import Mathlib.Algebra.BigOperators.Group.Finset.Basic
import Mathlib.Logic.Function.Basic
set_option autoImplicit false

/-!
# Buffer: the references to a slot pool

`buffer/slot_pool.rs`.  A `GlobalSlotPool` is kept alive by its handles and by its buffers.  A
buffer gets its reference from the cache of the thread that allocates it, which fetches
references ahead, and leaves it in the cache of the thread that drops it.  A pool is known by its
address, which may be used again once the pool is freed.  Every operation is one step; `none` as
the outcome of an operation is an access to a pool that does not exist.
-/

namespace Veloq.Buffer

open Finset

/-- `ARC_CACHE_LIMIT`. -/
def arcCacheLimit : Nat := 64

/-- `PREFETCH_COUNT`. -/
def prefetchCount : Nat := 32

/-- `PoolCacheInner`; `none` is the null pointer. -/
structure PoolCacheInner where
  ptr : Option Nat
  balance : Nat
  deriving DecidableEq, Repr

/-- `ThreadLocalPoolCache::new`. -/
def PoolCacheInner.new : PoolCacheInner := { ptr := none, balance := 0 }

/-- A `FixedBuf` of a slot pool: its pool, and where in the pool it is. -/
structure SlotBuf where
  poolData : Nat
  context : Nat
  deriving DecidableEq, Repr

structure SlotPools where
  /-- The strong count of the pool at an address. -/
  strong : Nat → Option Nat
  handles : Nat → Nat
  bufs : List SlotBuf
  threads : Nat
  /-- `POOL_CACHE` of each thread. -/
  cache : Nat → Option PoolCacheInner

namespace SlotPools

def new : SlotPools where
  strong := fun _ => none
  handles := fun _ => 0
  bufs := []
  threads := 0
  cache := fun _ => none

variable (s : SlotPools)

/-! ## Reference counts -/

def incrementStrongCount (p : Nat) : Option SlotPools :=
  (s.strong p).map fun n => { s with strong := Function.update s.strong p (some (n + 1)) }

/-- The last reference frees the pool. -/
def decrementStrongCount (p : Nat) : Option SlotPools :=
  (s.strong p).map fun n =>
    { s with strong := Function.update s.strong p (if n ≤ 1 then none else some (n - 1)) }

/-- `for _ in 0..n { f }`. -/
def times (f : SlotPools → Option SlotPools) : Nat → SlotPools → Option SlotPools
  | 0, s => some s
  | n + 1, s => (f s).bind (times f n)

/-- `dealloc_slots`, which works on the memory of the pool. -/
def deallocSlots (p : Nat) : Option SlotPools := if (s.strong p).isSome then some s else none

/-! ## The cache of a thread -/

/-- What `with_pool_cache` reads. -/
def cacheOf (t : Nat) : PoolCacheInner := (s.cache t).getD .new

def setCache (t : Nat) (inner : PoolCacheInner) : SlotPools :=
  { s with cache := Function.update s.cache t (some inner) }

/-- The references that are left in a cache are given back. -/
def flush (inner : PoolCacheInner) : Option SlotPools :=
  match inner.ptr with
  | some old => if 0 < inner.balance then times (·.decrementStrongCount old) inner.balance s else some s
  | none => some s

/-! ## The operations -/

/-- `pool_data`: one reference to the pool at `p`, for a buffer. -/
def poolData (t p : Nat) : Option SlotPools :=
  let inner := s.cacheOf t
  if inner.ptr = some p ∧ 0 < inner.balance then
    some (s.setCache t { inner with balance := inner.balance - 1 })
  else
    ((if inner.ptr = some p then some s else s.flush inner).bind
      (times (·.incrementStrongCount p) prefetchCount)).map fun s' =>
        s'.setCache t { ptr := some p, balance := prefetchCount - 1 }

/-- `SlotBasedPool::alloc`, with what `alloc_slots` has granted; else the buffer comes from the
system and is not ours. -/
def alloc (t p : Nat) : Option Nat → Option SlotPools
  | some context =>
      (s.poolData t p).map fun s' =>
        { s' with bufs := { poolData := p, context := context } :: s'.bufs }
  | none => some s

/-- `slot_based_dealloc`. -/
def slotBasedDealloc (t : Nat) (buf : SlotBuf) : Option SlotPools :=
  let inner := s.cacheOf t
  if inner.ptr = some buf.poolData ∧ inner.balance < arcCacheLimit then
    (s.setCache t { inner with balance := inner.balance + 1 }).deallocSlots buf.poolData
  else
    ((s.setCache t inner).deallocSlots buf.poolData).bind
      (·.decrementStrongCount buf.poolData)

/-- A buffer is dropped. -/
def dropBuf (t i : Nat) : Option SlotPools :=
  match s.bufs[i]? with
  | some buf => slotBasedDealloc { s with bufs := s.bufs.eraseIdx i } t buf
  | none => some s

/-- A thread exits: `drop` of `ThreadLocalPoolCache`. -/
def exit (t : Nat) : Option SlotPools :=
  (s.flush (s.cacheOf t)).map fun s' => { s' with cache := Function.update s'.cache t none }

def newPool (p : Nat) : SlotPools :=
  { s with
    strong := Function.update s.strong p (some 1)
    handles := Function.update s.handles p 1 }

def cloneHandle (p : Nat) : Option SlotPools :=
  (s.incrementStrongCount p).map fun s' =>
    { s' with handles := Function.update s'.handles p (s'.handles p + 1) }

def dropHandle (p : Nat) : Option SlotPools :=
  (s.decrementStrongCount p).map fun s' =>
    { s' with handles := Function.update s'.handles p (s'.handles p - 1) }

end SlotPools

inductive SlotPoolCall where
  | newPool (p : Nat)
  | cloneHandle (p : Nat)
  | dropHandle (p : Nat)
  | spawn
  | alloc (t p : Nat) (granted : Option Nat)
  | dropBuf (t i : Nat)
  | exit (t : Nat)
  deriving DecidableEq, Repr

namespace SlotPools

variable (s : SlotPools)

/-- There is somebody to make the call; a new pool gets memory that is free. -/
def enabled : SlotPoolCall → Bool
  | .newPool p => (s.strong p).isNone
  | .cloneHandle p => decide (0 < s.handles p)
  | .dropHandle p => decide (0 < s.handles p)
  | .spawn => true
  | .alloc t p _ => decide (t < s.threads ∧ 0 < s.handles p)
  | .dropBuf t i => decide (t < s.threads ∧ i < s.bufs.length)
  | .exit t => decide (t < s.threads)

/-- The state after a call, if it accesses no pool that does not exist. -/
def call : SlotPoolCall → Option SlotPools
  | .newPool p => some (s.newPool p)
  | .cloneHandle p => s.cloneHandle p
  | .dropHandle p => s.dropHandle p
  | .spawn => some { s with threads := s.threads + 1 }
  | .alloc t p granted => s.alloc t p granted
  | .dropBuf t i => s.dropBuf t i
  | .exit t => s.exit t

def next (e : SlotPoolCall) : Option SlotPools := if s.enabled e = true then s.call e else none

/-- The live buffers of a pool. -/
def live (p : Nat) : Nat := s.bufs.countP fun buf => buf.poolData = p

/-- The balance that a cache records for a pool. -/
def creditOf (p : Nat) (inner : Option PoolCacheInner) : Nat :=
  match inner with
  | some inner => if inner.ptr = some p then inner.balance else 0
  | none => 0

/-- The balances that all threads record for a pool. -/
def credit (p : Nat) : Nat := ∑ t ∈ range s.threads, creditOf p (s.cache t)

end SlotPools

/-- The steps as a relation. -/
def SlotPoolStep (s : SlotPools) (e : SlotPoolCall) (s' : SlotPools) : Prop := s.next e = some s'

end Veloq.Buffer
