import Veloq.Buffer.FixedBuf
import Veloq.Foundation.Assoc
import Veloq.Rio.Error
set_option autoImplicit false

/-!
# RIO: registered buffers

`rio/core/registry/buffer.rs` and the deregistration part of `rio/core/registry.rs`.
Memory is registered with the kernel by chunk, or by heap buffer in a bounded cache.
A request holds a lease on the registration that its buffer is part of; a registration
that was replaced or evicted stays until its last lease is released.

The vector `chunk_registry` is read as a map from the numbers of chunks, the counter of
generations as a natural number, and every operation gives the calls it makes to the
kernel beside its result.  Statistics are left out.
-/

namespace Veloq.Rio

open Foundation Buffer

/-- `RioBufferId`; `0` is `INVALID`. -/
abbrev BufferId := Nat

/-- `RioHeapBufferKey`. -/
structure HeapBufferKey where
  ptr : Nat
  cap : Nat
  cookie : Nat
  deriving DecidableEq, Repr

/-- `RioChunkRegistrationKey`. -/
structure ChunkRegistrationKey where
  id : Nat
  generation : Nat
  deriving DecidableEq, Repr

/-- `RioHeapLeaseToken`. -/
structure HeapLeaseToken where
  key : HeapBufferKey
  id : BufferId
  deriving DecidableEq, Repr

/-- `RioChunkLeaseToken`. -/
structure ChunkLeaseToken where
  key : ChunkRegistrationKey
  id : BufferId
  deriving DecidableEq, Repr

/-- `RioBufferLeaseToken`. -/
inductive BufferLeaseToken where
  | chunk (lease : ChunkLeaseToken)
  | heap (lease : HeapLeaseToken)
  deriving DecidableEq, Repr

/-- `RioBufferRegistration`. -/
structure BufferRegistration where
  id : BufferId
  activeRefs : Nat
  retired : Bool
  deriving DecidableEq, Repr

namespace BufferRegistration

/-- `RioBufferRegistration::new`. -/
def new (id : BufferId) : BufferRegistration := ⟨id, 0, false⟩

/-- `acquire_ref`. -/
def acquireRef (r : BufferRegistration) : RioResult BufferRegistration :=
  if r.activeRefs + 1 < 2 ^ 64 then
    .ok { r with activeRefs := r.activeRefs + 1 }
  else
    .error ⟨.resourceExhaustion, "RIO buffer registration active refcount overflow"⟩

/-- `release_ref`; `none` is `false`. -/
def releaseRef (r : BufferRegistration) : Option BufferRegistration :=
  if r.activeRefs = 0 then none else some { r with activeRefs := r.activeRefs - 1 }

end BufferRegistration

/-- `RioChunkRegistration`. -/
structure ChunkRegistration where
  generation : Nat
  registration : BufferRegistration
  deriving DecidableEq, Repr

/-- `RioChunkRegistrationLocation`. -/
inductive ChunkRegistrationLocation where
  | current
  | retired
  deriving DecidableEq, Repr

/-- A call of `RIORegisterBuffer` that returned an id, or of `RIODeregisterBuffer`. -/
inductive KernelCall where
  | register (id : BufferId) (ptr len : Nat)
  | deregister (id : BufferId)
  deriving DecidableEq, Repr

/-- `RioProvider::deregister_buffer`. -/
def deregisterBuffer (id : BufferId) : List KernelCall :=
  if id = 0 then [] else [.deregister id]

/-- The calls of a loop that deregisters. -/
def deregisterBuffers (ids : List BufferId) : List KernelCall := ids.flatMap deregisterBuffer

/-- What one call of the driver brings with it: `registrar.resolve_chunk_info`, the time
in milliseconds, and the answer of `RIORegisterBuffer` if it is asked. -/
structure BufferEnv where
  resolveChunkInfo : Nat → Option ChunkInfo
  now : Nat
  registerBuffer : Option BufferId

/-- `REGISTER_FAILURE_RETRY_COOLDOWN` in milliseconds. -/
def registerFailureRetryCooldown : Nat := 250

/-- `HEAP_REGISTRATION_CACHE_LIMIT`. -/
def heapRegistrationCacheLimit : Nat := 1024

/-- The failure was less than the cooldown ago. -/
def failedRecently (lastFail : Option Nat) (now : Nat) : Bool :=
  match lastFail with
  | none => false
  | some time => decide (now - time < registerFailureRetryCooldown)

/-- The part of `RioRegistry` that keeps registrations. -/
structure Buffers where
  chunkRegistry : Assoc Nat ChunkRegistration := .empty
  retiredChunkRegistrations : Assoc ChunkRegistrationKey BufferRegistration := .empty
  addrBufferId : BufferId := 0
  heapRioBufs : Assoc HeapBufferKey BufferRegistration := .empty
  pendingDeregistrations : List BufferId := []
  chunkRegisterFailuresRecent : Assoc Nat Nat := .empty
  heapRegisterFailuresRecent : Assoc HeapBufferKey Nat := .empty
  nextRegistrationGeneration : Nat := 0
  deriving DecidableEq

namespace Buffers

/-! ## Chunks -/

/-- `retire_chunk_registration`. -/
def retireChunkRegistration (b : Buffers) (key : ChunkRegistrationKey)
    (registration : BufferRegistration) : Buffers × List KernelCall :=
  if registration.activeRefs = 0 then
    (b, deregisterBuffer registration.id)
  else
    ({ b with retiredChunkRegistrations :=
        b.retiredChunkRegistrations.insert key { registration with retired := true } }, [])

/-- The registration that `register_chunk` puts into the table. -/
def installChunk (b : Buffers) (id : Nat) (bufId : BufferId) : Buffers :=
  let generation := b.nextRegistrationGeneration + 1
  { b with
    nextRegistrationGeneration := generation
    chunkRegistry := b.chunkRegistry.insert id ⟨generation, .new bufId⟩
    chunkRegisterFailuresRecent := b.chunkRegisterFailuresRecent.erase id }

/-- `register_chunk`.  The length is cast to `u32`. -/
def registerChunk (b : Buffers) (id : Nat) (mem : ChunkInfo) (env : BufferEnv) :
    RioResult Unit × Buffers × List KernelCall :=
  if failedRecently (b.chunkRegisterFailuresRecent.get id) env.now then
    (.error ⟨.resourceExhaustion, "RIO chunk registration skipped due to recent failure"⟩, b, [])
  else
    match env.registerBuffer with
    | none =>
        (.error ⟨.bufferRegistration, "RIORegisterBuffer failed for chunk"⟩,
          { b with chunkRegisterFailuresRecent :=
              b.chunkRegisterFailuresRecent.insert id env.now }, [])
    | some bufId =>
        let call := KernelCall.register bufId mem.ptr (mem.len % 2 ^ 32)
        match b.chunkRegistry.get id with
        | none => (.ok (), b.installChunk id bufId, [call])
        | some previous =>
            let (b, calls) := (b.installChunk id bufId).retireChunkRegistration
              ⟨id, previous.generation⟩ previous.registration
            (.ok (), b, call :: calls)

/-- `current_chunk_lease`. -/
def currentChunkLease (b : Buffers) (id : Nat) : Option ChunkLeaseToken :=
  (b.chunkRegistry.get id).map fun entry => ⟨⟨id, entry.generation⟩, entry.registration.id⟩

/-! ## Heap buffers -/

/-- The cache is full and `retire_heap_cache_for_insert` gives up what it can. -/
def evictHeapCache (b : Buffers) : Buffers × List KernelCall :=
  let idle := b.heapRioBufs.filter fun e => e.2.activeRefs = 0
  let busy := b.heapRioBufs.filter fun e => !decide (e.2.activeRefs = 0)
  ({ b with heapRioBufs := busy.mapValues fun _ entry => { entry with retired := true } },
    deregisterBuffers (idle.entries.map fun e => e.2.id))

/-- `retire_heap_cache_for_insert`. -/
def retireHeapCacheForInsert (b : Buffers) : Buffers × List KernelCall :=
  if b.heapRioBufs.size < heapRegistrationCacheLimit then (b, []) else b.evictHeapCache

/-- `register_heap_raw`.  The capacity is cast to `u32`. -/
def registerHeapRaw (b : Buffers) (key : HeapBufferKey) (env : BufferEnv) :
    RioResult BufferId × Buffers × List KernelCall :=
  match env.registerBuffer with
  | none =>
      (.error ⟨.bufferRegistration, "RIORegisterBuffer failed for heap buffer"⟩,
        { b with heapRegisterFailuresRecent :=
            b.heapRegisterFailuresRecent.insert key env.now }, [])
  | some id =>
      (.ok id, { b with
        heapRioBufs := b.heapRioBufs.insert key (.new id)
        heapRegisterFailuresRecent := b.heapRegisterFailuresRecent.erase key },
        [.register id key.ptr (key.cap % 2 ^ 32)])

/-- What `resolve_buffer_id` gives: the id, the offset of the buffer in the registered
memory, and a lease that can be acquired. -/
abbrev Resolved := BufferId × Nat × Option BufferLeaseToken

/-- `resolve_heap_id`. -/
def resolveHeapId (b : Buffers) (key : HeapBufferKey) (offset : Nat) (env : BufferEnv) :
    RioResult Resolved × Buffers × List KernelCall :=
  match b.heapRioBufs.get key with
  | some entry => (.ok (entry.id, offset, some (.heap ⟨key, entry.id⟩)), b, [])
  | none =>
      if failedRecently (b.heapRegisterFailuresRecent.get key) env.now then
        (.error ⟨.resourceExhaustion, "RIO heap registration skipped due to recent failure"⟩,
          b, [])
      else
        let (b, calls) := b.retireHeapCacheForInsert
        match b.registerHeapRaw key env with
        | (.error e, b, calls') => (.error e, b, calls ++ calls')
        | (.ok id, b, calls') => (.ok (id, offset, some (.heap ⟨key, id⟩)), b, calls ++ calls')

/-- The key of a heap buffer. -/
def heapKey (buf : FixedBuf) (info : RegionInfo) : HeapBufferKey :=
  { ptr := buf.ptr, cap := buf.capacity, cookie := info.cookie }

/-- The end of `resolve_buffer_id`. -/
def resolveChunkLease (b : Buffers) (info : RegionInfo) : RioResult Resolved :=
  match b.currentChunkLease info.id with
  | some lease => .ok (lease.id, info.offset, some (.chunk lease))
  | none => .error ⟨.internal, "RIO chunk not registered"⟩

/-- `resolve_buffer_id`; `info` is `buf.resolve_region_info()`. -/
def resolveBufferId (b : Buffers) (buf : FixedBuf) (info : RegionInfo) (env : BufferEnv) :
    RioResult Resolved × Buffers × List KernelCall :=
  match info.poolKind with
  | .heap => b.resolveHeapId (heapKey buf info) info.offset env
  | .slotBased =>
      match b.currentChunkLease info.id, env.resolveChunkInfo info.id with
      | none, some mem =>
          match b.registerChunk info.id mem env with
          | (.error e, b, calls) => (.error e, b, calls)
          | (.ok (), b, calls) => (b.resolveChunkLease info, b, calls)
      | _, _ => (b.resolveChunkLease info, b, [])

/-! ## Leases -/

/-- `locate_chunk_lease`, with the registration it finds. -/
def locateChunkLease (b : Buffers) (lease : ChunkLeaseToken) :
    RioResult (ChunkRegistrationLocation × BufferRegistration) :=
  match (b.chunkRegistry.get lease.key.id).filter fun entry =>
      decide (entry.generation = lease.key.generation) with
  | some entry =>
      if entry.registration.id ≠ lease.id then
        .error ⟨.internal, "RIO chunk lease buffer id is stale"⟩
      else
        .ok (.current, entry.registration)
  | none =>
      match b.retiredChunkRegistrations.get lease.key with
      | none => .error ⟨.internal, "RIO chunk lease registration is unknown"⟩
      | some entry =>
          if entry.id ≠ lease.id then
            .error ⟨.internal, "retired RIO chunk lease buffer id is stale"⟩
          else
            .ok (.retired, entry)

/-- The registration behind the reference of `chunk_registration_for_lease_mut` is
written. -/
def writeChunkRegistration (b : Buffers) (location : ChunkRegistrationLocation)
    (key : ChunkRegistrationKey) (registration : BufferRegistration) : Buffers :=
  match location with
  | .current => { b with chunkRegistry :=
      b.chunkRegistry.modify key.id fun entry => { entry with registration } }
  | .retired => { b with retiredChunkRegistrations :=
      b.retiredChunkRegistrations.modify key fun _ => registration }

/-- `heap_registration_for_lease_mut`. -/
def heapRegistrationForLease (b : Buffers) (lease : HeapLeaseToken) :
    RioResult BufferRegistration :=
  match b.heapRioBufs.get lease.key with
  | none => .error ⟨.internal, "RIO heap lease registration is unknown"⟩
  | some entry =>
      if entry.id ≠ lease.id then
        .error ⟨.internal, "RIO heap lease buffer id is stale"⟩
      else
        .ok entry

def writeHeapRegistration (b : Buffers) (key : HeapBufferKey)
    (registration : BufferRegistration) : Buffers :=
  { b with heapRioBufs := b.heapRioBufs.modify key fun _ => registration }

/-- `acquire_chunk_lease`. -/
def acquireChunkLease (b : Buffers) (lease : ChunkLeaseToken) : RioResult Buffers := do
  let (location, entry) ← b.locateChunkLease lease
  let entry ← entry.acquireRef
  return b.writeChunkRegistration location lease.key entry

/-- `acquire_heap_lease`. -/
def acquireHeapLease (b : Buffers) (lease : HeapLeaseToken) : RioResult Buffers := do
  let entry ← b.heapRegistrationForLease lease
  let entry ← entry.acquireRef
  return b.writeHeapRegistration lease.key entry

/-- `acquire_buffer_lease`. -/
def acquireBufferLease (b : Buffers) : Option BufferLeaseToken → RioResult Buffers
  | none => .ok b
  | some (.chunk lease) => b.acquireChunkLease lease
  | some (.heap lease) => b.acquireHeapLease lease

/-- `release_chunk_lease_inner`: the id to deregister, if this was the last lease of a
retired registration. -/
def releaseChunkLeaseInner (b : Buffers) (lease : ChunkLeaseToken) :
    RioResult (Option BufferId × Buffers) := do
  let (location, entry) ← b.locateChunkLease lease
  match entry.releaseRef with
  | none => .error ⟨.internal, "RIO chunk lease release found no active refs"⟩
  | some entry =>
      let b := b.writeChunkRegistration location lease.key entry
      if entry.activeRefs = 0 ∧ entry.retired then
        match location with
        | .current => return ((b.chunkRegistry.get lease.key.id).map fun e => e.registration.id,
            { b with chunkRegistry := b.chunkRegistry.erase lease.key.id })
        | .retired => return ((b.retiredChunkRegistrations.get lease.key).map fun e => e.id,
            { b with retiredChunkRegistrations := b.retiredChunkRegistrations.erase lease.key })
      else
        return (none, b)

/-- `release_heap_lease_inner`. -/
def releaseHeapLeaseInner (b : Buffers) (lease : HeapLeaseToken) :
    RioResult (Option BufferId × Buffers) := do
  let entry ← b.heapRegistrationForLease lease
  match entry.releaseRef with
  | none => .error ⟨.internal, "RIO heap lease release found no active refs"⟩
  | some entry =>
      let b := b.writeHeapRegistration lease.key entry
      if entry.activeRefs = 0 ∧ entry.retired then
        return ((b.heapRioBufs.get lease.key).map fun e => e.id,
          { b with heapRioBufs := b.heapRioBufs.erase lease.key })
      else
        return (none, b)

/-- `release_buffer_lease_inner`. -/
def releaseBufferLeaseInner (b : Buffers) :
    Option BufferLeaseToken → RioResult (Option BufferId × Buffers)
  | none => .ok (none, b)
  | some (.chunk lease) => b.releaseChunkLeaseInner lease
  | some (.heap lease) => b.releaseHeapLeaseInner lease

/-- `release_buffer_lease`. -/
def releaseBufferLease (b : Buffers) (lease : Option BufferLeaseToken) :
    RioResult (Buffers × List KernelCall) := do
  let (id, b) ← b.releaseBufferLeaseInner lease
  return (b, deregisterBuffers id.toList)

/-- `release_buffer_lease_deferred`. -/
def releaseBufferLeaseDeferred (b : Buffers) (lease : Option BufferLeaseToken) :
    RioResult Buffers := do
  let (id, b) ← b.releaseBufferLeaseInner lease
  return { b with pendingDeregistrations := b.pendingDeregistrations ++ id.toList }

/-! ## Deregistration -/

/-- `flush_deregs`. -/
def flushDeregs (b : Buffers) : Buffers × List KernelCall :=
  ({ b with pendingDeregistrations := [] }, deregisterBuffers b.pendingDeregistrations)

/-- The ids that `cleanup_deregister` goes through, in its order. -/
def cleanupIds (b : Buffers) : List BufferId :=
  b.chunkRegistry.entries.map (fun e => e.2.registration.id) ++
    (b.retiredChunkRegistrations.entries.map (fun e => e.2.id) ++
      (b.pendingDeregistrations ++
        ([b.addrBufferId] ++ b.heapRioBufs.entries.map fun e => e.2.id)))

/-- The loops of `cleanup_deregister`: an id is deregistered where it is met first. -/
def deregisterOnce (seen : List BufferId) : List BufferId → List KernelCall
  | [] => []
  | id :: ids =>
      if id = 0 ∨ id ∈ seen then
        deregisterOnce seen ids
      else
        deregisterBuffer id ++ deregisterOnce (id :: seen) ids

/-- `cleanup_deregister`, apart from the address slots. -/
def cleanupDeregister (b : Buffers) : Buffers × List KernelCall :=
  ({ nextRegistrationGeneration := b.nextRegistrationGeneration },
    deregisterOnce [] b.cleanupIds)

/-- `ensure_addr_buffer_registered` of a scratch buffer of so many bytes at an address. -/
def ensureAddrBufferRegistered (b : Buffers) (mem : ChunkInfo) (registerBuffer : Option BufferId) :
    RioResult BufferId × Buffers × List KernelCall :=
  if b.addrBufferId ≠ 0 then
    (.ok b.addrBufferId, b, [])
  else if 2 ^ 32 ≤ mem.len then
    (.error ⟨.resourceExhaustion, "RIO address scratch buffer too large"⟩, b, [])
  else
    match registerBuffer with
    | none =>
        (.error ⟨.bufferRegistration, "RIORegisterBuffer failed for address scratch buffer"⟩, b, [])
    | some id => (.ok id, { b with addrBufferId := id }, [.register id mem.ptr mem.len])

end Buffers

end Veloq.Rio
