import Veloq.Driver.UringFiles
import Mathlib.Algebra.Group.Nat.Defs
import Mathlib.Data.List.DropRight
set_option autoImplicit false

/-!
# Iocp: the table of registered handles

`driver/registration.rs` and the socket runtime of `rio/runtime.rs`.  The table has a slot for
each registered handle; empty slots at its end are cut off, and the others are kept on a list.  A
socket that is released while requests are in flight on it waits in a queue until there are none.

An owned handle is named by its number among those handed over, so that handles with the same raw
value are told apart.  `drawn` counts the generations that were drawn for the table.
-/

namespace Veloq.Iocp

open Veloq.Driver (RawHandleKind IoFd)

inductive IocpHandle where
  | file (handle : Nat)
  | socket (handle : Nat) (generation : Nat)
  deriving DecidableEq, Repr

/-- The key of a socket in the maps of RIO. -/
abbrev SocketKey := IocpHandle

namespace IocpHandle

def kind : IocpHandle → RawHandleKind
  | .file _ => .file
  | .socket _ _ => .socket

def isSocket (handle : IocpHandle) : Bool := decide (handle.kind = .socket)

def asHandle : IocpHandle → Nat
  | .file handle => handle
  | .socket handle _ => handle

end IocpHandle

/-- `RegisterFd`. -/
inductive RegisterFd where
  | borrowed (raw : IocpHandle)
  | owned (raw : IocpHandle)
  deriving DecidableEq, Repr

/-- What `getsockopt` says of a handle that is tagged as a file. -/
inductive Probe where
  | socket
  | file
  | failed
  deriving DecidableEq, Repr

/-- `RegisteredHandle`, and `InputHandle` before the handle is canonical. -/
inductive RegisteredHandle where
  | owned (raw : IocpHandle) (id : Nat)
  | weak (raw : IocpHandle)
  deriving DecidableEq, Repr

namespace RegisteredHandle

/-- `as_raw`. -/
def raw : RegisteredHandle → IocpHandle
  | .owned raw _ => raw
  | .weak raw => raw

def owner : RegisteredHandle → Option Nat
  | .owned _ id => some id
  | .weak _ => none

/-- `into_entry`. -/
def intoEntry (canonical : IocpHandle) : RegisteredHandle → RegisteredHandle
  | .owned _ id => .owned canonical id
  | .weak _ => .weak canonical

end RegisteredHandle

structure RegisteredSlot where
  handle : Option RegisteredHandle
  generation : Nat
  deriving DecidableEq, Repr

structure DeferredSocketCleanup where
  handle : SocketKey
  entry : RegisteredHandle
  deriving DecidableEq, Repr

inductive SocketLifecycleState where
  | opened
  | closing
  deriving DecidableEq, Repr

structure SocketRuntimeState where
  lifecycle : SocketLifecycleState
  inflight : Nat
  deriving DecidableEq, Repr

/-- A `SocketInflightToken`, with the owned handle on which the request was submitted. -/
structure SocketRequest where
  key : SocketKey
  owner : Option Nat
  deriving DecidableEq, Repr

/-- The closing of an owned handle.  `registered`: an `IoFd` was returned for it.  `inflight` and
`own` are the requests that were in flight on its key, and those that were submitted on it. -/
structure Closing where
  raw : IocpHandle
  id : Nat
  registered : Bool
  inflight : Nat
  own : Nat
  deriving DecidableEq, Repr

/-- The reports of `resolve_fd_handle` and `take_owned_for_close`, by their notes. -/
inductive ResolveError where
  | indexOutOfBounds
  | staleGeneration
  | notOwned
  | invalidDescriptor
  deriving DecidableEq, Repr

/-- `file_generation_counter.wrapping_add(1)`, which leaves out 0. -/
def advanceGeneration (generation : Nat) : Nat :=
  let next := (generation + 1) % 2 ^ 64
  if next = 0 then 1 else next

/-- `resolve_fd_handle`. -/
def resolveFdHandle (slots : List RegisteredSlot) (fd : IoFd) :
    Except ResolveError RegisteredHandle :=
  match slots[fd.fixedIndex]? with
  | none => .error .indexOutOfBounds
  | some slot =>
      if slot.generation ≠ fd.generation then
        .error .staleGeneration
      else
        match slot.handle with
        | none => .error .invalidDescriptor
        | some entry => .ok entry

structure IocpFiles where
  slots : List RegisteredSlot
  /-- The last of `free_slots` is the first here. -/
  freeSlots : List Nat
  deferredSocketCleanup : List DeferredSocketCleanup
  fileGenerationCounter : Nat
  socketGenerationCounter : Nat
  submissionsClosed : Bool
  socketRuntime : SocketKey → Option SocketRuntimeState
  requests : List SocketRequest
  /-- The number of owned handles that were handed over. -/
  received : Nat
  closes : List Closing
  /-- The `IoFd`s that were returned and are not released. -/
  outstanding : List IoFd
  released : List IoFd
  drawn : Nat

namespace IocpFiles

def new : IocpFiles where
  slots := []
  freeSlots := []
  deferredSocketCleanup := []
  fileGenerationCounter := 1
  socketGenerationCounter := 1
  submissionsClosed := false
  socketRuntime := fun _ => none
  requests := []
  received := 0
  closes := []
  outstanding := []
  released := []
  drawn := 0

variable (s : IocpFiles)

/-! ## The socket runtime -/

def setRuntime (key : SocketKey) (state : Option SocketRuntimeState) : IocpFiles :=
  { s with socketRuntime := Function.update s.socketRuntime key state }

/-- `socket_runtime.entry(key).or_default()`. -/
def runtimeOrDefault (key : SocketKey) : SocketRuntimeState :=
  (s.socketRuntime key).getD { lifecycle := .opened, inflight := 0 }

def markSocketRegistered (key : SocketKey) : IocpFiles :=
  s.setRuntime key (some { s.runtimeOrDefault key with
    lifecycle := if s.submissionsClosed then .closing else .opened })

/-- `begin_socket_cleanup`, but for its result. -/
def markClosing (key : SocketKey) : IocpFiles :=
  s.setRuntime key (some { s.runtimeOrDefault key with lifecycle := .closing })

/-- The result of `begin_socket_cleanup`. -/
def idle (key : SocketKey) : Bool := (s.runtimeOrDefault key).inflight == 0

def forgetSocketRuntime (key : SocketKey) : IocpFiles := s.setRuntime key none

def socketReadyForCleanup (key : SocketKey) : Bool :=
  match s.socketRuntime key with
  | none => false
  | some state => state.lifecycle == .closing && state.inflight == 0

/-- `try_acquire_socket_inflight_token`; `none` if it fails. -/
def tryAcquireSocketInflightToken (key : SocketKey) : Option IocpFiles :=
  if s.submissionsClosed then none
  else
    match s.socketRuntime key with
    | none => none
    | some state =>
        if state.lifecycle = .closing then none
        else if state.inflight + 1 < 2 ^ 32 then
          some (s.setRuntime key (some { state with inflight := state.inflight + 1 }))
        else none

/-- `release_socket_inflight_token`, which can fail and then leaves the runtime as it is. -/
def releaseSocketInflightToken (key : SocketKey) : IocpFiles :=
  match s.socketRuntime key with
  | none => s
  | some state =>
      if state.inflight = 0 then s
      else s.setRuntime key (some { state with inflight := state.inflight - 1 })

/-! ## The table -/

def nextFileGeneration : IocpFiles :=
  { s with
    fileGenerationCounter := advanceGeneration s.fileGenerationCounter
    drawn := s.drawn + 1 }

/-- An entry is dropped: an owned handle is closed. -/
def dropEntry (registered : Bool) : RegisteredHandle → IocpFiles
  | .weak _ => s
  | .owned raw id =>
      { s with
        closes := s.closes ++
          [{ raw := raw
             id := id
             registered := registered
             inflight := s.requests.countP fun r => decide (r.key = raw)
             own := s.requests.countP fun r => decide (r = ⟨raw, some id⟩) }] }

/-- `insert_registered`; the entry is dropped if it fails. -/
def insertRegistered (entry : RegisteredHandle) : IocpFiles × Option IoFd :=
  match s.freeSlots with
  | fixedIndex :: free =>
      match s.slots[fixedIndex]? with
      | none => (({ s with freeSlots := free }).dropEntry false entry, none)
      | some slot =>
          ({ s with
              freeSlots := free
              slots := s.slots.set fixedIndex { slot with handle := some entry } },
            some ⟨fixedIndex, slot.generation⟩)
  | [] =>
      if s.slots.length < 2 ^ 32 then
        ({ s.nextFileGeneration with
            slots := s.slots ++ [{ handle := some entry, generation := s.fileGenerationCounter }] },
          some ⟨s.slots.length, s.fileGenerationCounter⟩)
      else (s.dropEntry false entry, none)

/-- The slot is empty, and keeps its generation. -/
def emptySlot (idx : Nat) : IocpFiles :=
  { s with slots := s.slots.modify idx fun slot => { slot with handle := none } }

/-- `take_for_unregister`. -/
def takeForUnregister (fd : IoFd) : Option (RegisteredHandle × IocpFiles) :=
  match s.slots[fd.fixedIndex]? with
  | none => none
  | some slot =>
      if slot.generation ≠ fd.generation then none
      else slot.handle.map fun entry => (entry, s.emptySlot fd.fixedIndex)

/-- `take_owned_for_close`. -/
def takeOwnedForClose (fd : IoFd) : Except ResolveError (RegisteredHandle × IocpFiles) :=
  match s.slots[fd.fixedIndex]? with
  | none => .error .indexOutOfBounds
  | some slot =>
      if slot.generation ≠ fd.generation then .error .staleGeneration
      else
        match slot.handle with
        | some (.owned raw id) => .ok (.owned raw id, s.emptySlot fd.fixedIndex)
        | some (.weak _) => .error .notOwned
        | none => .error .invalidDescriptor

/-- `compact_tail_slots`. -/
def compactTailSlots : IocpFiles :=
  let slots := s.slots.rdropWhile fun slot => slot.handle.isNone
  if slots.length = s.slots.length then { s with slots := slots }
  else
    { s with
      slots := slots
      freeSlots := s.freeSlots.filter fun idx => decide (idx < slots.length) }

/-- `release_slot`. -/
def releaseSlot (idx : Nat) : IocpFiles :=
  compactTailSlots
    { s.nextFileGeneration with
      slots := s.slots.modify idx fun slot => { slot with generation := s.fileGenerationCounter }
      freeSlots := idx :: s.freeSlots }

def deferSocketCleanup (key : SocketKey) (entry : RegisteredHandle) : IocpFiles :=
  { s with deferredSocketCleanup := s.deferredSocketCleanup ++ [⟨key, entry⟩] }

/-- The `IoFd` does not belong to anybody any more. -/
def retire (fd : IoFd) : IocpFiles :=
  { s with outstanding := s.outstanding.erase fd, released := fd :: s.released }

/-! ## The operations -/

/-- `close_registered_owned_fd`. -/
def closeRegisteredOwnedFd (fd : IoFd) : IocpFiles × Except ResolveError IocpHandle :=
  match s.takeOwnedForClose fd with
  | .error e => (s, .error e)
  | .ok (entry, s) =>
      let s := (s.releaseSlot fd.fixedIndex).retire fd
      if entry.raw.isSocket then
        let s := s.markClosing entry.raw
        if s.idle entry.raw then
          ((s.forgetSocketRuntime entry.raw).dropEntry true entry, .ok entry.raw)
        else (s.deferSocketCleanup entry.raw entry, .ok entry.raw)
      else (s.dropEntry true entry, .ok entry.raw)

/-- One round of the loop of `unregister_files`. -/
def unregisterFile (fd : IoFd) : IocpFiles :=
  match s.takeForUnregister fd with
  | none => s
  | some (entry, s) =>
      if entry.raw.isSocket then
        let s := s.markClosing entry.raw
        if s.idle entry.raw then
          (((s.forgetSocketRuntime entry.raw).releaseSlot fd.fixedIndex).retire fd).dropEntry
            true entry
        else ((s.deferSocketCleanup entry.raw entry).releaseSlot fd.fixedIndex).retire fd
      else ((s.releaseSlot fd.fixedIndex).retire fd).dropEntry true entry

def unregisterFiles (fds : List IoFd) : IocpFiles := fds.foldl unregisterFile s

/-- One round of the loop of `drain_deferred_socket_cleanup`. -/
def drainOne : IocpFiles :=
  match s.deferredSocketCleanup with
  | [] => s
  | pending :: rest =>
      let s := { s with deferredSocketCleanup := rest }
      if s.socketReadyForCleanup pending.handle then
        (s.forgetSocketRuntime pending.handle).dropEntry true pending.entry
      else { s with deferredSocketCleanup := rest ++ [pending] }

def drainRounds : Nat → IocpFiles → IocpFiles
  | 0, s => s
  | rounds + 1, s => drainRounds rounds s.drainOne

/-- `drain_deferred_socket_cleanup`. -/
def drainDeferredSocketCleanup : IocpFiles := drainRounds s.deferredSocketCleanup.length s

/-- The owned handles among the files get their numbers. -/
def number : Nat → List (RegisterFd × Probe) → List (RegisteredHandle × Probe)
  | _, [] => []
  | next, (.borrowed raw, probe) :: files => (.weak raw, probe) :: number next files
  | next, (.owned raw, probe) :: files => (.owned raw next, probe) :: number (next + 1) files

/-- The canonical handle, without a generation of its own; `none` if the probe fails. -/
def canonical (raw : IocpHandle) (probe : Probe) : Option IocpHandle :=
  match raw, probe with
  | .socket handle generation, _ => some (.socket handle generation)
  | .file _, .failed => none
  | .file handle, .socket => some (.socket handle 0)
  | .file handle, .file => some (.file handle)

/-- A socket without a generation gets the next one. -/
def withGeneration (raw : IocpHandle) : IocpFiles × IocpHandle :=
  match raw with
  | .socket handle 0 =>
      ({ s with socketGenerationCounter := advanceGeneration s.socketGenerationCounter },
        .socket handle s.socketGenerationCounter)
  | raw => (s, raw)

def dropAll (entries : List RegisteredHandle) : IocpFiles :=
  entries.foldl (fun s entry => s.dropEntry false entry) s

/-- The first loop of `register_files`.  When it fails, everything that was handed over is
dropped. -/
def prepare : List (RegisteredHandle × Probe) → List RegisteredHandle → IocpFiles →
    IocpFiles × Option (List RegisteredHandle)
  | [], prepared, s => (s, some prepared)
  | (input, probe) :: files, prepared, s =>
      match canonical input.raw probe with
      | none => (s.dropAll (prepared ++ input :: files.map Prod.fst), none)
      | some raw =>
          let (s, raw) := s.withGeneration raw
          prepare files (prepared ++ [input.intoEntry raw]) s

/-- The `IoFd`s of a call that has failed are taken back. -/
def rollback : List IoFd → IocpFiles → IocpFiles
  | [], s => s
  | fd :: registered, s =>
      match s.takeForUnregister fd with
      | none => rollback registered s
      | some (entry, s) => rollback registered ((s.releaseSlot fd.fixedIndex).dropEntry false entry)

/-- The second loop of `register_files`. -/
def insertAll : List RegisteredHandle → List IoFd → IocpFiles → IocpFiles × Option (List IoFd)
  | [], registered, s => (s, some registered)
  | entry :: prepared, registered, s =>
      match s.insertRegistered entry with
      | (s, some fd) => insertAll prepared (registered ++ [fd]) s
      | (s, none) => ((rollback registered s).dropAll prepared, none)

/-- The third loop of `register_files`. -/
def markRegistered (prepared : List RegisteredHandle) : IocpFiles :=
  (prepared.filter fun entry => entry.raw.isSocket).foldl
    (fun s entry => s.markSocketRegistered entry.raw) s

/-- `register_files`. -/
def registerFiles (files : List (RegisterFd × Probe)) : IocpFiles × Option (List IoFd) :=
  let inputs := number s.received files
  let owned := inputs.filterMap fun input => input.1.owner
  match prepare inputs [] { s with received := s.received + owned.length } with
  | (s, none) => (s, none)
  | (s, some prepared) =>
      match insertAll prepared [] s with
      | (s, none) => (s, none)
      | (s, some fds) =>
          ({ s.markRegistered prepared with outstanding := s.outstanding ++ fds }, some fds)

/-- A submission gets its `SocketInflightToken`. -/
def acquire (fd : IoFd) : Option IocpFiles :=
  match resolveFdHandle s.slots fd with
  | .error _ => none
  | .ok entry =>
      (s.tryAcquireSocketInflightToken entry.raw).map fun s =>
        { s with requests := ⟨entry.raw, entry.owner⟩ :: s.requests }

/-- The token of a request is released. -/
def finish (r : SocketRequest) : Option IocpFiles :=
  if r ∈ s.requests then
    some { s.releaseSocketInflightToken r.key with requests := s.requests.erase r }
  else none

/-- `ensure_actor` adds an actor, and the runtime of the socket if there is none. -/
def ensureActor (fd : IoFd) : Option IocpFiles :=
  match resolveFdHandle s.slots fd with
  | .error _ => none
  | .ok entry =>
      if s.submissionsClosed then none
      else some (s.setRuntime entry.raw (some (s.runtimeOrDefault entry.raw)))

/-- `stop_accepting_new_submissions`. -/
def stopAcceptingNewSubmissions : IocpFiles :=
  { s with
    submissionsClosed := true
    socketRuntime := fun key =>
      (s.socketRuntime key).map fun state => { state with lifecycle := .closing } }

end IocpFiles

inductive IocpFilesEvent where
  | registerFiles (files : List (RegisterFd × Probe))
  | unregisterFiles (fds : List IoFd)
  | closeRegisteredOwnedFd (fd : IoFd)
  | drainDeferredSocketCleanup
  | acquire (fd : IoFd)
  | finish (r : SocketRequest)
  | ensureActor (fd : IoFd)
  | stopAcceptingNewSubmissions

/-- One step of the driver. -/
def IocpFiles.step (s : IocpFiles) : IocpFilesEvent → Option IocpFiles
  | .registerFiles files => some (s.registerFiles files).1
  | .unregisterFiles fds => some (s.unregisterFiles fds)
  | .closeRegisteredOwnedFd fd => some (s.closeRegisteredOwnedFd fd).1
  | .drainDeferredSocketCleanup => some s.drainDeferredSocketCleanup
  | .acquire fd => s.acquire fd
  | .finish r => s.finish r
  | .ensureActor fd => s.ensureActor fd
  | .stopAcceptingNewSubmissions => some s.stopAcceptingNewSubmissions

def IocpFilesStep (s : IocpFiles) (e : IocpFilesEvent) (s' : IocpFiles) : Prop := s.step e = some s'

/-! ## What the table promises -/

namespace IocpFiles

variable (s : IocpFiles)

/-- How often the owned handle is in the table or waits to be closed. -/
def keptTimes (id : Nat) : Nat :=
  (s.slots.countP fun slot => decide (slot.handle.bind RegisteredHandle.owner = some id)) +
    s.deferredSocketCleanup.countP fun pending => decide (pending.entry.owner = some id)

/-- The list of the free slots is right; different `IoFd`s are out, and those that are back do not
resolve before the counter of the generations wraps; every owned handle is kept or was closed,
once, and a socket was never closed with a request in flight. -/
structure Consistent : Prop where
  free_nodup : s.freeSlots.Nodup
  mem_free : ∀ idx, idx ∈ s.freeSlots ↔ ∃ slot, s.slots[idx]? = some slot ∧ slot.handle = none
  fds_nodup : s.outstanding.Nodup
  stale : s.drawn < 2 ^ 64 → ∀ fd ∈ s.released, ∀ entry, resolveFdHandle s.slots fd ≠ .ok entry
  once : ∀ id < s.received, s.keptTimes id + s.closes.countP (fun c => decide (c.id = id)) = 1
  counter : ∀ key, (s.runtimeOrDefault key).inflight =
    s.requests.countP fun r => decide (r.key = key)
  never_busy : ∀ c ∈ s.closes, c.raw.isSocket = true →
    c.own = 0 ∧ (c.registered = true → c.inflight = 0)

end IocpFiles

end Veloq.Iocp
