import Veloq.Driver.Registry
set_option autoImplicit false

/-!
# Driver: completion packets and their cleanup

`driver/completion`: the flow of a user completion through the hooks of a backend
(`flow.rs`), the completion cells of the slots (`table.rs`), the cleanup guards
(`types/record.rs`) and the futures that consume the records (`op/future.rs`).

The registry keeps the event and the payload of a `CompletionData::User`; `attached` is the
rest of it, the detail and the guard.  A packet has a number, which is also the number of the
cleanup action its guard is armed with; `delivered`, `discarded` and `ran` list what has
become of them.  The operations of this module are whole calls, one after the other.
-/

namespace Veloq.Driver

variable {Op Payload Data Detail : Type}

/-! ## Cleanup guards -/

/-- `CompletionCleanupGuard`: the number of the action, if it is armed. -/
structure CompletionCleanupGuard where
  cleanup : Option Nat
  deriving DecidableEq, Repr

namespace CompletionCleanupGuard

/-- `disarm`. -/
def disarm (_ : CompletionCleanupGuard) : CompletionCleanupGuard := ⟨none⟩

/-- `run`: the guard afterwards, and the actions that have run. -/
def run (guard : CompletionCleanupGuard) (ran : List Nat) : CompletionCleanupGuard × List Nat :=
  match guard.cleanup with
  | none => (guard, ran)
  | some action => (⟨none⟩, ran ++ [action])

/-- The destructor. -/
def drop (guard : CompletionCleanupGuard) (ran : List Nat) : List Nat := (guard.run ran).2

/-- What has run may be dropped. -/
theorem drop_run (guard : CompletionCleanupGuard) (ran : List Nat) :
    (guard.run ran).1.drop (guard.run ran).2 = guard.drop ran := by
  obtain ⟨cleanup⟩ := guard
  cases cleanup with
  | none => rfl
  | some action => rfl

end CompletionCleanupGuard

/-! ## Packets and records -/

/-- `CompletionPacket`. -/
structure CompletionPacket (Payload Detail : Type) where
  id : Nat
  token : OpToken
  res : Int
  flags : Nat
  payload : Payload
  detail : Option Detail
  cleanup : CompletionCleanupGuard

/-- The detail and the guard of a `CompletionData::User`. -/
structure Attached (Detail : Type) where
  id : Nat
  detail : Option Detail
  cleanup : CompletionCleanupGuard

/-- What a consumer has got: `Op::complete` of the payload and of `detail` or `res`. -/
structure Delivery (Payload Detail : Type) where
  consumer : OpToken
  token : OpToken
  id : Nat
  res : Int
  payload : Payload
  detail : Option Detail

/-- `RecordCompletionOutcome`. -/
inductive RecordCompletionOutcome where
  | recordedUser
  | orphanedDropped
  | missing
  | stale
  | nonActive
  deriving DecidableEq, Repr

/-- `PollRecordResult` and the report of an empty record. -/
inductive PollRecordResult where
  | ready
  | unavailable
  | pending
  | corrupt
  deriving DecidableEq, Repr

/-- What `record_completion` finds. -/
def OpRegistry.recordOutcome (r : OpRegistry Op Payload Data) (token : OpToken) :
    RecordCompletionOutcome :=
  if r.capacity ≤ token.index then
    .missing
  else
    let slot := r.slots token.index
    if token.generation < slot.generation then
      .stale
    else if slot.generation < token.generation then
      if slot.state = .idle then .nonActive else .stale
    else
      match slot.state with
      | .inFlightWaiting => .recordedUser
      | .inFlightOrphaned => .orphanedDropped
      -- a finalizing slot is waited for; between whole calls there is none
      | .idle | .reserved | .inFlightReady | .finalizing => .nonActive

/-- What `try_take_record` finds. -/
def OpRegistry.pollOutcome (r : OpRegistry Op Payload Data) (token : OpToken) : PollRecordResult :=
  if r.capacity ≤ token.index then
    .unavailable
  else
    let slot := r.slots token.index
    if slot.generation ≠ token.generation then
      .unavailable
    else
      match slot.state with
      | .inFlightReady => .ready
      | .inFlightWaiting | .finalizing => .pending
      | .idle | .reserved | .inFlightOrphaned => .unavailable

/-! ## Hooks -/

/-- `CompletionHookOutcome`; `armed` tells whether the guard has an action. -/
inductive CompletionHookOutcome (Payload Detail : Type) where
  | user (token : OpToken) (res : Int) (flags : Nat) (payload : Payload) (detail : Option Detail)
      (armed : Bool)
  | cleanup (armed : Bool)
  | anomaly
  | controlHandled
  | ignore

/-- What the hook of a backend does with a completion: what it leaves in the slot, what it
returns, if it does not fail, and whether `finish_backend_effect` succeeds. -/
structure Hook (Op Payload Detail : Type) where
  op : Option Op
  payload : Option Payload
  outcome : Option (CompletionHookOutcome Payload Detail)
  effectOk : Bool

/-- `FinalizeAction`. -/
inductive FinalizeAction where
  | waiting (token : OpToken)
  | orphaned (token : OpToken)

/-- `DetachedOp` and `LocalOp` after their submission. -/
inductive OpFuture where
  | absent
  | pending (token : OpToken) (detached : Bool)
  | completed (token : OpToken) (detached : Bool)
  | dropped

/-- The registry, the rest of its cells, the futures and what has become of the packets. -/
structure Completions (Op Payload Data Detail : Type) where
  registry : OpRegistry Op Payload Data
  attached : Nat → Option (Attached Detail)
  futures : Nat → OpFuture
  /-- The future of the last submission of a slot. -/
  owner : Nat → Nat
  /-- The number of the next guard. -/
  made : Nat
  /-- The guards that were made with an action. -/
  armed : List Nat
  /-- The packets that were given to `record_user_completion`. -/
  handed : List Nat
  delivered : List (Delivery Payload Detail)
  /-- The packets that were rejected, discarded or could not be projected. -/
  discarded : List Nat
  /-- The cleanup actions that have run. -/
  ran : List Nat

namespace Completions

/-- No operation has been submitted. -/
def new [Inhabited Data] (capacity : Nat) : Completions Op Payload Data Detail :=
  { registry := .new capacity
    attached := fun _ => none
    futures := fun _ => .absent
    owner := fun _ => 0
    made := 0
    armed := []
    handed := []
    delivered := []
    discarded := []
    ran := [] }

variable (s : Completions Op Payload Data Detail)

/-! ## The completion table -/

/-- A new guard. -/
def guard (armed : Bool) : CompletionCleanupGuard := ⟨if armed then some s.made else none⟩

/-- After a new guard was made. -/
def counted (armed : Bool) : Completions Op Payload Data Detail :=
  { s with made := s.made + 1, armed := if armed then s.armed ++ [s.made] else s.armed }

/-- The rest of a cell is overwritten, and what was there is dropped. -/
def store (idx : Nat) (cell : Option (Attached Detail)) : Completions Op Payload Data Detail :=
  let stored := { s with attached := Function.update s.attached idx cell }
  match s.attached idx with
  | some old =>
      { stored with discarded := s.discarded ++ [old.id], ran := old.cleanup.drop s.ran }
  | none => stored

/-- `record_user_completion`: a rejected packet is cleaned up, then dropped. -/
def recordUserCompletion (packet : CompletionPacket Payload Detail) :
    Completions Op Payload Data Detail :=
  let s := { s with handed := s.handed ++ [packet.id] }
  if s.registry.recordOutcome packet.token = .recordedUser then
    { s.store packet.token.index (some ⟨packet.id, packet.detail, packet.cleanup⟩) with
      registry := s.registry.recordCompletion
        { token := packet.token, res := packet.res, flags := packet.flags,
          payload := packet.payload } }
  else
    let (cleanup, ran) := packet.cleanup.run s.ran
    { s with discarded := s.discarded ++ [packet.id], ran := cleanup.drop ran }

/-- A record is taken out of its cell. -/
def takeCell (token : OpToken) :
    Completions Op Payload Data Detail × Option (CompletionRecord Payload × Attached Detail) :=
  let (registry, record) := s.registry.tryTakeRecord token
  let taken := { s with
    registry := registry, attached := Function.update s.attached token.index none }
  match record, s.attached token.index with
  | some record, some rest => (taken, some (record, rest))
  | _, _ => (taken, none)

/-- `from_completion_record`; `mismatch` tells that the payload is of another type. -/
def fromCompletionRecord (consumer : OpToken) (record : CompletionRecord Payload)
    (rest : Attached Detail) (mismatch : Bool) : Completions Op Payload Data Detail :=
  if mismatch then
    let (cleanup, ran) := rest.cleanup.run s.ran
    { s with discarded := s.discarded ++ [rest.id], ran := cleanup.drop ran }
  else
    { s with
      delivered := s.delivered ++
        [⟨consumer, record.token, rest.id, record.res, record.payload, rest.detail⟩]
      ran := rest.cleanup.disarm.drop s.ran }

/-- `poll_table_once`: `try_take_record`, then `from_completion_record`. -/
def pollTableOnce (token : OpToken) (mismatch : Bool) :
    Completions Op Payload Data Detail × PollRecordResult :=
  match s.registry.pollOutcome token with
  | .ready =>
      match s.takeCell token with
      | (taken, some (record, rest)) => (taken.fromCompletionRecord token record rest mismatch, .ready)
      | (taken, none) => (taken, .corrupt)
  | outcome => (s, outcome)

/-- `discard_ready_record`. -/
def discardReadyRecord (token : OpToken) : Completions Op Payload Data Detail :=
  if s.registry.pollOutcome token = .ready then
    match s.takeCell token with
    | (taken, some (_, rest)) =>
        let (cleanup, ran) := rest.cleanup.run taken.ran
        { taken with discarded := taken.discarded ++ [rest.id], ran := cleanup.drop ran }
    | (taken, none) => taken
  else
    s

/-- `mark_orphaned`. -/
def markOrphaned (token : OpToken) : Completions Op Payload Data Detail :=
  if s.registry.pollOutcome token = .ready then s.discardReadyRecord token
  else { s with registry := s.registry.markOrphaned token }

/-! ## The flow of a completion -/

/-- `finalize_waiting_checked` and `finalize_orphaned_checked`; a failure is reported. -/
def finalize [Inhabited Data] (token : OpToken) : Completions Op Payload Data Detail :=
  { s with registry := s.registry.remove token }

/-- `finish_hook_outcome`. -/
def finishHookOutcome [Inhabited Data] (effectOk : Bool)
    (outcome : CompletionHookOutcome Payload Detail) (finalize : Option FinalizeAction) :
    Completions Op Payload Data Detail :=
  match outcome with
  | .user token res flags payload detail armed =>
      let made := s.counted armed
      let cleanup := s.guard armed
      if effectOk then
        let recorded := made.recordUserCompletion
          { id := s.made, token := token, res := res, flags := flags, payload := payload,
            detail := detail, cleanup := cleanup }
        match finalize with
        | some (.waiting event) => recorded.finalize event
        | some (.orphaned _) | none => recorded.finalize token
      else
        { made with ran := cleanup.drop made.ran }
  | .cleanup armed =>
      let made := s.counted armed
      let cleanup := s.guard armed
      if effectOk then
        let (cleanup, ran) := cleanup.run made.ran
        let cleaned := { made with ran := cleanup.drop ran }
        match finalize with
        | some (.waiting event) | some (.orphaned event) => cleaned.finalize event
        | none => cleaned
      else
        { made with ran := cleanup.drop made.ran }
  | .anomaly | .controlHandled | .ignore => s

/-- The hook has had the slot. -/
def hooked (token : OpToken) (hook : Hook Op Payload Detail) :
    Completions Op Payload Data Detail :=
  { s with registry := s.registry.modifyLocal token fun slot =>
      { slot with op := hook.op, payload := hook.payload } }

/-- `accept_user_event`. -/
def acceptUserEvent [Inhabited Data] (token : OpToken) (hook : Hook Op Payload Detail) :
    Completions Op Payload Data Detail :=
  match s.registry.checkedSlotView token with
  | some (.valid .inFlightWaiting _) =>
      match hook.outcome with
      | some outcome =>
          (s.hooked token hook).finishHookOutcome hook.effectOk outcome (some (.waiting token))
      | none => s.hooked token hook
  | some (.valid .inFlightOrphaned _) =>
      match hook.outcome with
      | some outcome =>
          (s.hooked token hook).finishHookOutcome hook.effectOk outcome (some (.orphaned token))
      | none => s.hooked token hook
  | some (.missing _ _) | some (.empty _) | some (.stale _) =>
      match hook.outcome with
      | some outcome => s.finishHookOutcome hook.effectOk outcome none
      | none => s
  | some (.valid .reserved _) | none => s

/-! ## Futures -/

def setFuture (f : Nat) (future : OpFuture) : Completions Op Payload Data Detail :=
  { s with futures := Function.update s.futures f future }

/-- A submission; if it succeeds there is a future for it. -/
def submit (f : Nat) (detached : Bool) (token : OpToken) (op : Op) (payload : Payload)
    (accepted : Bool) : Completions Op Payload Data Detail :=
  let submitted := { s with registry := s.registry.submit token op payload accepted }
  match (s.registry.slotSetPayload token payload).checkedSlotView token with
  | some (.valid .reserved _) =>
      if accepted then
        { submitted.setFuture f (.pending token detached) with
          owner := Function.update s.owner token.index f }
      else
        submitted
  | _ => submitted

/-- `poll` of a future; a `LocalOp` is not polled after it has completed. -/
def poll (f : Nat) (mismatch : Bool) : Option (Completions Op Payload Data Detail) :=
  let once (token : OpToken) (detached : Bool) :=
    match s.pollTableOnce token mismatch with
    | (polled, .pending) => polled
    | (polled, _) => polled.setFuture f (.completed token detached)
  match s.futures f with
  | .pending token detached => some (once token detached)
  | .completed token true => some (once token true)
  | _ => none

/-- The destructor of a future; a `LocalOp` that has completed does nothing. -/
def dropFuture (f : Nat) : Option (Completions Op Payload Data Detail) :=
  match s.futures f with
  | .pending token _ | .completed token true =>
      some ((s.markOrphaned token).setFuture f .dropped)
  | .completed _ false => some (s.setFuture f .dropped)
  | .absent | .dropped => none

end Completions

/-- What the driver, the futures and other consumers do. -/
inductive CompletionEvent (Op Payload Data Detail : Type) where
  | alloc (data : Data)
  | submit (f : Nat) (detached : Bool) (token : OpToken) (op : Op) (payload : Payload)
      (accepted : Bool)
  /-- `accept_completion` of a user completion. -/
  | accept (token : OpToken) (hook : Hook Op Payload Detail)
  | record (token : OpToken) (res : Int) (flags : Nat) (payload : Payload)
      (detail : Option Detail) (armed : Bool)
  | take (token : OpToken) (mismatch : Bool)
  | poll (f : Nat) (mismatch : Bool)
  | discard (token : OpToken)
  | orphan (token : OpToken)
  | remove (token : OpToken)
  | drop (f : Nat)

namespace Completions

variable [Inhabited Data] (s : Completions Op Payload Data Detail)

/-- One call, run to its end. -/
def step : CompletionEvent Op Payload Data Detail → Option (Completions Op Payload Data Detail)
  | .alloc data => (s.registry.alloc data).map fun allocated => { s with registry := allocated.1 }
  | .submit f detached token op payload accepted =>
      match s.futures f with
      | .absent => some (s.submit f detached token op payload accepted)
      | _ => none
  | .accept token hook => some (s.acceptUserEvent token hook)
  | .record token res flags payload detail armed =>
      some ((s.counted armed).recordUserCompletion
        { id := s.made, token := token, res := res, flags := flags, payload := payload,
          detail := detail, cleanup := s.guard armed })
  | .take token mismatch => some (s.pollTableOnce token mismatch).1
  | .poll f mismatch => s.poll f mismatch
  | .discard token => some (s.discardReadyRecord token)
  | .orphan token => some (s.markOrphaned token)
  | .remove token => some (s.finalize token)
  | .drop f => s.dropFuture f

end Completions

/-- The calls as a relation. -/
def CompletionStep [Inhabited Data] (s : Completions Op Payload Data Detail)
    (e : CompletionEvent Op Payload Data Detail) (s' : Completions Op Payload Data Detail) : Prop :=
  s.step e = some s'

end Veloq.Driver
