import Veloq.Driver.Completions
set_option autoImplicit false

/-!
# Driver: the backlog of the io_uring driver

`driver/submission.rs` and `driver/lifecycle.rs` of the io_uring backend: an operation whose SQE
does not fit into the submission queue stays in flight, in the state `Queued`, and its token waits
in `backlog` until a flush hands it over, it fails there, or it is cancelled.

What the vtable of an operation, the registration of its chunks and the ring answer to a
submission is one `Attempt`.  `ring` holds the tokens of the SQEs that the ring has taken and
not completed.  The last fields of the driver, and the number of an operation, only serve the
statements.  Diagnostics, the waker and the texts of the reports are left out.
-/

namespace Veloq.Driver

/-- `UringSubmissionState`. -/
inductive UringSubmissionState where
  | idle
  | queued
  | kernelSubmitted
  | timer
  deriving DecidableEq, Repr

/-- `UringOpState`. -/
structure UringOpState where
  timerId : Option Nat
  submissionState : UringSubmissionState
  deriving DecidableEq, Repr

/-- `UringOpState::new`. -/
instance : Inhabited UringOpState := ⟨⟨none, .idle⟩⟩

/-- `SubmissionStrategy`. -/
inductive SubmissionStrategy where
  | submitSqe
  | softwareTimer
  deriving DecidableEq, Repr

/-- `UringKernelOp`: the strategy of its vtable, and the number of its submission. -/
structure UringOp where
  strategy : SubmissionStrategy
  ident : Nat
  deriving DecidableEq, Repr

/-- `CancelMode`. -/
inductive CancelMode where
  | userVisible
  | abandon
  deriving DecidableEq, Repr

/-- `CancelRequest` and `PendingCancel`. -/
structure PendingCancel where
  target : OpToken
  mode : CancelMode
  deriving DecidableEq

/-- `CancelSubmitOutcome`. -/
inductive CancelSubmitOutcome where
  | completedLocally
  | submitted
  | queued
  | targetGone
  deriving DecidableEq, Repr

/-- What comes of making an SQE and of pushing it.  For a timer, whether there is a duration. -/
inductive Attempt where
  | pushed
  | full
  | failed (res : Int)
  deriving DecidableEq, Repr

/-- `CompletionSource`, with the mode of `UringSyntheticCompletion::Cancel`. -/
inductive CompletionSource where
  | kernel
  | timer
  | cancel (mode : CancelMode)
  | submissionFailure
  deriving DecidableEq, Repr

/-- How an operation has ended: its completion was recorded, or it was cleaned up. -/
inductive Fate where
  | recorded
  | cleanedUp
  deriving DecidableEq, Repr

/-- The fields of `UringDriver` that submissions and cancellations use. -/
structure UringDriver (Payload : Type) where
  ops : OpRegistry UringOp Payload UringOpState
  backlog : List OpToken
  pendingCancellations : List PendingCancel
  pendingCancelCqes : List (Nat × PendingCancel)
  nextCancelId : Nat
  wheel : List (Nat × OpToken)
  nextTimerId : Nat
  ring : List OpToken
  /-- The number of the next operation. -/
  submitted : Nat
  /-- The operations that were put into the backlog. -/
  deferred : List Nat
  /-- The operations whose SQE was pushed. -/
  pushed : List Nat
  completions : List (Nat × Fate)
  /-- The operations that their owners have given up. -/
  abandoned : List Nat

namespace UringDriver

variable {Payload : Type}

/-- A new driver, for `capacity` operations. -/
def new (capacity : Nat) : UringDriver Payload :=
  { ops := .new capacity
    backlog := []
    pendingCancellations := []
    pendingCancelCqes := []
    nextCancelId := 1
    wheel := []
    nextTimerId := 0
    ring := []
    submitted := 0
    deferred := []
    pushed := []
    completions := []
    abandoned := [] }

variable (s : UringDriver Payload)

/-! ## Slots -/

/-- `platform` of the slot of `token`. -/
def platform (token : OpToken) : UringOpState := (s.ops.locals token.index).platformData

/-- `platform_mut`. -/
def setPlatform (token : OpToken) (data : UringOpState) : UringDriver Payload :=
  { s with ops := s.ops.modifyLocal token fun slot => { slot with platformData := data } }

/-- The state of the slot of `token` is set. -/
def setState (token : OpToken) (state : SlotState) : UringDriver Payload :=
  { s with ops := s.ops.setSlot token.index { s.ops.slots token.index with state := state } }

/-! ## Completions -/

/-- `record_user_completion` and `finalize_waiting_checked`; the latter fails when there is
nothing to remove. -/
def record (token : OpToken) (op : UringOp) (res : Int) (flags : Nat) (payload : Payload) :
    UringDriver Payload × Bool :=
  let fate := if s.ops.recordOutcome token = .recordedUser then Fate.recorded else .cleanedUp
  let ops := s.ops.recordCompletion { token := token, res := res, flags := flags, payload := payload }
  ({ s with ops := ops.remove token, completions := (op.ident, fate) :: s.completions },
    ops.holds token)

/-- `run_completion_cleanup` and `finalize_waiting_checked` or `finalize_orphaned_checked`. -/
def cleanUp (token : OpToken) (op : UringOp) : UringDriver Payload × Bool :=
  ({ s with ops := s.ops.remove token, completions := (op.ident, .cleanedUp) :: s.completions },
    s.ops.holds token)

/-- `accept_user_event` with `UringCompletionHooks`: the driver, and whether it succeeds.  A hook
takes the operation and the payload out of the slot; `res` is what `on_complete` makes of the
result. -/
def acceptUserEvent (token : OpToken) (res : Int) (flags : Nat) (source : CompletionSource) :
    UringDriver Payload × Bool :=
  let slot := s.ops.locals token.index
  let taken := { s with ops := s.ops.modifyLocal token fun slot =>
    { slot with op := none, payload := none } }
  match s.ops.checkedSlotView token, slot.op, slot.payload with
  | some (.valid .inFlightWaiting _), some op, some payload =>
      if source = .cancel .abandon then taken.cleanUp token op
      else taken.record token op res flags payload
  | some (.valid .inFlightOrphaned _), some op, some _ => taken.cleanUp token op
  | some (.missing _ _), _, _ | some (.empty _), _, _ | some (.stale _), _, _ => (s, true)
  | _, _, _ => (s, false)

/-- `accept_completion` for a user completion of the kernel; an unknown token is an error. -/
def acceptKernel (raw : Nat) (res : Int) (flags : Nat) : UringDriver Payload × Bool :=
  match CompletionToken.classify raw with
  | .user token => s.acceptUserEvent token res flags .kernel
  | .control _ _ | .unknownControl _ _ => (s, false)

/-- `libc::ECANCELED`. -/
def ECANCELED : Int := 125

/-- `complete_local_cancel`. -/
def completeLocalCancel (token : OpToken) (mode : CancelMode) : UringDriver Payload × Bool :=
  s.acceptUserEvent token (-ECANCELED) 0 (.cancel mode)

/-! ## Submission -/

/-- `submit_from_slot_raw` on a reserved slot that has its operation; `none` is an error, after
which the guard has put the slot back. -/
def submitFromSlot (token : OpToken) (attempt : Attempt) : UringDriver Payload × Option Bool :=
  let slot := s.ops.locals token.index
  let started := s.setState token .inFlightWaiting
  match slot.op, slot.payload, attempt with
  | some _, some _, .failed _ => (s, none)
  | some ⟨.submitSqe, ident⟩, some _, .pushed =>
      ({ started.setPlatform token { slot.platformData with submissionState := .kernelSubmitted }
          with ring := s.ring ++ [token], pushed := ident :: s.pushed }, some true)
  | some ⟨.submitSqe, ident⟩, some _, .full =>
      ({ started.setPlatform token { slot.platformData with submissionState := .queued } with
          deferred := ident :: s.deferred }, some false)
  | some ⟨.softwareTimer, _⟩, some _, _ =>
      ({ started.setPlatform token { timerId := some s.nextTimerId, submissionState := .timer }
          with wheel := (s.nextTimerId, token) :: s.wheel, nextTimerId := s.nextTimerId + 1 },
        some true)
  | _, _, _ => (s, none)

/-- `push_backlog`. -/
def pushBacklog (token : OpToken) : UringDriver Payload :=
  { s with backlog := s.backlog ++ [token] }

/-- `pop_backlog`. -/
def popBacklog : UringDriver Payload := { s with backlog := s.backlog.tail }

/-- `remove_backlog_token`. -/
def removeBacklogToken (token : OpToken) : UringDriver Payload :=
  { s with backlog := s.backlog.erase token }

/-- `submit_sqe_internal` and `submit_timer_internal`, which differ in the texts of their reports
only: whether the operation is ready or pending, or `none` when it has failed and was taken back. -/
def submitInternal (token : OpToken) (op : UringOp) (attempt : Attempt) :
    UringDriver Payload × Option Bool :=
  match s.ops.checkedSlotView token with
  | some (.valid .reserved _) =>
      let stored := { s with ops := s.ops.modifyLocal token fun slot => { slot with op := some op } }
      match stored.submitFromSlot token attempt with
      | (s, some true) => (s, some true)
      | (s, some false) => (s.pushBacklog token, some false)
      | (s, none) =>
          ({ s with ops := s.ops.modifyLocal token fun slot => { slot with op := none } }, none)
  | _ => (s, none)

/-- `OpToken::from_registry_parts`. -/
def tokenOf (handle : OpRegistry.OpHandle) : Option OpToken :=
  if h : handle.index < indexLimit ∧ handle.generation < 2 ^ 32 then
    some ⟨handle.index, handle.generation, h.1, h.2⟩
  else
    none

/-- `recover_payload`. -/
def recoverPayload (token : OpToken) : UringDriver Payload :=
  let taken := if s.ops.isCurrentActive token then
    s.ops.modifyLocal token fun slot => { slot with payload := none } else s.ops
  { s with ops := taken.remove token }

/-- A submission as `LocalOp::poll` and `submit_detached` make it: `reserve_op`, `set_payload`,
`submit`, and then `persist` or `recover_payload`. -/
def submit (strategy : SubmissionStrategy) (payload : Payload) (attempt : Attempt) :
    Option (UringDriver Payload) :=
  match s.ops.alloc default with
  | none => none
  | some (ops, .error _) => some { s with ops := ops }
  | some (ops, .ok handle) =>
      match tokenOf handle with
      | none => some { s with ops := ops }
      | some token =>
          let reserved := { s with ops := ops.slotSetPayload token payload }
          match reserved.submitInternal token ⟨strategy, s.submitted⟩ attempt with
          | (s, some _) => some { s with submitted := s.submitted + 1 }
          | (s, none) => some (s.recoverPayload token)

/-! ## Cancellation -/

/-- `next_cancel_completion_id`, with the tries that are left. -/
def nextCancelCompletionId : Nat → UringDriver Payload → UringDriver Payload × Option Nat
  | 0, s => (s, none)
  | tries + 1, s =>
      let id := s.nextCancelId
      let next := (id + 1) % 2 ^ 16
      let s := { s with nextCancelId := if next = 0 then 1 else next }
      if s.pendingCancelCqes.any fun entry => entry.1 == id then nextCancelCompletionId tries s
      else (s, some id)

/-- `try_submit_cancel_request`; `room` tells whether the SQE can be pushed. -/
def trySubmitCancelRequest (request : PendingCancel) (room : Bool) : UringDriver Payload × Bool :=
  match nextCancelCompletionId (2 ^ 16 - 1) s with
  | (s, none) => (s, false)
  | (s, some id) =>
      if room then ({ s with pendingCancelCqes := (id, request) :: s.pendingCancelCqes }, true)
      else (s, false)

/-- `submit_cancel_request`. -/
def submitCancelRequest (request : PendingCancel) (room : Bool) :
    UringDriver Payload × Option CancelSubmitOutcome :=
  match s.trySubmitCancelRequest request room with
  | (s, true) => (s, some .submitted)
  | (s, false) =>
      ({ s with pendingCancellations := s.pendingCancellations ++ [request] }, some .queued)

/-- `complete_local_cancel`, and what is answered to the request. -/
def cancelLocally (token : OpToken) (mode : CancelMode) :
    UringDriver Payload × Option CancelSubmitOutcome :=
  match s.completeLocalCancel token mode with
  | (s, true) => (s, some .completedLocally)
  | (s, false) => (s, none)

/-- The part of `cancel_op_internal` that the waiting and the orphaned slots share: a queued
operation leaves the backlog and a timer leaves the wheel, and both end here; the rest is
returned to the caller as `none`. -/
def cancelInFlight (token : OpToken) (mode : CancelMode) :
    Option (UringDriver Payload × Option CancelSubmitOutcome) :=
  if (s.platform token).submissionState = .queued then
    some ((s.removeBacklogToken token).cancelLocally token mode)
  else
    match (s.platform token).timerId with
    | some tid =>
        let taken := s.setPlatform token { s.platform token with timerId := none }
        some ({ taken with wheel := s.wheel.filter fun entry => entry.1 ≠ tid }.cancelLocally
          token mode)
    | none => none

/-- `cancel_op_internal`; no outcome is an error.  A reserved slot with an operation is no valid
view, so only its removal is left. -/
def cancelOp (request : PendingCancel) (room : Bool) :
    UringDriver Payload × Option CancelSubmitOutcome :=
  match s.ops.checkedSlotView request.target with
  | none => (s, none)
  | some (.valid .reserved _) =>
      if (s.ops.locals request.target.index).op.isSome then
        (s.setState request.target .inFlightWaiting).cancelLocally request.target request.mode
      else
        ({ s with ops := s.ops.remove request.target }, some .completedLocally)
  | some (.valid .inFlightWaiting _) =>
      match s.cancelInFlight request.target request.mode with
      | some result => result
      | none =>
          if request.mode = .abandon then
            (s.setState request.target .inFlightOrphaned).submitCancelRequest request room
          else
            s.submitCancelRequest request room
  | some (.valid .inFlightOrphaned _) =>
      match s.cancelInFlight request.target .abandon with
      | some result => result
      | none => s.submitCancelRequest request room
  | some (.missing _ _) | some (.empty _) | some (.stale _) => (s, some .targetGone)

/-- `flush_cancellations`, with the requests that may still be looked at; `room` tells which SQEs
can be pushed. -/
def flushCancellations (room : PendingCancel → Bool) : Nat → UringDriver Payload →
    UringDriver Payload × Bool
  | 0, s => (s, true)
  | limit + 1, s =>
      match s.pendingCancellations with
      | [] => (s, true)
      | request :: rest =>
          match s.ops.checkedSlotView request.target with
          | none => (s, false)
          | some (.valid _ _) =>
              match s.trySubmitCancelRequest request (room request) with
              | (s, true) =>
                  flushCancellations room limit { s with pendingCancellations := rest }
              | (s, false) => (s, true)
          | some (.missing _ _) | some (.empty _) | some (.stale _) =>
              flushCancellations room limit { s with pendingCancellations := rest }

/-! ## The backlog -/

/-- `uring_report_to_event_res` of an `InvalidState` report. -/
def invalidStateRes : Int := -5

/-- `submit_queued_from_slot_raw`. -/
def submitQueuedFromSlot (token : OpToken) (attempt : Attempt) :
    UringDriver Payload × Except Int Bool :=
  let slot := s.ops.locals token.index
  if slot.platformData.submissionState ≠ .queued then
    (s, .ok true)
  else
    match slot.op, slot.payload, attempt with
    | some ⟨.submitSqe, _⟩, some _, .failed res => (s, .error res)
    | some ⟨.submitSqe, ident⟩, some _, .pushed =>
        ({ s.setPlatform token { slot.platformData with submissionState := .kernelSubmitted }
            with ring := s.ring ++ [token], pushed := ident :: s.pushed }, .ok true)
    | some ⟨.submitSqe, _⟩, some _, .full =>
        (s.setPlatform token { slot.platformData with submissionState := .queued }, .ok false)
    | _, _, _ => (s, .error invalidStateRes)

/-- `BacklogAction`. -/
inductive BacklogAction where
  | submitReserved
  | submitQueued
  | cancelQueued
  | cancelKernel
  | drop
  deriving DecidableEq, Repr

/-- What `flush_backlog` does with the front of the backlog; `none` is an error. -/
def backlogAction (token : OpToken) : Option BacklogAction :=
  match s.ops.checkedSlotView token with
  | none => none
  | some (.valid .inFlightOrphaned _) =>
      if (s.platform token).submissionState = .queued then some .cancelQueued
      else some .cancelKernel
  | some (.valid .reserved _) =>
      if (s.ops.locals token.index).op.isSome then some .submitReserved else some .drop
  | some (.valid .inFlightWaiting _) =>
      if (s.platform token).submissionState = .queued then some .submitQueued else some .drop
  | some (.missing _ _) | some (.empty _) | some (.stale _) => some .drop

/-- How the loop of `flush_backlog` goes on. -/
inductive Flow where
  | next
  | stop
  | error
  deriving DecidableEq, Repr

/-- One round of `flush_backlog`, with `token` at the front. -/
def flushFront (token : OpToken) (attempt : Attempt) : UringDriver Payload × Flow :=
  match s.backlogAction token with
  | none => (s, .error)
  | some .cancelQueued =>
      match s.popBacklog.completeLocalCancel token .abandon with
      | (s, true) => (s, .next)
      | (s, false) => (s, .error)
  | some .cancelKernel =>
      match s.popBacklog.cancelOp ⟨token, .abandon⟩ (attempt = .pushed) with
      | (s, some _) => (s, .next)
      | (s, none) => (s, .error)
  | some .drop => (s.popBacklog, .next)
  | some .submitReserved =>
      match s.submitFromSlot token attempt with
      | (s, some true) => (s.popBacklog, .next)
      | (s, some false) => (s, .stop)
      | (s, none) => (s.popBacklog, .next)
  | some .submitQueued =>
      match s.submitQueuedFromSlot token attempt with
      | (s, .ok true) => (s.popBacklog, .next)
      | (s, .ok false) => (s, .stop)
      -- the result of `complete_queued_submission_error` is not looked at
      | (s, .error res) => ((s.popBacklog.acceptUserEvent token res 0 .submissionFailure).1, .next)

/-- The loop of `flush_backlog`; every round that goes on shortens the backlog. -/
def flushLoop (attempt : OpToken → Attempt) : Nat → UringDriver Payload →
    UringDriver Payload × Bool
  | 0, s => (s, true)
  | rounds + 1, s =>
      match s.backlog with
      | [] => (s, true)
      | token :: _ =>
          match s.flushFront token (attempt token) with
          | (s, .next) => flushLoop attempt rounds s
          | (s, .stop) => (s, true)
          | (s, .error) => (s, false)

/-- `flush_backlog`; whether it succeeds.  A token is tried at most once in a flush. -/
def flushBacklog (attempt : OpToken → Attempt) : UringDriver Payload × Bool :=
  flushLoop attempt s.backlog.length s

/-! ## Runs -/

/-- The owner of the operation `token` gives it up; only the books change. -/
def giveUp (token : OpToken) : UringDriver Payload :=
  match s.ops.checkedSlotView token, (s.ops.locals token.index).op with
  | some (.valid .inFlightWaiting _), some op | some (.valid .inFlightOrphaned _), some op =>
      { s with abandoned := op.ident :: s.abandoned }
  | _, _ => s

end UringDriver

/-- What happens to a driver between two of its calls, or in one. -/
inductive UringEvent (Payload : Type) where
  | submit (strategy : SubmissionStrategy) (payload : Payload) (attempt : Attempt)
  | cancel (request : PendingCancel) (room : Bool)
  | flushCancellations (room : PendingCancel → Bool)
  | flushBacklog (attempt : OpToken → Attempt)
  /-- The completion of the SQE at a position of the ring. -/
  | completion (position : Nat) (res : Int) (flags : Nat)
  /-- The completion of an `AsyncCancel`. -/
  | cancelCompletion (id : Nat)
  /-- The timer at a position of the wheel is due. -/
  | timer (position : Nat)
  /-- A future takes its record. -/
  | take (token : OpToken)
  /-- A future is dropped: `mark_orphaned`. -/
  | orphan (token : OpToken)

namespace UringDriver

variable {Payload : Type} (s : UringDriver Payload)

/-- One event. -/
def step : UringEvent Payload → Option (UringDriver Payload)
  | .submit strategy payload attempt => s.submit strategy payload attempt
  | .cancel request room =>
      let asked := if request.mode = .abandon then s.giveUp request.target else s
      some (asked.cancelOp request room).1
  | .flushCancellations room =>
      some (flushCancellations room s.pendingCancellations.length s).1
  | .flushBacklog attempt => some (s.flushBacklog attempt).1
  | .completion position res flags =>
      match s.ring[position]? with
      | some token =>
          let completed := { s with ring := s.ring.eraseIdx position }
          some (completed.acceptKernel (CompletionToken.user token) res flags).1
      | none => none
  | .cancelCompletion id =>
      some { s with pendingCancelCqes := s.pendingCancelCqes.filter fun entry => entry.1 ≠ id }
  | .timer position =>
      match s.wheel[position]? with
      | some (_, token) =>
          some ({ s with wheel := s.wheel.eraseIdx position }.acceptUserEvent token 0 0 .timer).1
      | none => none
  | .take token => some { s with ops := (s.ops.tryTakeRecord token).1 }
  | .orphan token =>
      let abandoned := s.giveUp token
      some { abandoned with ops := abandoned.ops.markOrphaned token }

end UringDriver

/-- The events as a relation. -/
def UringStep {Payload : Type} (s : UringDriver Payload) (e : UringEvent Payload)
    (s' : UringDriver Payload) : Prop :=
  s.step e = some s'

end Veloq.Driver
