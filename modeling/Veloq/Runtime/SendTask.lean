import Mathlib.Logic.Function.Basic
import Veloq.Foundation.Run
set_option autoImplicit false

/-!
# Runtime: the life of a `Send` task

`task/header.rs`, `task.rs` and `runtime/shared.rs`: the atomic steps that wakers and
workers take on the header of one `Send` task.  A waker sets `QUEUED`, counts a reference
and pushes a queue entry.  A worker that pops an entry clears `QUEUED`, gives the
reference of the entry back and polls the task, unless another worker does; the worker
whose poll completes the task gives the task's own reference back.  Whoever gives the
last reference back acknowledges the completion to the scope.

Wakers and workers are numbered; a worker that drives its queues from inside a poll acts
under several numbers.  All queues together are one number of entries.
-/

namespace Veloq.Runtime.SendTask

open Foundation

/-- Where a waker is in `enqueue_send`. -/
inductive WakePc where
  | idle
  /-- `QUEUED` is set, `ref_count.fetch_add` is next. -/
  | count
  /-- `try_mark_queued` has returned true, the push is next. -/
  | push
  deriving DecidableEq, Repr

/-- Where a worker is with an entry of the task. -/
inductive WorkPc where
  | idle
  /-- `clear_queued`: `state.fetch_and` is next. -/
  | clear
  /-- `clear_queued`: `ref_count.fetch_sub` is next. -/
  | unref
  /-- `try_enter_poll` is next. -/
  | enter
  /-- In the loop of `poll_task_internal`. -/
  | poll
  /-- The poll was pending, `exit_poll_to_pending` is next. -/
  | exit
  /-- The poll has a result, `mark_completed_and_notify` is next. -/
  | complete
  /-- `decrement_ref_count` is next. -/
  | release
  /-- `exit_poll` is next; `last`: `should_acknowledge`. -/
  | leave (last : Bool)
  /-- `acknowledge_completion` is next. -/
  | acknowledge
  deriving DecidableEq, Repr

/-- The header of the task, the entries for it in all queues, and everybody who acts on it.
`acknowledgements` counts the calls of `acknowledge_completion`. -/
structure State where
  completed : Bool
  queued : Bool
  polling : Bool
  woken : Bool
  acked : Bool
  refCount : Nat
  entries : Nat
  acknowledgements : Nat
  wakers : Nat → WakePc
  workers : Nat → WorkPc

/-- The steps. -/
inductive Event where
  /-- The state exchange of `try_mark_queued`. -/
  | mark (waker : Nat)
  /-- The reference of the entry, then its push. -/
  | wake (waker : Nat)
  /-- A worker pops an entry. -/
  | pop (worker : Nat)
  /-- The poll returns; `ready`: with a value, a panic or a cancellation. -/
  | poll (worker : Nat) (ready : Bool)
  /-- The next step of a worker outside the poll. -/
  | advance (worker : Nat)
  deriving DecidableEq, Repr

namespace State

variable (s : State)

/-- `new_placeholder`: the task holds one reference to itself. -/
def init : State where
  completed := false
  queued := false
  polling := false
  woken := false
  acked := false
  refCount := 1
  entries := 0
  acknowledgements := 0
  wakers _ := .idle
  workers _ := .idle

def setWaker (k : Nat) (pc : WakePc) : State :=
  { s with wakers := Function.update s.wakers k pc }

def setWorker (r : Nat) (pc : WorkPc) : State :=
  { s with workers := Function.update s.workers r pc }

/-- `try_mark_queued` up to its exchange. -/
def tryMarkQueued (k : Nat) : State :=
  if s.queued || s.completed then s else { s.setWaker k .count with queued := true }

/-- `clear_queued`: the bit. -/
def clearQueued (r : Nat) : State :=
  { s.setWorker r (if s.queued then .unref else .enter) with queued := false }

/-- `clear_queued`: the reference; the last one is acknowledged, else the task is polled. -/
def clearQueuedRef (r : Nat) : State :=
  { s.setWorker r (if s.refCount = 1 then .acknowledge else .enter) with
    refCount := s.refCount - 1 }

/-- `try_enter_poll`. -/
def tryEnterPoll (r : Nat) : State :=
  if s.completed then
    s.setWorker r .idle
  else if s.polling then
    { s.setWorker r .idle with woken := true }
  else
    { s.setWorker r .poll with polling := true }

/-- `exit_poll_to_pending`: a task that was woken meanwhile is polled again. -/
def exitPollToPending (r : Nat) : State :=
  if s.woken then
    { s.setWorker r .poll with woken := false }
  else
    { s.setWorker r .idle with polling := false }

/-- `mark_completed_and_notify`. -/
def markCompleted (r : Nat) : State :=
  { s.setWorker r .release with completed := true }

/-- `decrement_ref_count`. -/
def decrementRefCount (r : Nat) : State :=
  { s.setWorker r (.leave (s.refCount = 1)) with refCount := s.refCount - 1 }

/-- `exit_poll`. -/
def exitPoll (r : Nat) (last : Bool) : State :=
  { s.setWorker r (if last then .acknowledge else .idle) with polling := false }

/-- `acknowledge_completion`. -/
def acknowledgeCompletion (r : Nat) : State :=
  { s.setWorker r .idle with acked := true, acknowledgements := s.acknowledgements + 1 }

/-- One step. -/
def step : Event → Option State
  | .mark k =>
      match s.wakers k with
      | .idle => some (s.tryMarkQueued k)
      | _ => none
  | .wake k =>
      match s.wakers k with
      | .idle => none
      | .count => some { s.setWaker k .push with refCount := s.refCount + 1 }
      | .push => some { s.setWaker k .idle with entries := s.entries + 1 }
  | .pop r =>
      match s.workers r, s.entries with
      | .idle, n + 1 => some { s.setWorker r .clear with entries := n }
      | _, _ => none
  | .poll r ready =>
      match s.workers r with
      | .poll => some (s.setWorker r (if ready then .complete else .exit))
      | _ => none
  | .advance r =>
      match s.workers r with
      | .idle => none
      | .clear => some (s.clearQueued r)
      | .unref => some (s.clearQueuedRef r)
      | .enter => some (s.tryEnterPoll r)
      | .poll => none
      | .exit => some (s.exitPollToPending r)
      | .complete => some (s.markCompleted r)
      | .release => some (s.decrementRefCount r)
      | .leave last => some (s.exitPoll r last)
      | .acknowledge => some (s.acknowledgeCompletion r)

end State

/-- The steps as a relation. -/
def Step (s : State) (e : Event) (s' : State) : Prop := s.step e = some s'

/-- The step gives a reference back. -/
def WorkPc.gives : WorkPc → Bool
  | unref | release => true
  | _ => false

/-- Between giving a reference back and the next step on the header. -/
def WorkPc.unbacked : WorkPc → Bool
  | enter | leave false => true
  | _ => false

/-- The last reference is given back only while no waker has set `QUEUED` without counting
its reference, and no other worker is about to enter the poll or to leave it after it gave
its own reference back. -/
def Careful (s : State) : Event → Prop
  | .advance r => (s.workers r).gives = true → s.refCount = 1 →
      (∀ k, s.wakers k ≠ .count) ∧ ∀ q, q ≠ r → (s.workers q).unbacked = false
  | _ => True

/-- The task is acknowledged once: at the acknowledgement and from then on, no queue holds an
entry, no waker is going to push one and no other worker has a step left; and when all have
come to rest a completed task has been acknowledged. -/
structure Sound (s : State) : Prop where
  atMostOnce : s.acknowledgements ≤ 1
  alone : ∀ r, s.workers r = .acknowledge → s.completed = true ∧ s.acknowledgements = 0 ∧
    s.entries = 0 ∧ (∀ k, s.wakers k = .idle) ∧ ∀ q, q ≠ r → s.workers q = .idle
  untouched : s.acknowledgements = 1 → s.completed = true ∧ s.entries = 0 ∧
    (∀ k, s.wakers k = .idle) ∧ ∀ r, s.workers r = .idle
  atLeastOnce : s.completed = true → s.entries = 0 → (∀ k, s.wakers k = .idle) →
    (∀ r, s.workers r = .idle) → s.acknowledgements = 1

end Veloq.Runtime.SendTask
