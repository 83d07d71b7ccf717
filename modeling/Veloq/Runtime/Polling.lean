import Mathlib.Logic.Function.Basic
import Mathlib.Data.List.Basic
import Veloq.Foundation.Run
set_option autoImplicit false

/-!
# Runtime: polling on nested stacks

`runtime/shared.rs`, `task.rs`: workers that run queue entries, also from inside a poll
that drives the worker (`JoinHandle::poll`, `wait_all`).  A worker is a stack of entries
that it is running; only the topmost goes on, and a further entry is popped when the stack
is empty or its topmost entry is inside `poll_fn`.

A local task and a pinned task have a bounded queue of their worker; the queues of all
other `Send` tasks overflow into the unbounded injector and are one list here.  The
reference count only decides who acknowledges a completed task and is left out.
-/

namespace Veloq.Runtime.Polling

open Foundation

/-- Where the entries of a task go. -/
inductive Kind where
  | localTask (worker : Nat)
  | pinned (worker : Nat)
  | shared
  deriving DecidableEq, Repr

/-- `S::IS_LOCAL`. -/
def Kind.isLocal : Kind → Bool
  | localTask _ => true
  | _ => false

/-- A task: the bits of its header.  `active` and `owed` are bookkeeping: how many calls of
its `poll_fn` have not returned, and whether it was woken during a poll and has not been
polled since. -/
structure Task where
  kind : Kind
  completed : Bool
  queued : Bool
  polling : Bool
  woken : Bool
  active : Nat
  owed : Bool

/-- A task nobody has acted on. -/
def Task.new (kind : Kind) : Task := ⟨kind, false, false, false, false, 0, false⟩

/-- Where a worker is with an entry. -/
inductive FramePc where
  /-- `clear_queued` is next. -/
  | clear
  /-- `enter_poll` is next. -/
  | enter
  /-- Inside `poll_fn`. -/
  | poll
  /-- The poll was pending, `exit_pending` is next. -/
  | exit
  /-- The poll has a result, `mark_completed_and_notify` is next. -/
  | complete
  /-- `exit_poll` is next. -/
  | leave
  deriving DecidableEq, Repr

/-- Has entered the poll and not left it. -/
def FramePc.holds : FramePc → Bool
  | poll | exit | complete | leave => true
  | _ => false

/-- An entry that is being run. -/
structure Frame where
  task : Nat
  pc : FramePc
  deriving DecidableEq, Repr

/-- The tasks, the stacks of the workers, the wakers that have set `QUEUED` and not pushed
yet, and the queues. -/
structure State where
  tasks : Nat → Task
  frames : Nat → List Frame
  wakers : Nat → Option Nat
  localQueue : Nat → List Nat
  pinnedQueue : Nat → List Nat
  sendQueue : List Nat

/-- The steps. -/
inductive Event where
  /-- A waker of the task: the checks and the exchange of `try_mark_queued`. -/
  | wake (waker task : Nat)
  /-- The push, and `clear_queued` where the queue is full. -/
  | push (waker : Nat)
  /-- A worker pops an entry of its local queue. -/
  | popLocal (worker : Nat)
  /-- A worker pops an entry of its pinned queue. -/
  | popPinned (worker : Nat)
  /-- A worker takes an entry of a `Send` task from wherever it is. -/
  | popSend (worker task : Nat)
  /-- The innermost `poll_fn` of a worker returns; `ready`: with a result. -/
  | pollReturns (worker : Nat) (ready : Bool)
  /-- The next step of a worker outside `poll_fn`. -/
  | advance (worker : Nat)
  deriving DecidableEq, Repr

namespace State

variable (s : State)

/-- A runtime that has run nothing. -/
def init (kind : Nat → Kind) : State where
  tasks t := .new (kind t)
  frames _ := []
  wakers _ := none
  localQueue _ := []
  pinnedQueue _ := []
  sendQueue := []

def setTask (t : Nat) (task : Task) : State :=
  { s with tasks := Function.update s.tasks t task }

def setStack (w : Nat) (stack : List Frame) : State :=
  { s with frames := Function.update s.frames w stack }

/-- Whether the worker is at a place where it drives its queues. -/
def drives (w : Nat) : Bool :=
  match s.frames w with
  | [] => true
  | f :: _ => f.pc == .poll

/-- Whether the queue of the task has room. -/
def room (capacity t : Nat) : Bool :=
  match (s.tasks t).kind with
  | .localTask w => decide ((s.localQueue w).length < capacity)
  | .pinned w => decide ((s.pinnedQueue w).length < capacity)
  | .shared => true

/-- The entry is in its queue. -/
def enqueue (t : Nat) : State :=
  match (s.tasks t).kind with
  | .localTask w => { s with localQueue := Function.update s.localQueue w (s.localQueue w ++ [t]) }
  | .pinned w => { s with pinnedQueue := Function.update s.pinnedQueue w (s.pinnedQueue w ++ [t]) }
  | .shared => { s with sendQueue := t :: s.sendQueue }

/-- `is_completed` and `try_mark_queued`. -/
def mark (k t : Nat) : State :=
  let task := s.tasks t
  if task.completed then
    s
  else if task.queued then
    s.setTask t { task with owed := task.owed || decide (0 < task.active) }
  else
    { s.setTask t { task with queued := true, owed := task.owed || decide (0 < task.active) } with
      wakers := Function.update s.wakers k (some t) }

/-- The push of a marked task. -/
def push (capacity k t : Nat) : State :=
  if s.room capacity t then
    { s.enqueue t with wakers := Function.update s.wakers k none }
  else
    { s.setTask t { s.tasks t with queued := false } with
      wakers := Function.update s.wakers k none }

/-- `poll_fn` is entered. -/
def beginPoll (w t : Nat) (rest : List Frame) (task : Task) : State :=
  (s.setTask t { task with active := task.active + 1, owed := false }).setStack w
    (⟨t, .poll⟩ :: rest)

/-- `enter_poll`. -/
def enterPoll (w t : Nat) (rest : List Frame) : State :=
  let task := s.tasks t
  if task.completed then
    s.setStack w rest
  else if task.kind.isLocal then
    s.beginPoll w t rest task
  else if task.polling then
    (s.setTask t { task with woken := true }).setStack w rest
  else
    s.beginPoll w t rest { task with polling := true }

/-- `exit_pending`: `exit_poll_to_pending` for a `Send` task. -/
def exitPending (w t : Nat) (rest : List Frame) : State :=
  let task := s.tasks t
  if task.kind.isLocal then
    s.setStack w rest
  else if task.woken then
    s.beginPoll w t rest { task with woken := false }
  else
    (s.setTask t { task with polling := false }).setStack w rest

/-- One step of a topmost entry outside `poll_fn`. -/
def advance (w t : Nat) (rest : List Frame) : FramePc → Option State
  | .clear => some ((s.setTask t { s.tasks t with queued := false }).setStack w (⟨t, .enter⟩ :: rest))
  | .enter => some (s.enterPoll w t rest)
  | .poll => none
  | .exit => some (s.exitPending w t rest)
  | .complete =>
      some ((s.setTask t { s.tasks t with completed := true }).setStack w (⟨t, .leave⟩ :: rest))
  | .leave =>
      if (s.tasks t).kind.isLocal then some (s.setStack w rest)
      else some ((s.setTask t { s.tasks t with polling := false }).setStack w rest)

/-- One step, for a capacity of the bounded queues. -/
def step (capacity : Nat) : Event → Option State
  | .wake k t =>
      match s.wakers k with
      | none => some (s.mark k t)
      | some _ => none
  | .push k =>
      match s.wakers k with
      | none => none
      | some t => some (s.push capacity k t)
  | .popLocal w =>
      match s.drives w, s.localQueue w with
      | true, t :: queue =>
          some { s.setStack w (⟨t, .clear⟩ :: s.frames w) with
            localQueue := Function.update s.localQueue w queue }
      | _, _ => none
  | .popPinned w =>
      match s.drives w, s.pinnedQueue w with
      | true, t :: queue =>
          some { s.setStack w (⟨t, .clear⟩ :: s.frames w) with
            pinnedQueue := Function.update s.pinnedQueue w queue }
      | _, _ => none
  | .popSend w t =>
      if s.drives w ∧ t ∈ s.sendQueue then
        some { s.setStack w (⟨t, .clear⟩ :: s.frames w) with sendQueue := s.sendQueue.erase t }
      else none
  | .pollReturns w ready =>
      match s.frames w with
      | ⟨t, .poll⟩ :: rest =>
          some ((s.setTask t { s.tasks t with active := (s.tasks t).active - 1 }).setStack w
            (⟨t, if ready then .complete else .exit⟩ :: rest))
      | _ => none
  | .advance w =>
      match s.frames w with
      | [] => none
      | ⟨t, pc⟩ :: rest => s.advance w t rest pc

end State

/-- The steps as a relation. -/
def Step (capacity : Nat) (s : State) (e : Event) (s' : State) : Prop := s.step capacity e = some s'

/-- How many entries of a stack are inside the `poll_fn` of the task. -/
def pollsIn (stack : List Frame) (t : Nat) : Nat :=
  stack.countP fun f => f.task == t && f.pc == .poll

/-- An entry of a local task is run only while no `poll_fn` of the task is on the stack
below it, and the push of a wake finds room if the task was woken during its poll. -/
def Careful (capacity : Nat) (s : State) : Event → Prop
  | .push k =>
      ∀ t ∈ s.wakers k, (s.tasks t).owed = true → s.room capacity t = true
  | .advance w =>
      match s.frames w with
      | ⟨t, .enter⟩ :: rest => (s.tasks t).kind.isLocal = true → pollsIn rest t = 0
      | _ => True
  | _ => True

/-- Nothing is queued, being queued or being run. -/
structure Quiescent (s : State) : Prop where
  frames : ∀ w, s.frames w = []
  wakers : ∀ k, s.wakers k = none
  localQueue : ∀ w, s.localQueue w = []
  pinnedQueue : ∀ w, s.pinnedQueue w = []
  sendQueue : s.sendQueue = []

/-- At most one `poll_fn` of a task has not returned, over all workers; and when nothing is
left to run, no unfinished task is still to be polled for a wake that fell into its poll. -/
structure Sound (s : State) : Prop where
  once : ∀ w t, pollsIn (s.frames w) t ≤ 1
  oneWorker : ∀ w v t, w ≠ v → pollsIn (s.frames w) t = 0 ∨ pollsIn (s.frames v) t = 0
  polledAgain : Quiescent s → ∀ t, (s.tasks t).completed = false → (s.tasks t).owed = false

end Veloq.Runtime.Polling
