import Veloq.Foundation.Run
import Mathlib.Logic.Function.Basic
set_option autoImplicit false

/-!
# Sync: the asynchronous mutex

A state with three values, a list of waiting futures behind a spin lock, and any number
of tasks; a task is a `try_lock` or a lock future, and then the guard that came out of it.
As for the reader-writer lock, every atomic operation on the state is a step of its own,
and so is what a section under the list lock does between two of them.  `registered` and
`notified` stand for the waker of the node.
-/

namespace Veloq.Sync

/-- `UNLOCKED`, `LOCKED` and `CONTENDED`. -/
inductive LockState where
  | unlocked
  | locked
  | contended
  deriving DecidableEq, Repr

/-- How often a poll looks at the state before it queues up. -/
def mutexSpins : Nat := 100

/-- What a task does next. -/
inductive MutexPc where
  | fresh
  /-- The future is not being polled. -/
  | pending
  /-- `poll`: load the state. -/
  | load
  /-- `poll`: exchange `UNLOCKED`. -/
  | exchange
  /-- `poll`, the mutex is acquired: lock the list. -/
  | acquired
  /-- `poll`, under the list lock: unlink the node and demote the state. -/
  | demote
  /-- `poll`: a load of the spin loop, which may do `left`; the state was `seen` before. -/
  | spin (left : Nat) (seen : LockState)
  /-- `poll`: the load after the spin loop. -/
  | afterSpin (seen : LockState)
  /-- `poll`: exchange `LOCKED` for `CONTENDED`. -/
  | promote
  /-- `poll`: lock the list in order to join it. -/
  | enter
  /-- `poll`, under the list lock: load the state once more. -/
  | recheck
  /-- `poll`, under the list lock: register the waker and push the node. -/
  | push
  /-- `poll`: look whether the node is still linked. -/
  | checkLinked
  /-- `poll`: register the waker, the node having been `linked`. -/
  | rearm (linked : Bool)
  /-- `drop` of the future: unlink the node. -/
  | removing
  /-- The guard. -/
  | guard
  /-- `drop` of the guard: store `UNLOCKED`. -/
  | storing
  /-- `drop` of the guard: pop the list. -/
  | popping
  | gone
  deriving DecidableEq, Repr

/-- A task, with the fields of its future. -/
structure MutexTask where
  queued : Bool
  registered : Bool
  notified : Bool
  pc : MutexPc
  deriving DecidableEq, Repr

def MutexTask.fresh : MutexTask :=
  { queued := false, registered := false, notified := false, pc := .fresh }

/-- The mutex and everybody who uses it. -/
structure Mutex where
  state : LockState
  waiters : List Nat
  listLock : Option Nat
  tasks : Nat → MutexTask

namespace Mutex

def new : Mutex :=
  { state := .unlocked, waiters := [], listLock := none, tasks := fun _ => .fresh }

variable (s : Mutex) (f : Nat)

def setTask (t : MutexTask) : Mutex := { s with tasks := Function.update s.tasks f t }

def goto (pc : MutexPc) : Mutex := s.setTask f { s.tasks f with pc := pc }

/-- The task is over. -/
def finish : Mutex := s.setTask f { MutexTask.fresh with pc := .gone }

/-- `wake` on the waker of the node of `g`. -/
def wake (g : Nat) : Mutex :=
  if (s.tasks g).registered then
    s.setTask g { s.tasks g with registered := false, notified := true }
  else
    s

/-- `poll` returns the guard. -/
def ready : Mutex := s.setTask f { s.tasks f with queued := false, notified := false, pc := .guard }

/-- `f` enters the list lock. -/
def lockList (pc : MutexPc) : Option Mutex :=
  if s.listLock = none then some { s.goto f pc with listLock := some f } else none

/-- A section under the list lock that does not touch the state. -/
def critical (next : Mutex) : Option Mutex := if s.listLock = none then some next else none

def tryLock : Mutex :=
  if s.state = .unlocked then { s.goto f .guard with state := .locked } else s.finish f

/-- A new lock future. -/
def lock : Mutex := s.setTask f { MutexTask.fresh with pc := .pending }

/-! ## `poll` of the lock future -/

def poll : Mutex := s.setTask f { s.tasks f with notified := false, pc := .load }

/-- From the load of the state on: a queued future does not spin. -/
def pollLoad : Mutex :=
  match s.state with
  | .unlocked => s.goto f .exchange
  | .locked => if (s.tasks f).queued then s.goto f .promote else s.goto f (.spin mutexSpins .locked)
  | .contended =>
      if (s.tasks f).queued then s.goto f .checkLinked else s.goto f (.spin mutexSpins .contended)

def pollExchange : Mutex :=
  if s.state = .unlocked then
    if (s.tasks f).queued then
      { s.goto f .acquired with state := .contended }
    else
      { s.ready f with state := .locked }
  else
    s.goto f .load

/-- The future leaves the list; the state is demoted if nobody else is in it. -/
def pollDemote : Mutex :=
  let waiters := s.waiters.erase f
  { s.ready f with
    waiters := waiters
    state := if waiters.isEmpty then .locked else s.state
    listLock := none }

def pollSpin (left : Nat) (seen : LockState) : Mutex :=
  if s.state = .unlocked ∨ left ≤ 1 then
    s.goto f (.afterSpin seen)
  else
    s.goto f (.spin (left - 1) seen)

/-- The decision on the state that was seen first. -/
def pollAfterSpin (seen : LockState) : Mutex :=
  if s.state = .unlocked then
    s.goto f .load
  else if seen = .locked then
    s.goto f .promote
  else
    s.goto f .enter

def pollPromote : Mutex :=
  if s.state = .locked then
    let s := { s with state := .contended }
    if (s.tasks f).queued then s.goto f .checkLinked else s.goto f .enter
  else
    s.goto f .load

def pollRecheck : Mutex :=
  if s.state = .unlocked then { s.goto f .load with listLock := none } else s.goto f .push

def pollPush : Mutex :=
  { s.setTask f { s.tasks f with queued := true, registered := true, pc := .pending } with
    waiters := s.waiters ++ [f]
    listLock := none }

def pollCheckLinked : Mutex :=
  if f ∈ s.waiters then
    s.goto f (.rearm true)
  else
    s.setTask f { s.tasks f with queued := false, pc := .rearm false }

def pollRearm (linked : Bool) : Mutex :=
  s.setTask f { s.tasks f with registered := true, pc := if linked then .pending else .load }

/-! ## The drops -/

/-- `drop` of a future begins. -/
def dropFuture : Mutex := if (s.tasks f).queued then s.goto f .removing else s.finish f

def dropRemove : Mutex := { s.finish f with waiters := s.waiters.erase f }

def dropGuard : Mutex :=
  if s.state = .locked then { s.finish f with state := .unlocked } else s.goto f .storing

def dropStore : Mutex := { s.goto f .popping with state := .unlocked }

/-- The first waiter leaves the list and is woken. -/
def dropPop : Mutex :=
  match s.waiters with
  | [] => s.finish f
  | g :: rest => ({ s with waiters := rest }.wake g).finish f

end Mutex

/-- What a task is made to do. -/
inductive MutexAction where
  | tryLock
  | lock
  | poll
  | advance
  | dropFuture
  | dropGuard
  deriving DecidableEq, Repr

namespace Mutex

/-- The next step of a task in the middle of an operation. -/
def advance (s : Mutex) (f : Nat) : Option Mutex :=
  match (s.tasks f).pc with
  | .load => some (s.pollLoad f)
  | .exchange => some (s.pollExchange f)
  | .acquired => s.lockList f .demote
  | .demote => some (s.pollDemote f)
  | .spin left seen => some (s.pollSpin f left seen)
  | .afterSpin seen => some (s.pollAfterSpin f seen)
  | .promote => some (s.pollPromote f)
  | .enter => s.lockList f .recheck
  | .recheck => some (s.pollRecheck f)
  | .push => some (s.pollPush f)
  | .checkLinked => s.critical (s.pollCheckLinked f)
  | .rearm linked => some (s.pollRearm f linked)
  | .removing => s.critical (s.dropRemove f)
  | .storing => some (s.dropStore f)
  | .popping => s.critical (s.dropPop f)
  | .fresh | .pending | .guard | .gone => none

/-- One step of task `e.1`. -/
def step (s : Mutex) (e : Nat × MutexAction) : Option Mutex :=
  match (s.tasks e.1).pc, e.2 with
  | .fresh, .tryLock => some (s.tryLock e.1)
  | .fresh, .lock => some (s.lock e.1)
  | .pending, .poll => some (s.poll e.1)
  | .pending, .dropFuture => some (s.dropFuture e.1)
  | .guard, .dropGuard => some (s.dropGuard e.1)
  | _, .advance => s.advance e.1
  | _, _ => none

end Mutex

/-- The steps as a relation. -/
def MutexStep (s : Mutex) (e : Nat × MutexAction) (s' : Mutex) : Prop := s.step e = some s'

end Veloq.Sync
