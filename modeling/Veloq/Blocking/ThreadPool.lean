import Veloq.Foundation.Census
import Veloq.Foundation.Run
import Mathlib.Logic.Function.Basic
set_option autoImplicit false

/-!
# Blocking: the thread pool

`veloq-blocking/src/lib.rs`.  Calls of `execute` and workers take their steps one at a time in
any order: each atomic operation, each operation of the queue, each lock, unlock and
notification is a step.  A worker that waits for the condition variable is notified or times
out; its `wait_for` returns once it has the lock again.
-/

namespace Veloq.Blocking

open Veloq.Foundation

variable {α : Type}

structure ThreadPool where
  coreThreads : Nat
  maxThreads : Nat
  queueCapacity : Nat
  /-- `new` asserts it. -/
  core_le_max : coreThreads ≤ maxThreads

inductive ThreadPoolError where
  | overloaded
  deriving DecidableEq, Repr

/-- What an `execute` that accepts its task counts on. -/
inductive Reliance where
  /-- It has seen an idle worker. -/
  | idle
  /-- It has started a worker. -/
  | spawned
  /-- It has found the limit of workers reached, or none could be started. -/
  | queued
  deriving DecidableEq, Repr

/-- What a call of `execute` does next. -/
inductive ExecutePc (α : Type) where
  /-- Not made yet. -/
  | absent
  | loadIdle (task : α)
  | loadActive (task : α)
  | addActive (task : α)
  | spawn (task : α)
  /-- The thread could not be created. -/
  | subActive (task : α)
  | loadCount (task : α)
  | addCount (on : Reliance) (task : α)
  | push (on : Reliance) (task : α)
  /-- `idle_workers` is loaded a second time. -/
  | loadIdleAgain
  | lock
  | notify
  | unlock
  | returned (result : Except ThreadPoolError Unit)

/-- What a worker does next. -/
inductive WorkerPc (α : Type) where
  /-- Not started yet. -/
  | absent
  | pop
  | addIdle
  | lock
  /-- The queue is looked at again, under the lock. -/
  | popLocked
  /-- It has popped a task under the lock. -/
  | unlockWith (task : α)
  | subIdleWith (task : α)
  | subCount (task : α)
  | run (task : α)
  /-- It enters `wait_for`, and gives up the lock. -/
  | wait
  | asleep
  /-- It is woken, or its time is over, and needs the lock. -/
  | relock (timedOut : Bool)
  | unlock (timedOut : Bool)
  | subIdle (timedOut : Bool)
  | checkEmpty
  | loadActive
  /-- `worker_loop` returns: the guard is dropped. -/
  | leave
  | gone

/-- Who can hold `sleeper_lock`. -/
inductive Party where
  | call (n : Nat)
  | worker (w : Nat)
  deriving DecidableEq, Repr

structure PoolState (α : Type) where
  queue : List α
  taskCount : Nat
  sleeperLock : Option Party
  /-- The workers that wait for `cond`. -/
  cond : List Nat
  activeWorkers : Nat
  idleWorkers : Nat
  calls : Nat → ExecutePc α
  workers : Nat → WorkerPc α

inductive PoolEvent (α : Type) where
  | execute (n : Nat) (task : α)
  /-- The next step of a call, where it has no choice. -/
  | call (n : Nat)
  /-- A thread is created, and is worker `w`. -/
  | spawns (n w : Nat)
  | spawnFails (n : Nat)
  /-- `notify_one`, which wakes `w` if there is somebody to wake. -/
  | notifies (n w : Nat)
  /-- The next step of a worker. -/
  | worker (w : Nat)
  /-- The time of `wait_for` is over. -/
  | timeout (w : Nat)

/-- Not the failure to create a thread. -/
def PoolEvent.succeeds : PoolEvent α → Bool
  | .spawnFails _ => false
  | _ => true

namespace PoolState

/-- `ThreadPool::new`. -/
def new : PoolState α :=
  { queue := []
    taskCount := 0
    sleeperLock := none
    cond := []
    activeWorkers := 0
    idleWorkers := 0
    calls := fun _ => .absent
    workers := fun _ => .absent }

variable (pool : ThreadPool) (s : PoolState α)

def setCall (n : Nat) (pc : ExecutePc α) : PoolState α :=
  { s with calls := Function.update s.calls n pc }

def setWorker (w : Nat) (pc : WorkerPc α) : PoolState α :=
  { s with workers := Function.update s.workers w pc }

/-- The lock is taken, if it is free. -/
def acquire (party : Party) : Option (PoolState α) :=
  if s.sleeperLock = none then some { s with sleeperLock := some party } else none

def release : PoolState α := { s with sleeperLock := none }

/-- The next step of `execute`. -/
def executeStep (n : Nat) : Option (PoolState α) :=
  match s.calls n with
  | .loadIdle task =>
      some (s.setCall n (if 0 < s.idleWorkers then .addCount .idle task else .loadActive task))
  | .loadActive task =>
      some (s.setCall n
        (if s.activeWorkers < pool.maxThreads then .addActive task else .loadCount task))
  | .addActive task =>
      some { s.setCall n (.spawn task) with activeWorkers := s.activeWorkers + 1 }
  | .subActive task =>
      some { s.setCall n (.loadCount task) with activeWorkers := s.activeWorkers - 1 }
  | .loadCount task =>
      some (s.setCall n
        (if s.taskCount < pool.queueCapacity then .addCount .queued task
          else .returned (.error .overloaded)))
  | .addCount on task => some { s.setCall n (.push on task) with taskCount := s.taskCount + 1 }
  | .push on task =>
      some { s.setCall n (if on = .queued then .loadIdleAgain else .lock) with
        queue := s.queue ++ [task] }
  | .loadIdleAgain =>
      some (s.setCall n (if 0 < s.idleWorkers then .lock else .returned (.ok ())))
  | .lock => (s.setCall n .notify).acquire (.call n)
  | .unlock => some (s.setCall n (.returned (.ok ()))).release
  | .absent | .spawn _ | .notify | .returned _ => none

/-- `pop`, and the worker goes on with the task or without one. -/
def popFor (w : Nat) (found : α → WorkerPc α) (empty : WorkerPc α) : PoolState α :=
  match s.queue with
  | [] => s.setWorker w empty
  | task :: rest => { s.setWorker w (found task) with queue := rest }

/-- The next step of `worker_loop`. -/
def workerLoopStep (w : Nat) : Option (PoolState α) :=
  match s.workers w with
  | .pop => some (s.popFor w .subCount .addIdle)
  | .addIdle => some { s.setWorker w .lock with idleWorkers := s.idleWorkers + 1 }
  | .lock => (s.setWorker w .popLocked).acquire (.worker w)
  | .popLocked => some (s.popFor w .unlockWith .wait)
  | .unlockWith task => some (s.setWorker w (.subIdleWith task)).release
  | .subIdleWith task =>
      some { s.setWorker w (.subCount task) with idleWorkers := s.idleWorkers - 1 }
  | .subCount task => some { s.setWorker w (.run task) with taskCount := s.taskCount - 1 }
  | .run _ => some (s.setWorker w .pop)
  | .wait => some { (s.setWorker w .asleep).release with cond := s.cond ++ [w] }
  | .relock timedOut => (s.setWorker w (.unlock timedOut)).acquire (.worker w)
  | .unlock timedOut => some (s.setWorker w (.subIdle timedOut)).release
  | .subIdle timedOut =>
      some { s.setWorker w (if timedOut then .checkEmpty else .pop) with
        idleWorkers := s.idleWorkers - 1 }
  | .checkEmpty => some (s.setWorker w (if s.queue.isEmpty then .loadActive else .pop))
  | .loadActive =>
      some (s.setWorker w (if pool.coreThreads < s.activeWorkers then .leave else .pop))
  | .leave => some { s.setWorker w .gone with activeWorkers := s.activeWorkers - 1 }
  | .absent | .asleep | .gone => none

/-- A worker no longer waits for the condition variable. -/
def wake (w : Nat) (timedOut : Bool) : PoolState α :=
  { s.setWorker w (.relock timedOut) with cond := s.cond.filter (· ≠ w) }

def step : PoolEvent α → Option (PoolState α)
  | .execute n task =>
      match s.calls n with
      | .absent => some (s.setCall n (.loadIdle task))
      | _ => none
  | .call n => s.executeStep pool n
  | .spawns n w =>
      match s.calls n, s.workers w with
      | .spawn task, .absent => some ((s.setCall n (.addCount .spawned task)).setWorker w .pop)
      | _, _ => none
  | .spawnFails n =>
      match s.calls n with
      | .spawn task => some (s.setCall n (.subActive task))
      | _ => none
  | .notifies n w =>
      match s.calls n with
      | .notify =>
          if s.cond.isEmpty then some (s.setCall n .unlock)
          else if w ∈ s.cond then some ((s.wake w false).setCall n .unlock)
          else none
      | _ => none
  | .worker w => s.workerLoopStep pool w
  | .timeout w => if w ∈ s.cond then some (s.wake w true) else none

end PoolState

namespace ExecutePc

def inProgress : ExecutePc α → Bool
  | absent | returned _ => false
  | _ => true

/-- The call is counted in `active_workers`, for a worker that does not exist. -/
def starting : ExecutePc α → Bool
  | spawn _ | subActive _ => true
  | _ => false

/-- Its task is counted and not queued yet. -/
def announced : ExecutePc α → Bool
  | push .. => true
  | _ => false

def holdsLock : ExecutePc α → Bool
  | notify | unlock => true
  | _ => false

/-- Its task is queued, and it has not notified anybody yet. -/
def notifying : ExecutePc α → Bool
  | loadIdleAgain | lock | notify => true
  | _ => false

/-- It may still start a worker. -/
def starts : ExecutePc α → Bool
  | loadIdle _ | loadActive _ | addActive _ | spawn _ => true
  | _ => false

/-- It is going to queue its task, and starts no worker for it. -/
def relies (pool : ThreadPool) : ExecutePc α → Bool
  | subActive _ | loadCount _ => decide (0 < pool.queueCapacity)
  | addCount .. | push .. => true
  | _ => false

end ExecutePc

namespace WorkerPc

/-- The thread exists, and is counted in `active_workers`. -/
def live : WorkerPc α → Bool
  | absent | gone => false
  | _ => true

/-- It is counted in `idle_workers`. -/
def idle : WorkerPc α → Bool
  | lock | popLocked | unlockWith _ | subIdleWith _ | wait | asleep | relock _ | unlock _
  | subIdle _ => true
  | _ => false

/-- It has a task that is still counted in `task_count`. -/
def counting : WorkerPc α → Bool
  | unlockWith _ | subIdleWith _ | subCount _ => true
  | _ => false

def holdsLock : WorkerPc α → Bool
  | popLocked | unlockWith _ | wait | unlock _ => true
  | _ => false

/-- It looks at the queue before it sleeps or leaves. -/
def looking : WorkerPc α → Bool
  | absent | wait | asleep | loadActive | leave | gone => false
  | _ => true

/-- It sleeps, or is about to. -/
def dormant : WorkerPc α → Bool
  | wait | asleep => true
  | _ => false

/-- It has left, was never there, or waits for a notification that has not come. -/
def atRest : WorkerPc α → Bool
  | absent | asleep | gone => true
  | _ => false

end WorkerPc

/-- The steps as a relation. -/
def PoolStep (pool : ThreadPool) (s : PoolState α) (e : PoolEvent α) (s' : PoolState α) : Prop :=
  s.step pool e = some s'

end Veloq.Blocking
