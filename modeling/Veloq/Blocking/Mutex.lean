import Veloq.Foundation.Run
import Mathlib.Logic.Function.Basic
import Mathlib.Data.List.Basic
set_option autoImplicit false

/-!
# Blocking: the mutex on a futex

`RawMutex` of `veloq-std/src/sync/mutex/raw.rs`.  The word is 0 when the mutex is free, 1 when
it is locked, and 2 when it is locked and somebody may be asleep.  The futex is the list of
the threads asleep on the word: `wait` sleeps only while the word is 2, and `wake` takes out
any one of the sleepers.

Every atomic operation and every futex call is a step.  The clock is an event of its own: at
every place where the code looks at it the time may or may not be over.
-/

namespace Veloq.Blocking

open Veloq.Foundation

/-- What a thread does next.  `timed`: the call is `try_lock_until`, else `lock`.  `bump`: the
thread locks again after the `unlock`. -/
inductive MutexPc where
  | idle
  | holding
  /-- `try_lock`. -/
  | tryCas
  /-- The first `compare_exchange`. -/
  | lockCas (timed : Bool)
  /-- The `swap` before the loop. -/
  | firstSwap (timed : Bool)
  /-- The top of the loop of `try_lock_until`. -/
  | head
  | wait (timed : Bool)
  | asleep (timed : Bool)
  /-- The `swap` at the end of the loop. -/
  | swap (timed : Bool)
  /-- `try_lock_until`, the wait has timed out: load the word. -/
  | timedOutLoad
  /-- `try_lock_until`, the wait has timed out and the word was 0. -/
  | timedOutSwap
  /-- `try_lock_until`, the wait has timed out: look at the clock. -/
  | timedOutCheck
  /-- `unlock`: `fetch_sub`. -/
  | unlockSub (bump : Bool)
  /-- `unlock`: store 0. -/
  | unlockStore (bump : Bool)
  | unlockWake (bump : Bool)
  deriving DecidableEq, Repr

structure Mutex where
  state : UInt32
  sleepers : List Nat
  threads : Nat → MutexPc

inductive MutexAction where
  | lock
  | tryLock
  | tryLockUntil
  | unlock
  | bump
  | advance
  /-- The futex wakes `g`. -/
  | wake (g : Nat)
  /-- The time is over. -/
  | timeout
  /-- A signal ends the wait. -/
  | interrupt
  deriving DecidableEq, Repr

namespace Mutex

def new : Mutex := { state := 0, sleepers := [], threads := fun _ => .idle }

variable (s : Mutex) (t : Nat)

def goto (pc : MutexPc) : Mutex := { s with threads := Function.update s.threads t pc }

/-- `wait` returns to `t`. -/
def awake (pc : MutexPc) : Mutex :=
  { s.goto t pc with sleepers := s.sleepers.filter (· ≠ t) }

/-- The loop goes on, since the word was not 0. -/
def top (timed : Bool) : MutexPc := if timed then .head else .wait false

/-- `compare_exchange(0, 1)`, and `failed` with the value it has found. -/
def cas (failed : UInt32 → MutexPc) : Mutex :=
  if s.state = 0 then { s.goto t .holding with state := 1 } else s.goto t (failed s.state)

/-- `swap(2)`, and `failed` if the word was not 0. -/
def swapTwo (failed : MutexPc) : Mutex :=
  { s.goto t (if s.state = 0 then .holding else failed) with state := 2 }

/-- `unlock` has returned. -/
def unlocked (bump : Bool) : MutexPc := if bump then .lockCas false else .idle

/-- The next step of a thread, where it depends on nothing but the word. -/
def advance : Option Mutex :=
  match s.threads t with
  | .tryCas => some (s.cas t fun _ => .idle)
  | .lockCas timed => some (s.cas t fun c => if c = 2 then top timed else .firstSwap timed)
  | .firstSwap timed => some (s.swapTwo t (top timed))
  | .head => some (s.goto t (.wait true))
  | .wait timed =>
      if s.state = 2 then
        some { s.goto t (.asleep timed) with sleepers := s.sleepers ++ [t] }
      else
        some (s.goto t (.swap timed))
  | .swap timed => some (s.swapTwo t (top timed))
  | .timedOutLoad => some (s.goto t (if s.state = 0 then .timedOutSwap else .timedOutCheck))
  | .timedOutSwap => some (s.swapTwo t .timedOutCheck)
  | .timedOutCheck => some (s.goto t (.swap true))
  | .unlockSub bump =>
      some { s.goto t (if s.state = 1 then unlocked bump else .unlockStore bump) with
        state := s.state - 1 }
  | .unlockStore bump => some { s.goto t (.unlockWake bump) with state := 0 }
  | .unlockWake bump => if s.sleepers = [] then some (s.goto t (unlocked bump)) else none
  | .idle | .holding | .asleep _ => none

/-- One step of a thread. -/
def step : Nat × MutexAction → Option Mutex
  | (t, .lock) => if s.threads t = .idle then some (s.goto t (.lockCas false)) else none
  | (t, .tryLock) => if s.threads t = .idle then some (s.goto t .tryCas) else none
  | (t, .tryLockUntil) => if s.threads t = .idle then some (s.goto t (.lockCas true)) else none
  | (t, .unlock) => if s.threads t = .holding then some (s.goto t (.unlockSub false)) else none
  | (t, .bump) => if s.threads t = .holding then some (s.goto t (.unlockSub true)) else none
  | (t, .advance) => s.advance t
  | (t, .wake g) =>
      match s.threads t, s.threads g with
      | .unlockWake bump, .asleep timed =>
          some ((s.awake g (.swap timed)).goto t (unlocked bump))
      | _, _ => none
  | (t, .timeout) =>
      match s.threads t with
      | .head | .timedOutCheck => some (s.goto t .idle)
      | .asleep true => some (s.awake t .timedOutLoad)
      | _ => none
  | (t, .interrupt) =>
      match s.threads t with
      | .asleep timed => some (s.awake t (.swap timed))
      | _ => none

end Mutex

/-- The steps as a relation. -/
def MutexStep (s : Mutex) (e : Nat × MutexAction) (s' : Mutex) : Prop := s.step e = some s'

namespace MutexPc

/-- The thread has the mutex. -/
def holds : MutexPc → Bool
  | holding | unlockSub _ => true
  | _ => false

/-- The thread is asleep. -/
def sleeping : MutexPc → Bool
  | asleep _ => true
  | _ => false

end MutexPc

end Veloq.Blocking
