import Veloq.Foundation.Run
import Mathlib.Logic.Function.Basic
set_option autoImplicit false

/-!
# Blocking: parking a thread

`Parker` of `veloq-std/src/thread/parker.rs`.  One thread parks, any number of threads unpark it.
Every atomic operation and every futex call is a step, and a call ends with its last step: `wait`
sleeps only while the word is `PARKED`, a wake takes the sleeper out, and a sleep may also end by
the time-out or by a signal.

The token is there from an `unpark` to the step that turns `NOTIFIED` into `EMPTY`.
-/

namespace Veloq.Blocking

open Veloq.Foundation

/-- What the parking thread does next.  `timed`: the call is `park_timeout`, else `park`. -/
inductive ParkPc where
  | idle
  /-- `compare_exchange(NOTIFIED, EMPTY)`. -/
  | firstCas (timed : Bool)
  /-- `compare_exchange(EMPTY, PARKED)`. -/
  | secondCas (timed : Bool)
  /-- The condition of the loop of `park`. -/
  | load
  | wait (timed : Bool)
  | asleep (timed : Bool)
  /-- The `swap` at the end of `park_timeout`. -/
  | swap
  deriving DecidableEq, Repr

/-- What an unparking thread does next. -/
inductive UnparkPc where
  | idle
  | swap
  | wake
  deriving DecidableEq, Repr

/-- A return of `park`: whether it has consumed a token, and how many unparks there were since
the return before it. -/
structure ParkReturn where
  consumed : Bool
  unparks : Nat
  deriving DecidableEq, Repr

structure Parker where
  state : UInt32
  thread : ParkPc
  unparkers : Nat → UnparkPc
  /-- There was an unpark since the last token was consumed. -/
  token : Bool
  /-- The unparks since the last return of `park`. -/
  unparks : Nat
  returns : List ParkReturn

inductive ParkerEvent where
  | park
  | parkTimeout
  /-- The parking thread takes its next step. -/
  | advance
  /-- The time of the sleep is over. -/
  | timeout
  /-- A signal ends the sleep. -/
  | interrupt
  | unpark (u : Nat)
  /-- The `swap` of `unpark`. -/
  | unparkSwap (u : Nat)
  /-- The `wake_by_address` of `unpark`. -/
  | unparkWake (u : Nat)
  deriving DecidableEq, Repr

namespace Parker

/-- `EMPTY`. -/
def empty : UInt32 := 0

/-- `PARKED`. -/
def parked : UInt32 := 1

/-- `NOTIFIED`. -/
def notified : UInt32 := 2

def new : Parker :=
  { state := empty
    thread := .idle
    unparkers := fun _ => .idle
    token := false
    unparks := 0
    returns := [] }

variable (s : Parker)

def goto (pc : ParkPc) : Parker := { s with thread := pc }

def setUnparker (u : Nat) (pc : UnparkPc) : Parker :=
  { s with unparkers := Function.update s.unparkers u pc }

/-- The call returns. -/
def leave (timed consumed : Bool) : Parker :=
  if timed then
    s.goto .idle
  else
    { s.goto .idle with
      unparks := 0
      returns := s.returns ++ [{ consumed := consumed, unparks := s.unparks }] }

/-- Where a wait that has ended goes on. -/
def afterWait (timed : Bool) : ParkPc := if timed then .swap else .load

/-- The next step of the parking thread. -/
def advance : Option Parker :=
  match s.thread with
  | .firstCas timed =>
      if s.state = notified then
        some (leave { s with state := empty, token := false } timed true)
      else
        some (s.goto (.secondCas timed))
  | .secondCas timed =>
      if s.state = empty then
        some { s.goto (if timed then .wait true else .load) with state := parked }
      else
        some (s.leave timed false)
  | .load => some (if s.state = parked then s.goto (.wait false) else s.leave false false)
  | .wait timed => some (s.goto (if s.state = parked then .asleep timed else afterWait timed))
  | .swap => some { s.leave true false with state := empty, token := false }
  | .idle | .asleep _ => none

/-- The futex wakes the parking thread, if it is asleep. -/
def rouse : Parker :=
  match s.thread with
  | .asleep timed => s.goto (afterWait timed)
  | _ => s

def step : ParkerEvent → Option Parker
  | .park => if s.thread = .idle then some (s.goto (.firstCas false)) else none
  | .parkTimeout => if s.thread = .idle then some (s.goto (.firstCas true)) else none
  | .advance => s.advance
  | .timeout => if s.thread = .asleep true then some (s.goto .swap) else none
  | .interrupt =>
      match s.thread with
      | .asleep timed => some (s.goto (afterWait timed))
      | _ => none
  | .unpark u => if s.unparkers u = .idle then some (s.setUnparker u .swap) else none
  | .unparkSwap u =>
      if s.unparkers u = .swap then
        some
          { s.setUnparker u (if s.state = parked then .wake else .idle) with
            state := notified
            token := true
            unparks := s.unparks + 1 }
      else
        none
  | .unparkWake u =>
      if s.unparkers u = .wake then some ((s.setUnparker u .idle).rouse) else none

end Parker

/-- The steps as a relation. -/
def ParkerStep (s : Parker) (e : ParkerEvent) (s' : Parker) : Prop := s.step e = some s'

/-! ## What the token is for -/

namespace Parker

variable (s : Parker)

/-- The parking thread takes `n` steps, and nothing else happens. -/
def alone : Nat → Parker → Option Parker
  | 0, s => some s
  | n + 1, s => s.advance.bind (alone n)

/-- The parking thread is in the futex. -/
def isAsleep : Bool :=
  match s.thread with
  | .asleep _ => true
  | _ => false

/-- With a token nobody stays blocked: no step goes to sleep, a sleeper has somebody who is going
to wake it, and a thread that is not asleep gets to the end of its call by itself. -/
structure NeverBlocks : Prop where
  awake : s.token = true → ∀ s', s.advance = some s' → s'.isAsleep = false
  woken : s.token = true → s.isAsleep = true → ∃ u, s.unparkers u = .wake
  returns : s.token = true → s.isAsleep = false →
    ∃ n s', s.alone n = some s' ∧ s'.thread = .idle

/-- Every return of `park` has consumed a token, and there was an unpark since the return before
it. -/
def ReturnsConsume : Prop := ∀ r ∈ s.returns, r.consumed = true ∧ 0 < r.unparks

/-- `park` does not return after its first `compare_exchange`. -/
def Prompt : ParkerEvent → Prop
  | .advance =>
      (s.thread = .secondCas false → s.state = empty) ∧ (s.thread = .load → s.state = parked)
  | _ => True

end Parker

end Veloq.Blocking
