import Veloq.Foundation.Census
import Veloq.Foundation.Run
import Mathlib.Logic.Function.Basic
set_option autoImplicit false

/-!
# Blocking: the channel whose receiver parks

`veloq-std/src/sync/mpsc.rs`.  The queue is a FIFO whose operations are single steps, and so
is every atomic operation and every critical section of `blocked_thread`.  A thread has a
token that `unpark` sets; `park` returns at once and takes the token if it is set, may return
without a reason, and else leaves the thread parked until the token is set.

A handle is one `Sender`.  With each value the queue keeps the handle that has sent it, and
`received`, `pushed` and `accepted` record what has happened so far.
-/

namespace Veloq.Blocking

open Veloq.Foundation

variable {α : Type}

/-- What a handle does next. -/
inductive HandlePc (α : Type) where
  /-- Not cloned yet. -/
  | absent
  | idle
  /-- `send`: load `receiver_alive`. -/
  | load (value : α)
  /-- `send`: push. -/
  | push (value : α)
  /-- `send`: take the blocked thread. -/
  | take (value : α)
  | unpark (thread : Nat) (value : α)
  /-- `drop`: decrement `senders`. -/
  | dropSub
  | dropTake
  | dropUnpark (thread : Nat)
  | gone
  deriving DecidableEq, Repr

/-- `try_recv`, `recv` and `recv_timeout`. -/
inductive RecvMode where
  | try
  | block
  | timeout
  deriving DecidableEq, Repr

/-- What a receive has returned. -/
inductive RecvResult (α : Type) where
  | ok (value : α)
  | empty
  | disconnected
  | timeout
  deriving DecidableEq, Repr

/-- What the receiver does next. -/
inductive ReceiverPc where
  | idle
  | pop (mode : RecvMode)
  /-- Load `senders`. -/
  | load (mode : RecvMode)
  | popAgain (mode : RecvMode)
  /-- Look at the clock, and publish the thread. -/
  | publish (mode : RecvMode)
  | checkQueue (mode : RecvMode)
  /-- The queue was not empty: take back the thread. -/
  | retract (mode : RecvMode)
  | checkSenders (mode : RecvMode)
  /-- There was no sender left: take back the thread. -/
  | retractLast (mode : RecvMode)
  | park (mode : RecvMode)
  | parked (mode : RecvMode)
  /-- `park` has returned: take back the thread. -/
  | clear (mode : RecvMode)
  | gone
  deriving DecidableEq, Repr

/-- `Shared` with everybody who uses it. -/
structure Shared (α : Type) where
  queue : List (Nat × α)
  senders : Nat
  receiverAlive : Bool
  blockedThread : Option Nat
  /-- The token of each thread. -/
  tokens : Nat → Bool
  handles : Nat → HandlePc α
  receiver : ReceiverPc
  /-- The thread that runs the receive. -/
  thread : Nat
  result : Option (RecvResult α)
  /-- What was pushed, received, and sent with `Ok`. -/
  pushed : List (Nat × α)
  received : List (Nat × α)
  accepted : List (Nat × α)

inductive SharedEvent (α : Type) where
  | send (f : Nat) (value : α)
  /-- `f` is cloned, and `g` is the new handle. -/
  | clone (f g : Nat)
  | drop (f : Nat)
  | advance (f : Nat)
  /-- A receive begins on `thread`. -/
  | recv (mode : RecvMode) (thread : Nat)
  | recvAdvance
  /-- The time of `recv_timeout` is over. -/
  | timeout
  /-- `park` returns without a reason. -/
  | spurious
  | dropReceiver
  /-- Somebody else sets the token of a thread, or a thread outside of a receive uses it up. -/
  | token (thread : Nat) (value : Bool)

namespace Shared

/-- `channel`. -/
def channel : Shared α :=
  { queue := []
    senders := 1
    receiverAlive := true
    blockedThread := none
    tokens := fun _ => false
    handles := fun f => if f = 0 then .idle else .absent
    receiver := .idle
    thread := 0
    result := none
    pushed := []
    received := []
    accepted := [] }

variable (s : Shared α)

def goto (f : Nat) (pc : HandlePc α) : Shared α :=
  { s with handles := Function.update s.handles f pc }

def setToken (thread : Nat) (value : Bool) : Shared α :=
  { s with tokens := Function.update s.tokens thread value }

/-- `send` has returned `Ok`. -/
def sent (f : Nat) (value : α) : Shared α :=
  { s.goto f .idle with accepted := s.accepted ++ [(f, value)] }

/-- The next step of a handle. -/
def advance (f : Nat) : Option (Shared α) :=
  match s.handles f with
  | .load value => some (s.goto f (if s.receiverAlive then .push value else .idle))
  | .push value =>
      some { s.goto f (.take value) with
        queue := s.queue ++ [(f, value)], pushed := s.pushed ++ [(f, value)] }
  | .take value =>
      match s.blockedThread with
      | some thread => some { s.goto f (.unpark thread value) with blockedThread := none }
      | none => some (s.sent f value)
  | .unpark thread value => some ((s.setToken thread true).sent f value)
  | .dropSub =>
      some { s.goto f (if s.senders = 1 then .dropTake else .gone) with senders := s.senders - 1 }
  | .dropTake =>
      match s.blockedThread with
      | some thread => some { s.goto f (.dropUnpark thread) with blockedThread := none }
      | none => some (s.goto f .gone)
  | .dropUnpark thread => some ((s.setToken thread true).goto f .gone)
  | .absent | .idle | .gone => none

/-- The receive returns. -/
def returns (result : RecvResult α) : Shared α :=
  { s with receiver := .idle, result := some result }

/-- `pop`, and the receive goes on with `next` if the queue is empty. -/
def popOr (next : Shared α) : Shared α :=
  match s.queue with
  | [] => next
  | (f, value) :: rest =>
      { s.returns (.ok value) with queue := rest, received := s.received ++ [(f, value)] }

def recvGoto (pc : ReceiverPc) : Shared α := { s with receiver := pc }

/-- `blocked_thread` is set to `None`. -/
def clearThread (pc : ReceiverPc) : Shared α := { s with blockedThread := none, receiver := pc }

/-- `park` takes the token. -/
def unparked (mode : RecvMode) : Shared α := (s.setToken s.thread false).recvGoto (.clear mode)

/-- The next step of the receiver. -/
def recvAdvance : Option (Shared α) :=
  match s.receiver with
  | .pop mode => some (s.popOr (s.recvGoto (.load mode)))
  | .load mode =>
      if s.senders = 0 then
        some (s.recvGoto (.popAgain mode))
      else
        some (if mode = .try then s.returns .empty else s.recvGoto (.publish mode))
  | .popAgain _ => some (s.popOr (s.returns .disconnected))
  | .publish mode => some { s with blockedThread := some s.thread, receiver := .checkQueue mode }
  | .checkQueue mode =>
      some (s.recvGoto (if s.queue.isEmpty then .checkSenders mode else .retract mode))
  | .retract mode => some (s.clearThread (.pop mode))
  | .checkSenders mode => some (s.recvGoto (if s.senders = 0 then .retractLast mode else .park mode))
  | .retractLast mode => some (s.clearThread (.popAgain mode))
  | .park mode => some (if s.tokens s.thread then s.unparked mode else s.recvGoto (.parked mode))
  | .parked mode => if s.tokens s.thread then some (s.unparked mode) else none
  | .clear mode => some (s.clearThread (.pop mode))
  | .idle | .gone => none

/-- A receive is in progress on `thread`. -/
def busyOn (thread : Nat) : Bool :=
  decide (s.receiver ≠ .idle ∧ s.receiver ≠ .gone ∧ s.thread = thread)

def step : SharedEvent α → Option (Shared α)
  | .send f value =>
      match s.handles f with
      | .idle => some (s.goto f (.load value))
      | _ => none
  | .clone f g =>
      match s.handles f, s.handles g with
      | .idle, .absent => some { s.goto g .idle with senders := s.senders + 1 }
      | _, _ => none
  | .drop f =>
      match s.handles f with
      | .idle => some (s.goto f .dropSub)
      | _ => none
  | .advance f => s.advance f
  | .recv mode thread =>
      if s.receiver = .idle then some { s with receiver := .pop mode, thread := thread, result := none }
      else none
  | .recvAdvance => s.recvAdvance
  | .timeout =>
      match s.receiver with
      | .publish .timeout => some (s.returns .timeout)
      | _ => none
  | .spurious =>
      match s.receiver with
      | .park mode | .parked mode => some (s.recvGoto (.clear mode))
      | _ => none
  | .dropReceiver =>
      if s.receiver = .idle then some { s with receiverAlive := false, receiver := .gone } else none
  | .token thread value =>
      if value = true ∨ s.busyOn thread = false then some (s.setToken thread value) else none

end Shared

namespace HandlePc

/-- The handle has not been dropped. -/
def alive : HandlePc α → Bool
  | idle | load _ | push _ | take _ | unpark .. | dropSub => true
  | absent | dropTake | dropUnpark _ | gone => false

/-- The value that was pushed by a `send` that has not returned. -/
def unfinished : HandlePc α → List α
  | take value | unpark _ value => [value]
  | _ => []

/-- The handle is going to take the blocked thread. -/
def takes : HandlePc α → Bool
  | take _ | dropTake => true
  | _ => false

/-- The handle is going to unpark the thread. -/
def unparks (thread : Nat) : HandlePc α → Bool
  | unpark t _ | dropUnpark t => decide (t = thread)
  | _ => false

end HandlePc

/-- The steps as a relation. -/
def SharedStep (s : Shared α) (e : SharedEvent α) (s' : Shared α) : Prop := s.step e = some s'

end Veloq.Blocking
