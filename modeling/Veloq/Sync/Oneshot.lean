import Veloq.Foundation.Run
import Mathlib.Logic.Function.Basic
set_option autoImplicit false

/-!
# Sync: the oneshot channel

A state word of two flags, a cell for the value, and two cells for wakers, between one
sender and one receiver.  Every atomic operation is a step of its own, and so is every
access to the value: a side is at it from the step before to the one that ends it.

The waker cells are taken as what they are for: `register` replaces the waker, and `wake`
takes it and wakes it.  A waker is known by the number of the poll that brought it.
-/

namespace Veloq.Sync.Oneshot

/-- `StateVal`: the flags `VALUE_SENT` and `CLOSED`. -/
structure StateVal where
  complete : Bool
  closed : Bool
  deriving DecidableEq, Repr

/-- `StateVal::new`. -/
def StateVal.new : StateVal := { complete := false, closed := false }

/-- Which operation of the sender completes the channel. -/
inductive Completing where
  | send
  | drop
  deriving DecidableEq, Repr

/-- What the sender does next. -/
inductive SenderPc (α : Type) where
  | idle
  /-- `send`: write the value. -/
  | write (t : α)
  /-- `set_complete`: load the state. -/
  | load (call : Completing)
  /-- `set_complete`: exchange the state, seen as `seen`. -/
  | exchange (call : Completing) (seen : StateVal)
  /-- `complete`: wake the receiver. -/
  | wake (call : Completing)
  /-- `send` to a closed channel: take the value back. -/
  | takeBack
  /-- `drop`: load the state. -/
  | dropLoad
  /-- `poll_closed`: load the state. -/
  | closedLoad
  /-- `poll_closed`: register the waker. -/
  | closedRegister
  /-- `poll_closed`: load the state once more. -/
  | closedRecheck
  /-- The `unwrap` in `send` has failed. -/
  | panicked
  | gone
  deriving DecidableEq, Repr

/-- What the receiver does next. -/
inductive ReceiverPc where
  | idle
  /-- `try_recv`: load the state. -/
  | tryLoad
  /-- `try_recv` or `poll`: take the value. -/
  | take
  /-- `poll`: load the state. -/
  | pollLoad
  /-- `poll`: register the waker. -/
  | pollRegister
  /-- `poll`: load the state once more. -/
  | pollRecheck
  /-- `close`: set `CLOSED`. -/
  | close
  /-- `close`: wake the sender. -/
  | closeWake
  /-- `drop`: set `CLOSED`. -/
  | drop
  /-- `drop`: wake the sender; the state was `seen` before. -/
  | dropWake (seen : StateVal)
  /-- `drop`: take the value and drop it. -/
  | dropTake
  | gone
  deriving DecidableEq, Repr

/-- `State`, its two ends, and what has become of the value. -/
structure Channel (α : Type) where
  state : StateVal
  value : Option α
  txTask : Option Nat
  rxTask : Option Nat
  sender : SenderPc α
  /-- How often `poll_closed` has been called, and whether it has returned `Pending` last. -/
  closedPolls : Nat
  waiting : Bool
  receiver : ReceiverPc
  /-- The receiver still has its reference to the state. -/
  attached : Bool
  /-- How often `poll` has been called, and whether it has returned `Pending` last. -/
  polls : Nat
  pending : Bool
  /-- The wakers of the sender and of the receiver that have been woken. -/
  txWoken : Nat → Bool
  rxWoken : Nat → Bool
  sent : Option α
  givenBack : List α
  received : List α
  dropped : List α

/-- `split` of a new `State`. -/
def Channel.new {α : Type} : Channel α :=
  { state := StateVal.new
    value := none
    txTask := none
    rxTask := none
    sender := .idle
    closedPolls := 0
    waiting := false
    receiver := .idle
    attached := true
    polls := 0
    pending := false
    txWoken := fun _ => false
    rxWoken := fun _ => false
    sent := none
    givenBack := []
    received := []
    dropped := [] }

/-- What the two ends are made to do. -/
inductive Event (α : Type) where
  | send (t : α)
  | dropSender
  | pollClosed
  /-- The next step of the sender. -/
  | sender
  /-- A spurious failure of `compare_exchange_weak`. -/
  | retry
  | tryRecv
  | poll
  | close
  | dropReceiver
  /-- The next step of the receiver. -/
  | receiver
  deriving Repr

namespace Channel

variable {α : Type} (s : Channel α)

/-! ## The sender -/

/-- `tx_task.wake()`. -/
def wakeTx : Channel α :=
  match s.txTask with
  | none => s
  | some n => { s with txTask := none, txWoken := Function.update s.txWoken n true }

/-- `rx_task.wake()`. -/
def wakeRx : Channel α :=
  match s.rxTask with
  | none => s
  | some n => { s with rxTask := none, rxWoken := Function.update s.rxWoken n true }

def write (t : α) : Channel α := { s with value := some t, sender := .load .send }

/-- One turn of the loop of `set_complete`, for the state seen last. -/
def completeTurn (call : Completing) (seen : StateVal) : Channel α :=
  { s with
    sender :=
      if seen.closed then
        match call with
        | .send => .takeBack
        | .drop => .gone
      else
        .exchange call seen }

def exchange (call : Completing) (seen : StateVal) : Channel α :=
  if s.state = seen then
    { s with state := { seen with complete := true }, sender := .wake call }
  else
    s.completeTurn call s.state

/-- The receiver is woken; what is left of `send` is the drop of the sender. -/
def completeWake (call : Completing) : Channel α :=
  { s.wakeRx with
    sender :=
      match call with
      | .send => .dropLoad
      | .drop => .gone }

def takeBack : Channel α :=
  match s.value with
  | none => { s with sender := .panicked }
  | some t => { s with value := none, givenBack := t :: s.givenBack, sender := .dropLoad }

def dropLoad : Channel α := { s with sender := if s.state.complete then .gone else .load .drop }

def closedLoad : Channel α := { s with sender := if s.state.closed then .idle else .closedRegister }

def closedRegister : Channel α := { s with txTask := some s.closedPolls, sender := .closedRecheck }

def closedRecheck : Channel α := { s with waiting := !s.state.closed, sender := .idle }

/-- The next step of the sender. -/
def senderStep : Option (Channel α) :=
  match s.sender with
  | .write t => some (s.write t)
  | .load call => some (s.completeTurn call s.state)
  | .exchange call seen => some (s.exchange call seen)
  | .wake call => some (s.completeWake call)
  | .takeBack => some s.takeBack
  | .dropLoad => some s.dropLoad
  | .closedLoad => some s.closedLoad
  | .closedRegister => some s.closedRegister
  | .closedRecheck => some s.closedRecheck
  | .idle | .panicked | .gone => none

/-! ## The receiver -/

/-- What `try_recv` and `poll` do with a state that they have loaded. -/
def look (otherwise : Channel α) : Channel α :=
  if s.state.complete then { s with receiver := .take }
  else if s.state.closed then { s with attached := false, receiver := .idle }
  else otherwise

def take : Channel α :=
  { s with
    value := none
    received := s.value.toList ++ s.received
    attached := false
    receiver := .idle }

def pollRegister : Channel α := { s with rxTask := some s.polls, receiver := .pollRecheck }

def setClosed (pc : ReceiverPc) : Channel α :=
  { s with state := { s.state with closed := true }, receiver := pc }

def dropWake (seen : StateVal) : Channel α :=
  { s.wakeTx with receiver := if seen.complete then .dropTake else .gone }

def dropTake : Channel α :=
  { s with value := none, dropped := s.value.toList ++ s.dropped, receiver := .gone }

/-- The next step of the receiver. -/
def receiverStep : Option (Channel α) :=
  match s.receiver with
  | .tryLoad => some (s.look { s with receiver := .idle })
  | .take => some s.take
  | .pollLoad => some (s.look { s with receiver := .pollRegister })
  | .pollRegister => some s.pollRegister
  | .pollRecheck => some (s.look { s with pending := true, receiver := .idle })
  | .close => some (s.setClosed .closeWake)
  | .closeWake => some { s.wakeTx with receiver := .idle }
  | .drop => some (s.setClosed (.dropWake s.state))
  | .dropWake seen => some (s.dropWake seen)
  | .dropTake => some s.dropTake
  | .idle | .gone => none

/-! ## Steps -/

/-- A call of the sender. -/
def call : Event α → Option (Channel α)
  | .send t => some { s with sender := .write t, sent := some t, waiting := false }
  | .dropSender => some { s with sender := .dropLoad, waiting := false }
  | .pollClosed =>
      some { s with sender := .closedLoad, closedPolls := s.closedPolls + 1, waiting := false }
  | _ => none

/-- A call of the receiver; without its reference `poll` panics. -/
def request : Event α → Option (Channel α)
  | .tryRecv => some { s with receiver := if s.attached then .tryLoad else .idle }
  | .poll =>
      if s.attached then
        some { s with receiver := .pollLoad, polls := s.polls + 1, pending := false }
      else
        none
  | .close => some { s with receiver := if s.attached then .close else .idle }
  | .dropReceiver =>
      some { s with attached := false, receiver := if s.attached then .drop else .gone }
  | _ => none

def step (e : Event α) : Option (Channel α) :=
  match e, s.sender, s.receiver with
  | .sender, _, _ => s.senderStep
  | .receiver, _, _ => s.receiverStep
  | .retry, .exchange call _, _ => some (s.completeTurn call s.state)
  | .send _, .idle, _ | .dropSender, .idle, _ | .pollClosed, .idle, _ => s.call e
  | .tryRecv, _, .idle | .poll, _, .idle | .close, _, .idle | .dropReceiver, _, .idle => s.request e
  | _, _, _ => none

end Channel

/-- The steps as a relation. -/
def OneshotStep {α : Type} (s : Channel α) (e : Event α) (s' : Channel α) : Prop :=
  s.step e = some s'

end Veloq.Sync.Oneshot
