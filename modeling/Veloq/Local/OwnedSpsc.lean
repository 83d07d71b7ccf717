import Veloq.Foundation.Run
import Veloq.Local.Channel
import Veloq.Local.Spsc
set_option autoImplicit false

/-!
# Local: the owned SPSC channel

The endpoints of `veloq-local/src/spsc.rs` over the ring buffer of `Spsc`.  `OwnedSender`,
`OwnedReceiver` and every `OwnedChannelStream` hold one `Rc` of the state each, and a stream
holds it inside an `OwnedReceiver` of its own, whose destructor runs when the stream is dropped.

Everything runs on one thread, so that a call is one step.  A `SendFuture` or a `RecvFuture` has
no state but its item, and a poll of it is an event of its own; they borrow their endpoint.  A
waker is the number of the task it wakes.
-/

namespace Veloq.Local.OwnedSpsc

open Veloq.Foundation
open Spsc (ChannelCapacity ElemLayout Fault StateInner)

variable {α : Type}

inductive StreamStage where
  | fresh
  | live
  | dropped
  deriving DecidableEq, Repr

/-- `State` with the objects that hold it.  `sent` and `received` are the items that were
accepted and taken out so far, in order, and `woken` the tasks that were woken. -/
structure OwnedChannel (α : Type) where
  inner : StateInner α
  isClosed : Bool
  producerWaker : Option Nat
  consumerWaker : Option Nat
  /-- The `OwnedSender` exists. -/
  sender : Bool
  /-- The `OwnedReceiver` of `owned_channel` exists. -/
  receiver : Bool
  streams : Nat → StreamStage
  woken : List Nat
  sent : List α
  received : List α

/-- `update_waker` of `common.rs`. -/
def updateWaker (slot : Option Nat) (task : Nat) : Option Nat :=
  if slot = some task then slot else some task

inductive Event (α : Type) where
  | trySend (item : α)
  /-- A poll by `task` of a `SendFuture` that holds `item`. -/
  | pollSend (task : Nat) (item : α)
  | tryRecv
  | pollRecv (task : Nat)
  | createStream (k : Nat)
  | pollStream (k task : Nat)
  | dropStream (k : Nat)
  | dropSender
  | dropReceiver
  deriving DecidableEq, Repr

/-- `owned_channel`; `none` is a panic. -/
def ownedChannel (e : ElemLayout α) (capacity : ChannelCapacity) : Option (OwnedChannel α) :=
  (StateInner.new e capacity).map fun inner =>
    { inner := inner
      isClosed := false
      producerWaker := none
      consumerWaker := none
      sender := true
      receiver := true
      streams := fun _ => .fresh
      woken := []
      sent := []
      received := [] }

namespace OwnedChannel

variable (e : ElemLayout α) (s : OwnedChannel α)

/-- `consumer_waker.take()`, and `wake` on it. -/
def wakeConsumer : OwnedChannel α :=
  { s with consumerWaker := none, woken := s.woken ++ s.consumerWaker.toList }

/-- `producer_waker.take()`, and `wake` on it. -/
def wakeProducer : OwnedChannel α :=
  { s with producerWaker := none, woken := s.woken ++ s.producerWaker.toList }

/-- The state after the buffer has taken `item`. -/
def accepted (inner : StateInner α) (item : α) : OwnedChannel α :=
  wakeConsumer { s with inner := inner, sent := s.sent ++ [item] }

/-- The state after `item` was taken out of the buffer. -/
def delivered (inner : StateInner α) (item : α) : OwnedChannel α :=
  wakeProducer { s with inner := inner, received := s.received ++ [item] }

def trySend (item : α) : Except Fault (Except (SendError α) Unit × OwnedChannel α) :=
  if s.isClosed then
    .ok (.error (.closed item), s)
  else
    (s.inner.push e item).map fun
      | (.error item, inner) => (.error (.full item), { s with inner := inner })
      | (.ok (), inner) => (.ok (), s.accepted inner item)

/-- `poll` of a `SendFuture`. -/
def pollSend (task : Nat) (item : α) :
    Except Fault (PollResult (Except (SendError α) Unit) × OwnedChannel α) :=
  if s.isClosed then
    .ok (.ready (.error (.closed item)), s)
  else
    (s.inner.push e item).map fun
      | (.error _, inner) =>
          (.pending,
            { s with inner := inner, producerWaker := updateWaker s.producerWaker task })
      | (.ok (), inner) => (.ready (.ok ()), s.accepted inner item)

def tryRecv : Except Fault (Except TryRecvError α × OwnedChannel α) :=
  (s.inner.pop e).map fun
    | (some item, inner) => (.ok item, s.delivered inner item)
    | (none, inner) =>
        if s.isClosed then (.error .closed, { s with inner := inner })
        else (.error .empty, { s with inner := inner })

/-- `poll` of a `RecvFuture`, and `poll_next` of an `OwnedChannelStream`. -/
def pollRecv (task : Nat) : Except Fault (PollResult (Option α) × OwnedChannel α) :=
  (s.inner.pop e).map fun
    | (some item, inner) => (.ready (some item), s.delivered inner item)
    | (none, inner) =>
        if s.isClosed then (.ready none, { s with inner := inner })
        else
          (.pending, { s with inner := inner, consumerWaker := updateWaker s.consumerWaker task })

/-- `OwnedReceiver::stream`. -/
def createStream (k : Nat) : OwnedChannel α :=
  { s with streams := Function.update s.streams k .live }

/-- The destructor of `Sender`, run by that of `OwnedSender`. -/
def closeSender : OwnedChannel α := wakeConsumer { s with isClosed := true }

/-- The destructor of `Receiver`, run by that of `OwnedReceiver`. -/
def closeReceiver : OwnedChannel α := wakeProducer { s with isClosed := true }

def dropSender : OwnedChannel α := closeSender { s with sender := false }

def dropReceiver : OwnedChannel α := closeReceiver { s with receiver := false }

/-- A stream is dropped, and with it the `OwnedReceiver` inside. -/
def dropStream (k : Nat) : OwnedChannel α :=
  closeReceiver { s with streams := Function.update s.streams k .dropped }

/-! ## Steps -/

/-- The object that is called exists. -/
def enabled : Event α → Bool
  | .trySend _ | .pollSend _ _ | .dropSender => s.sender
  | .tryRecv | .pollRecv _ | .dropReceiver => s.receiver
  | .createStream k => s.receiver && decide (s.streams k = .fresh)
  | .pollStream k _ | .dropStream k => decide (s.streams k = .live)

/-- The state after a call, if it returns. -/
def step : Event α → Except Fault (OwnedChannel α)
  | .trySend item => (s.trySend e item).map (·.2)
  | .pollSend task item => (s.pollSend e task item).map (·.2)
  | .tryRecv => (s.tryRecv e).map (·.2)
  | .pollRecv task | .pollStream _ task => (s.pollRecv e task).map (·.2)
  | .createStream k => .ok (s.createStream k)
  | .dropStream k => .ok (s.dropStream k)
  | .dropSender => .ok s.dropSender
  | .dropReceiver => .ok s.dropReceiver

end OwnedChannel

/-- The steps as a relation. -/
def ChannelStep (e : ElemLayout α) (s : OwnedChannel α) (ev : Event α) (s' : OwnedChannel α) :
    Prop :=
  s.enabled ev = true ∧ s.step e ev = .ok s'

/-- A channel as `owned_channel` makes it. -/
def Fresh (e : ElemLayout α) (s : OwnedChannel α) : Prop :=
  ∃ capacity, ownedChannel e capacity = some s

/-! ## What the endpoints are promised -/

namespace OwnedChannel

variable (e : ElemLayout α) (s : OwnedChannel α)

/-- A sender that exists is told that the channel is closed only if the receiver is gone. -/
structure ClosedByReceiver : Prop where
  trySend : ∀ item s', s.sender = true → s.trySend e item = .ok (.error (.closed item), s') →
    s.receiver = false
  pollSend : ∀ task item s', s.sender = true →
    s.pollSend e task item = .ok (.ready (.error (.closed item)), s') → s.receiver = false

/-- `try_recv` called `n` times, up to the first error. -/
def drain : Nat → OwnedChannel α → Except Fault (List α × OwnedChannel α)
  | 0, s => .ok ([], s)
  | n + 1, s =>
      match s.tryRecv e with
      | .error fault => .error fault
      | .ok (.error _, s') => .ok ([], s')
      | .ok (.ok item, s') => (drain n s').map fun (items, s'') => (item :: items, s'')

/-- The items in the channel are those that were sent and not received.  A receiver or a stream
that goes on receiving gets them all, in order, before it is told that there are none. -/
structure DeliversAll : Prop where
  drains : ∃ items s', s.sent = s.received ++ items ∧ s.drain e items.length = .ok (items, s') ∧
    ∃ s'', s'.tryRecv e = .ok (.error (if s.isClosed then .closed else .empty), s'')
  polls : ∀ task, ∃ items s', s.sent = s.received ++ items ∧
    s.pollRecv e task =
      .ok ((items.head?.elim (if s.isClosed then .ready none else .pending) fun item =>
        .ready (some item)), s')

/-- No stream is dropped while the sender and the receiver both exist, and a buffer that grows
has its `head` at zero. -/
def Careful : Event α → Prop
  | .dropStream _ => ¬ (s.sender = true ∧ s.receiver = true)
  | .trySend item | .pollSend _ item =>
      s.isClosed = false → Spsc.Grows s.inner (.push item) → s.inner.head = 0
  | _ => True

end OwnedChannel

end Veloq.Local.OwnedSpsc
