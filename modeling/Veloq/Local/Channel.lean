import Veloq.Foundation.Census
import Veloq.Foundation.Run
import Veloq.Local.Spsc
import Mathlib.Logic.Function.Basic
set_option autoImplicit false

/-!
# Local: the channels with waiter lists

`veloq-local/src/mpmc.rs` and `mpsc.rs`, which differ in who may be a receiver, in what an
empty channel tells a receiver after it was closed, and in what `wake_up_all` makes of a node
without a waker.  Everything runs on one thread, so that a call is one step; a waker that is
woken leaves `notified` behind and runs nothing.

A future is a number.  Its node is linked if the number is in the list of its side, and
`none` as the outcome of an operation is the panic of an `expect`.
-/

namespace Veloq.Local

open Veloq.Foundation
open Spsc (ChannelCapacity)

variable {α : Type}

inductive Flavor where
  | mpmc
  | mpsc
  deriving DecidableEq, Repr

/-- `SenderAction` and `ReceiverAction`. -/
inductive Side where
  | send
  | recv
  deriving DecidableEq, Repr

/-- `SendError` of `common.rs`. -/
inductive SendError (α : Type) where
  | closed (item : α)
  | full (item : α)
  deriving DecidableEq, Repr

/-- `TryRecvError` of `common.rs`. -/
inductive TryRecvError where
  | empty
  | closed
  deriving DecidableEq, Repr

inductive PollResult (β : Type) where
  | pending
  | ready (value : β)
  deriving DecidableEq, Repr

/-- What a future is for: `send`, `recv` or `stream`. -/
inductive Role (α : Type) where
  | send (item : α)
  | recv
  | stream
  deriving DecidableEq, Repr

def Role.side : Role α → Side
  | .send _ => .send
  | .recv | .stream => .recv

/-- What a poll returns in the end. -/
inductive Output (α : Type) where
  | sent (result : Except (SendError α) Unit)
  | received (item : Option α)

inductive Stage where
  /-- Not created yet. -/
  | fresh
  /-- Created and not polled, or a stream that has just returned. -/
  | idle
  /-- The last poll has returned `Pending`. -/
  | pending
  | done
  | dropped
  deriving DecidableEq, Repr

structure Waiter (α : Type) where
  role : Role α
  stage : Stage
  /-- The slot of the node holds a waker. -/
  waker : Bool
  /-- The waker has been woken since the last poll. -/
  notified : Bool
  deriving DecidableEq, Repr

def Waiter.fresh : Waiter α := { role := .recv, stage := .fresh, waker := false, notified := false }

/-- `StateInner` with the futures of the channel.  `waiters .send` is `send_waiters`. -/
structure Channel (α : Type) where
  flavor : Flavor
  capacity : ChannelCapacity
  channel : List α
  txCount : Nat
  rxCount : Nat
  isClosed : Bool
  waiters : Side → List Nat
  futures : Nat → Waiter α

inductive Event (α : Type) where
  | trySend (item : α)
  | tryRecv
  | create (f : Nat) (role : Role α)
  | poll (f : Nat)
  | dropFuture (f : Nat)
  | cloneSender
  | dropSender
  | cloneReceiver
  | dropReceiver
  deriving DecidableEq, Repr

namespace Channel

def new (flavor : Flavor) (capacity : ChannelCapacity) : Channel α :=
  { flavor := flavor
    capacity := capacity
    channel := []
    txCount := 1
    rxCount := 1
    isClosed := false
    waiters := fun _ => []
    futures := fun _ => .fresh }

variable (s : Channel α)

def setWaiters (side : Side) (nodes : List Nat) : Channel α :=
  { s with waiters := Function.update s.waiters side nodes }

def setFuture (f : Nat) (t : Waiter α) : Channel α :=
  { s with futures := Function.update s.futures f t }

/-! ## The waiter lists -/

/-- `take` of the waker of `g`, and `wake` on it. -/
def wake (g : Nat) : Channel α :=
  s.setFuture g { s.futures g with waker := false, notified := true }

/-- `register_into_waiting_queue`, after `update_waker`. -/
def register (side : Side) (f : Nat) : Channel α :=
  let s' := s.setFuture f
    { s.futures f with stage := .pending, waker := true, notified := false }
  if f ∈ s.waiters side then s' else s'.setWaiters side (s.waiters side ++ [f])

/-- `remove_from_the_waiting_queue`, and the future is over or back. -/
def remove (side : Side) (f : Nat) (stage : Stage) : Channel α :=
  (s.setWaiters side ((s.waiters side).erase f)).setFuture f
    { s.futures f with stage := stage, notified := false }

/-- The loop of `wake_up_all` over the nodes that are left. -/
def wakeEach (side : Side) : List Nat → Channel α → Option (Channel α)
  | [], s => some s
  | g :: rest, s =>
      if (s.futures g).waker then
        wakeEach side rest ((s.setWaiters side rest).wake g)
      else
        match s.flavor with
        | .mpmc => wakeEach side rest (s.setWaiters side rest)
        | .mpsc => none

def wakeUpAll (side : Side) : Option (Channel α) := wakeEach side (s.waiters side) s

/-! ## The operations -/

def isFull : Bool :=
  match s.capacity with
  | .unbounded => false
  | .bounded x => decide (x ≤ s.channel.length)

/-- `push`, with the wake-up by its caller. -/
def push (item : α) : Option (Except (SendError α) Unit × Channel α) :=
  if s.isClosed then
    some (.error (.closed item), s)
  else if s.isFull then
    some (.error (.full item), s)
  else
    let s' := { s with channel := s.channel ++ [item] }
    match s'.waiters .recv with
    | [] => some (.ok (), s')
    | g :: rest =>
        if (s'.futures g).waker then
          some (.ok (), (s'.setWaiters .recv rest).wake g)
        else
          none

/-- `wait_for_room` is ready. -/
def waitForRoom : Bool := s.isClosed || !s.isFull

/-- A place became free: the first sender is woken if it has a waker. -/
def wakeSender : Channel α :=
  match s.waiters .send with
  | [] => s
  | g :: rest =>
      if (s.futures g).waker then
        (s.setWaiters .send rest).wake g
      else
        s.setWaiters .send rest

/-- An empty channel may get another message. -/
def isOpen : Bool :=
  match s.flavor with
  | .mpmc => decide (0 < s.txCount) && !s.isClosed
  | .mpsc => decide (0 < s.txCount)

/-- `recv_one`, with the wake-up by its caller. -/
def recvOne : PollResult (Option α) × Channel α :=
  match s.channel with
  | item :: rest => (.ready (some item), wakeSender { s with channel := rest })
  | [] => if s.isOpen then (.pending, s) else (.ready none, s)

def tryRecv : Except TryRecvError α × Channel α :=
  match s.recvOne with
  | (.pending, s') => (.error .empty, s')
  | (.ready none, s') => (.error .closed, s')
  | (.ready (some item), s') => (.ok item, s')

/-- `poll` of `send`: the `Waiter`, and then `try_send`. -/
def pollSend (f : Nat) (item : α) : Option (PollResult (Output α) × Channel α) :=
  if s.waitForRoom then
    ((s.remove .send f .done).push item).map fun (result, s') => (.ready (.sent result), s')
  else
    some (.pending, s.register .send f)

/-- `poll` of `recv` and `poll_next` of the stream, which goes on to `after`. -/
def pollRecv (f : Nat) (after : Stage) : PollResult (Output α) × Channel α :=
  match s.recvOne with
  | (.pending, s') => (.pending, s'.register .recv f)
  | (.ready item, s') => (.ready (.received item), s'.remove .recv f after)

def poll (f : Nat) : Option (PollResult (Output α) × Channel α) :=
  match (s.futures f).role with
  | .send item => s.pollSend f item
  | .recv => some (s.pollRecv f .done)
  | .stream => some (s.pollRecv f .idle)

/-- `drop` of the `Waiter` or the stream. -/
def dropFuture (f : Nat) : Channel α := s.remove (s.futures f).role.side f .dropped

def dropSender : Option (Channel α) :=
  let s' := { s with txCount := s.txCount - 1 }
  if s'.txCount = 0 then
    (s'.wakeUpAll .send).bind fun s => s.wakeUpAll .recv
  else
    some s'

def close : Option (Channel α) :=
  (wakeUpAll { s with isClosed := true } .recv).bind fun s => s.wakeUpAll .send

def dropReceiver : Option (Channel α) :=
  let s' := { s with rxCount := s.rxCount - 1 }
  match s.flavor with
  | .mpmc => if s'.rxCount = 0 then s'.close else some s'
  | .mpsc => s'.close

/-! ## Steps -/

/-- There is somebody to make the call. -/
def enabled : Event α → Bool
  | .trySend _ | .cloneSender | .dropSender => decide (0 < s.txCount)
  | .tryRecv | .dropReceiver => decide (0 < s.rxCount)
  | .cloneReceiver => decide (s.flavor = .mpmc ∧ 0 < s.rxCount)
  | .create f role =>
      decide ((s.futures f).stage = .fresh) &&
        match role.side with
        | .send => decide (0 < s.txCount)
        | .recv => decide (0 < s.rxCount)
  | .poll f => decide ((s.futures f).stage = .idle ∨ (s.futures f).stage = .pending)
  | .dropFuture f =>
      decide ((s.futures f).stage = .idle ∨ (s.futures f).stage = .pending ∨
        (s.futures f).stage = .done)

/-- The state after a call, if it does not panic. -/
def step : Event α → Option (Channel α)
  | .trySend item => (s.push item).map (·.2)
  | .tryRecv => some s.tryRecv.2
  | .create f role =>
      some (s.setFuture f { role := role, stage := .idle, waker := false, notified := false })
  | .poll f => (s.poll f).map (·.2)
  | .dropFuture f => some (s.dropFuture f)
  | .cloneSender => some { s with txCount := s.txCount + 1 }
  | .dropSender => s.dropSender
  | .cloneReceiver => some { s with rxCount := s.rxCount + 1 }
  | .dropReceiver => s.dropReceiver

end Channel

/-- The steps as a relation. -/
def ChannelStep (s : Channel α) (e : Event α) (s' : Channel α) : Prop :=
  s.enabled e = true ∧ s.step e = some s'

/-! ## Rest and care -/

namespace Channel

variable (s : Channel α)

/-- The future was popped and woken, and not polled since. -/
def Woken (side : Side) (g : Nat) : Prop :=
  (s.futures g).role.side = side ∧ (s.futures g).stage = .pending ∧ (s.futures g).notified = true

/-- What the waiters of a side wait for: messages or free places. -/
def avail : Side → Nat
  | .recv => s.channel.length
  | .send =>
      match s.capacity with
      | .unbounded => 0
      | .bounded x => x - s.channel.length

/-- A woken future is dropped only if the others that were woken make up for it, or nobody
waits. -/
def Careful : Event α → Prop
  | .dropFuture f => ∀ side, s.Woken side f → s.waiters side ≠ [] →
      Backed (fun _ => False) (fun g => g ≠ f ∧ s.Woken side g) (s.avail side) 0
  | _ => True

end Channel

end Veloq.Local
