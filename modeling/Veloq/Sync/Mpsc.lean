import Veloq.Foundation.Census
import Veloq.Foundation.Run
import Mathlib.Logic.Function.Basic
set_option autoImplicit false

/-!
# Sync: the bounded channel with many senders and one receiver

`veloq-sync/src/mpsc.rs` with its `BoundedStrategy`.  The queue of messages is counted, not
filled.  A waiting send future puts a reference to its `WakerState` into `send_waiters`, a
queue without a lock; the flag `waiting` of that state says whether a reference is in it.
Nothing takes a reference out but the receiver, so those of futures that are gone stay until
they are popped.

A task is one send future, or one clone or drop of a sender.  Every operation on a queue, an
atomic or a waker is a step of its own.  `registered` and `notified` stand for a waker.
-/

namespace Veloq.Sync

open Veloq.Foundation

/-- What a send future, or the drop of a sender, does next. -/
inductive SendPc where
  | fresh
  /-- `poll`: load `receiver_active`. -/
  | load
  /-- `poll`: push the message. -/
  | push
  /-- `poll`, the message went through: wake the receiver. -/
  | wakeRx
  /-- `poll`: register the waker. -/
  | register
  /-- `poll`: swap `waiting`. -/
  | swap
  /-- `poll`: push the reference to `send_waiters`. -/
  | enqueue
  /-- `poll`: load `receiver_active` once more. -/
  | recheck
  /-- `poll`: look once more whether the queue is full. -/
  | full
  /-- `poll`: wake the own waker. -/
  | selfWake
  /-- The future is not being polled. -/
  | pending
  /-- `drop` of the future, after its result or before it: store `waiting`. -/
  | dropStore
  /-- `drop` of the last sender: wake the receiver. -/
  | lastWake
  | gone
  deriving DecidableEq, Repr

/-- A task.  `created`: the future has a `WakerState`, with the other fields. -/
structure SendFuture where
  created : Bool
  waiting : Bool
  registered : Bool
  notified : Bool
  pc : SendPc
  deriving DecidableEq, Repr

def SendFuture.fresh : SendFuture :=
  { created := false, waiting := false, registered := false, notified := false, pc := .fresh }

/-- What the receiver does next. -/
inductive RecvPc where
  | idle
  /-- `poll_next`: register the waker. -/
  | register
  | pop
  | senderLoad
  | popAgain
  /-- `wake_one_sender`: pop a reference. -/
  | waitersPop
  /-- `wake_one_sender`: swap `waiting` of the future. -/
  | waitersSwap (g : Nat)
  | waitersWake (g : Nat)
  /-- `drop`: store `receiver_active`. -/
  | inactive
  /-- `on_rx_drop`: pop a reference. -/
  | drainPop
  | drainWake (g : Nat)
  | gone
  deriving DecidableEq, Repr

/-- The state of the channel and everybody who uses it. -/
structure Mpsc where
  capacity : Nat
  len : Nat
  receiverActive : Bool
  senderCount : Nat
  sendWaiters : List Nat
  rxRegistered : Bool
  rxNotified : Bool
  recv : RecvPc
  tasks : Nat → SendFuture

/-- What happens to a task. -/
inductive SendAction where
  /-- `send`, with its first poll. -/
  | send
  | poll
  | drop
  | clone
  | dropSender
  | advance
  deriving DecidableEq, Repr

/-- What happens to the receiver. -/
inductive RecvAction where
  | tryRecv
  | poll
  | drop
  | advance
  deriving DecidableEq, Repr

inductive MpscEvent where
  | task (f : Nat) (action : SendAction)
  | recv (action : RecvAction)
  deriving DecidableEq, Repr

namespace Mpsc

/-- A new channel, split into one sender and the receiver. -/
def bounded (capacity : Nat) : Mpsc :=
  { capacity := capacity, len := 0, receiverActive := true, senderCount := 1, sendWaiters := []
    rxRegistered := false, rxNotified := false, recv := .idle, tasks := fun _ => .fresh }

variable (s : Mpsc) (f : Nat)

def setTask (t : SendFuture) : Mpsc := { s with tasks := Function.update s.tasks f t }

def goto (pc : SendPc) : Mpsc := s.setTask f { s.tasks f with pc := pc }

/-- `wake` on the waker of `g`. -/
def wake (g : Nat) : Mpsc :=
  if (s.tasks g).registered then
    s.setTask g { s.tasks g with registered := false, notified := true }
  else
    s

/-- `wake_rx`. -/
def notifyRx : Mpsc :=
  if s.rxRegistered then { s with rxRegistered := false, rxNotified := true } else s

/-- The future has returned its result and is dropped. -/
def finish : Mpsc := s.goto f (if (s.tasks f).created then .dropStore else .gone)

/-! ## The send future -/

def sendLoad : Mpsc := if s.receiverActive then s.goto f .push else s.finish f

def sendPush : Mpsc :=
  if s.len < s.capacity then { s.goto f .wakeRx with len := s.len + 1 } else s.goto f .register

def sendRegister : Mpsc :=
  s.setTask f { s.tasks f with created := true, registered := true, pc := .swap }

def sendSwap : Mpsc :=
  s.setTask f { s.tasks f with
    waiting := true, pc := if (s.tasks f).waiting then .recheck else .enqueue }

def sendEnqueue : Mpsc := { s.goto f .recheck with sendWaiters := s.sendWaiters ++ [f] }

def sendRecheck : Mpsc := if s.receiverActive then s.goto f .full else s.finish f

def sendFull : Mpsc :=
  if s.len < s.capacity then s.goto f .selfWake else s.goto f .pending

/-- The next step of a task. -/
def advance : Option Mpsc :=
  match (s.tasks f).pc with
  | .load => some (s.sendLoad f)
  | .push => some (s.sendPush f)
  | .wakeRx => some (s.notifyRx.finish f)
  | .register => some (s.sendRegister f)
  | .swap => some (s.sendSwap f)
  | .enqueue => some (s.sendEnqueue f)
  | .recheck => some (s.sendRecheck f)
  | .full => some (s.sendFull f)
  | .selfWake => some ((s.wake f).goto f .pending)
  | .dropStore => some (s.setTask f { s.tasks f with waiting := false, pc := .gone })
  | .lastWake => some (s.notifyRx.goto f .gone)
  | .fresh | .pending | .gone => none

/-- One step of a task. -/
def taskStep : SendAction → Option Mpsc
  | .send => if (s.tasks f).pc = .fresh then some (s.goto f .load) else none
  | .poll =>
      if (s.tasks f).pc = .pending then
        some (s.setTask f { s.tasks f with notified := false, pc := .load })
      else
        none
  | .drop => if (s.tasks f).pc = .pending then some (s.goto f .dropStore) else none
  | .clone =>
      if (s.tasks f).pc = .fresh then
        some { s.goto f .gone with senderCount := s.senderCount + 1 }
      else
        none
  | .dropSender =>
      if (s.tasks f).pc = .fresh ∧ 0 < s.senderCount then
        some { s.goto f (if s.senderCount = 1 then .lastWake else .gone) with
          senderCount := s.senderCount - 1 }
      else
        none
  | .advance => s.advance f

/-! ## The receiver -/

/-- A message is popped, or the receiver goes on with `next`. -/
def popMessage (next : RecvPc) : Mpsc :=
  if 0 < s.len then { s with len := s.len - 1, recv := .waitersPop } else { s with recv := next }

def loadSenders : Mpsc := { s with recv := if s.senderCount = 0 then .popAgain else .idle }

/-- The loop of `wake_one_sender`. -/
def popWaiter : Mpsc :=
  match s.sendWaiters with
  | [] => { s with recv := .idle }
  | g :: rest => { s with sendWaiters := rest, recv := .waitersSwap g }

def swapWaiting (g : Nat) : Mpsc :=
  if (s.tasks g).waiting then
    { s.setTask g { s.tasks g with waiting := false } with recv := .waitersWake g }
  else
    { s with recv := .waitersPop }

/-- The loop of `on_rx_drop`. -/
def drainWaiter : Mpsc :=
  match s.sendWaiters with
  | [] => { s with recv := .gone }
  | g :: rest => { s with sendWaiters := rest, recv := .drainWake g }

/-- The next step of the receiver. -/
def recvAdvance : Option Mpsc :=
  match s.recv with
  | .register => some { s with rxRegistered := true, rxNotified := false, recv := .pop }
  | .pop => some (s.popMessage .senderLoad)
  | .senderLoad => some s.loadSenders
  | .popAgain => some (s.popMessage .idle)
  | .waitersPop => some s.popWaiter
  | .waitersSwap g => some (s.swapWaiting g)
  | .waitersWake g => some { s.wake g with recv := .idle }
  | .inactive => some { s with receiverActive := false, recv := .drainPop }
  | .drainPop => some s.drainWaiter
  | .drainWake g => some { s.wake g with recv := .drainPop }
  | .idle | .gone => none

/-- One step of the receiver. -/
def recvStep : RecvAction → Option Mpsc
  | .tryRecv => if s.recv = .idle then some { s with recv := .pop } else none
  | .poll => if s.recv = .idle then some { s with recv := .register } else none
  | .drop => if s.recv = .idle then some { s with recv := .inactive } else none
  | .advance => s.recvAdvance

def step : MpscEvent → Option Mpsc
  | .task f action => s.taskStep f action
  | .recv action => s.recvStep action

end Mpsc

/-- The steps as a relation. -/
def MpscStep (s : Mpsc) (e : MpscEvent) (s' : Mpsc) : Prop := s.step e = some s'

/-! ## Rest and care -/

namespace SendPc

/-- The future is being polled and has not sent its message. -/
def polling : SendPc → Bool
  | load | push | register | swap | enqueue | recheck | full | selfWake => true
  | _ => false

/-- No call is in progress. -/
def resting : SendPc → Bool
  | fresh | pending | gone => true
  | _ => false

end SendPc

namespace SendFuture

/-- The future is going to try to push its message. -/
def attempting (t : SendFuture) : Bool := t.pc.polling || (t.pc == .pending && t.notified)

/-- The future waits for a wake-up. -/
def asleep (t : SendFuture) : Bool := t.pc == .pending && !t.notified

end SendFuture

namespace Mpsc

/-- The reference of `g` stands before that of `h`. -/
def Before (waiters : List Nat) (g h : Nat) : Prop :=
  h ∈ waiters ∧ waiters.idxOf g < waiters.idxOf h

instance (waiters : List Nat) (g h : Nat) : Decidable (Before waiters g h) :=
  inferInstanceAs (Decidable (_ ∧ _))

/-- For `h`, the future `g` makes up for a free place: it is going to try to push, and the
next wake-up that `h` could get is not going to it. -/
def Backs (s : Mpsc) (h g : Nat) : Prop :=
  (s.tasks g).attempting = true ∧ ¬ Before s.sendWaiters g h

/-- The receiver has taken a message and still has a wake-up to give, as seen by `h`. -/
def owing (s : Mpsc) (h : Nat) : Nat :=
  match s.recv with
  | .waitersPop => 1
  | .waitersSwap g | .waitersWake g =>
      if (s.tasks g).attempting = true ∨ Before s.sendWaiters g h then 0 else 1
  | _ => 0

/-- Every free place has somebody that makes up for it, as seen by a sleeping future. -/
def Served (s : Mpsc) : Prop :=
  s.receiverActive = true → ∀ h, (s.tasks h).asleep = true →
    Backed (fun _ => False) (s.Backs h) s.capacity (s.len + s.owing h)

/-- A wake-up goes to a future that is over only if the sleeping futures are served without
it, and a woken future is dropped only if they are served without that future. -/
def Careful (s : Mpsc) : MpscEvent → Prop
  | .recv .advance =>
      match s.recv with
      | .waitersWake g => (s.tasks g).attempting = false → (s.tasks g).asleep = false →
          ∀ h, (s.tasks h).asleep = true →
            Backed (fun _ => False) (s.Backs h) s.capacity s.len
      | _ => True
  | .task f .drop => (s.tasks f).notified = true → s.recv ≠ .waitersSwap f →
      s.recv ≠ .waitersWake f → s.receiverActive = true → ∀ h, (s.tasks h).asleep = true →
        Backed (fun _ => False) (fun g => g ≠ f ∧ s.Backs h g) s.capacity (s.len + s.owing h)
  | _ => True

/-- Nobody is in the middle of a call, and whoever was woken has been polled or dropped
since. -/
def Quiescent (s : Mpsc) : Prop :=
  (s.recv = .idle ∨ s.recv = .gone) ∧
    ∀ f, (s.tasks f).pc.resting = true ∧
      ((s.tasks f).pc = .pending → (s.tasks f).notified = false)

end Mpsc

end Veloq.Sync
