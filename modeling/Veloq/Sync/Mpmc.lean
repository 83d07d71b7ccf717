import Veloq.Foundation.Run
import Mathlib.Logic.Function.Basic
set_option autoImplicit false

/-!
# Sync: the bounded channel with many senders and receivers

The queue is counted, not filled: a push succeeds while there is room and a pop while there
is a message.  A task is one call, one future or one drop of an endpoint.  Every operation on
the queue, on a counter, on the closed flag or on a waker is a step of its own; a section
under the lock of a waiter list is entered with its first step and left with its last.
`registered` and `notified` stand for the waker of the node of a future.
-/

namespace Veloq.Sync

/-- Waiting futures behind a spin lock, with a number that is read without the lock. -/
structure WaitList where
  nodes : List Nat
  count : Nat
  lock : Option Nat
  deriving DecidableEq, Repr

def WaitList.new : WaitList := { nodes := [], count := 0, lock := none }

/-- What happens after a future has left its waiter list. -/
inductive WaitExit where
  /-- The message went through. -/
  | done
  /-- The channel turned out to be closed. -/
  | closed
  /-- The future is dropped. -/
  | dropped
  deriving DecidableEq, Repr

/-- What a task does next. -/
inductive ChannelPc where
  | fresh
  /-- `try_send`: load `is_closed`.  `send` is going to `wait` if the queue is full. -/
  | trySend (wait : Bool)
  | tryPush (wait : Bool)
  /-- The send future is not being polled. -/
  | sendPending
  /-- `poll` of the send future: push the message. -/
  | push
  /-- `poll`: load `is_closed`. -/
  | sendClosed
  /-- `poll`: look whether the node is linked. -/
  | sendLinked
  /-- `register_send_wait`: register the waker. -/
  | sendRegister
  /-- `register_send_wait`: lock the list. -/
  | sendEnter
  /-- `register_send_wait`, under the lock: look once more whether the queue is full. -/
  | recheck
  /-- `register_send_wait`, under the lock: push the node. -/
  | sendJoin
  /-- `register_send_wait`, under the lock: raise the count. -/
  | sendCount
  /-- `poll`: register the waker of a linked node. -/
  | rearm
  /-- `remove_send_wait`: lock the list and unlink the node. -/
  | sendRemove (exit : WaitExit)
  /-- `remove_send_wait`, under the lock: lower the count. -/
  | sendUnlink (exit : WaitExit)
  /-- `notify_recv_one`: load the count. -/
  | notifyLoad
  | notifyPop
  | notifySub (g : Nat)
  | notifyWake (g : Nat)
  /-- `try_recv`: pop a message.  `recv` is going to `wait` if there is none. -/
  | tryRecv (wait : Bool)
  | tryClosed (wait : Bool)
  | tryAgain (wait : Bool)
  /-- The receive future or stream is not being polled. -/
  | recvPending
  /-- `poll` of the receive future: pop a message. -/
  | pop
  | recvClosed
  | popAgain
  | recvRegister
  | recvLinked
  /-- `poll`: lock the list of receivers and push the node. -/
  | recvJoin
  | recvCount
  /-- `remove_recv_waiter`: lock the list and unlink the node. -/
  | recvRemove (exit : WaitExit)
  | recvUnlink (exit : WaitExit)
  /-- `release`: load the count. -/
  | releaseLoad
  /-- `release`: lock the list and pop a node. -/
  | releasePop
  | releaseSub (g : Nat)
  | releaseWake (g : Nat)
  /-- The last sender is gone: swap `is_closed`. -/
  | close
  | closeEnter
  | closeDrain
  | closeWake (g : Nat)
  /-- `drop` of a receiver: load the number of receivers. -/
  | dropLoad
  /-- `close_recv`: swap `is_closed`. -/
  | closeRecv
  /-- `notify_all_senders`: lock the list. -/
  | sendersEnter
  | sendersDrain
  | sendersWake (g : Nat)
  | sendersStore
  | gone
  deriving DecidableEq, Repr

/-- A task, with the fields of its future.  A `stream` can be polled again after a message. -/
structure ChannelTask where
  queued : Bool
  registered : Bool
  notified : Bool
  stream : Bool
  pc : ChannelPc
  deriving DecidableEq, Repr

def ChannelTask.fresh : ChannelTask :=
  { queued := false, registered := false, notified := false, stream := false, pc := .fresh }

/-- The state of the channel and everybody who uses it. -/
structure Channel where
  capacity : Nat
  len : Nat
  isClosed : Bool
  senderCount : Nat
  receiverCount : Nat
  waiters : WaitList
  recvWaiters : WaitList
  tasks : Nat → ChannelTask

namespace Channel

/-- A new channel, split into one sender and one receiver. -/
def bounded (capacity : Nat) : Channel :=
  { capacity := capacity, len := 0, isClosed := false, senderCount := 1, receiverCount := 1
    waiters := .new, recvWaiters := .new, tasks := fun _ => .fresh }

variable (s : Channel) (f : Nat)

def setTask (t : ChannelTask) : Channel := { s with tasks := Function.update s.tasks f t }

def goto (pc : ChannelPc) : Channel := s.setTask f { s.tasks f with pc := pc }

/-- The task is over. -/
def finish : Channel := s.setTask f { ChannelTask.fresh with pc := .gone }

/-- `wake` on the waker of the node of `g`. -/
def wake (g : Nat) : Channel :=
  if (s.tasks g).registered then
    s.setTask g { s.tasks g with registered := false, notified := true }
  else
    s

/-- The lock of a waiter list is taken in the step to `next`. -/
def locking (w : WaitList) (next : Channel) : Option Channel :=
  if w.lock = none then some next else none

/-! ## The send side -/

def trySendLoad (wait : Bool) : Channel :=
  if s.isClosed then s.finish f else s.goto f (.tryPush wait)

/-- `send` goes on to poll the send future. -/
def trySendPush (wait : Bool) : Channel :=
  if s.len < s.capacity then
    { s.goto f .notifyLoad with len := s.len + 1 }
  else if wait then
    s.goto f .push
  else
    s.finish f

def pollSend : Channel := s.setTask f { s.tasks f with notified := false, pc := .push }

def sendPush : Channel :=
  if s.len < s.capacity then
    { s.goto f (if (s.tasks f).queued then .sendRemove .done else .notifyLoad) with
      len := s.len + 1 }
  else
    s.goto f .sendClosed

def sendCheckClosed : Channel :=
  if s.isClosed then
    if (s.tasks f).queued then s.goto f (.sendRemove .closed) else s.finish f
  else
    s.goto f .sendLinked

def sendCheckLinked : Channel :=
  if (s.tasks f).queued ∧ f ∈ s.waiters.nodes then s.goto f .rearm else s.goto f .sendRegister

def sendRegisterWaker : Channel :=
  s.setTask f { s.tasks f with registered := true, pc := .sendEnter }

def sendLock : Channel :=
  { s.goto f .recheck with waiters := { s.waiters with lock := some f } }

/-- The loop begins again if there is room now. -/
def sendRecheck : Channel :=
  if s.len < s.capacity then
    { s.goto f .push with waiters := { s.waiters with lock := none } }
  else
    s.goto f .sendJoin

/-- `poll` returns with the node queued. -/
def sendWaits : Channel :=
  s.setTask f { s.tasks f with queued := true, pc := .sendPending }

def sendPushNode : Channel :=
  if f ∈ s.waiters.nodes then
    { s.sendWaits f with waiters := { s.waiters with lock := none } }
  else
    { s.goto f .sendCount with waiters := { s.waiters with nodes := s.waiters.nodes ++ [f] } }

def sendRaise : Channel :=
  { s.sendWaits f with
    waiters := { s.waiters with count := s.waiters.count + 1, lock := none } }

def sendRearm : Channel :=
  s.setTask f { s.tasks f with registered := true, pc := .sendPending }

/-- The call site of `remove_send_wait` goes on.  A future that has returned because the
channel is closed is dropped with `queued` still set. -/
def sendExit (exit : WaitExit) : Channel :=
  match exit with
  | .done => s.setTask f { s.tasks f with queued := false, pc := .notifyLoad }
  | .closed => s.goto f (.sendRemove .dropped)
  | .dropped => s.finish f

def removeSendWait (exit : WaitExit) : Channel :=
  if f ∈ s.waiters.nodes then
    { s.goto f (.sendUnlink exit) with
      waiters := { s.waiters with nodes := s.waiters.nodes.erase f, lock := some f } }
  else
    s.sendExit f exit

def sendLower (exit : WaitExit) : Channel :=
  { s.sendExit f exit with
    waiters := { s.waiters with count := s.waiters.count - 1, lock := none } }

def dropSend : Channel :=
  if (s.tasks f).queued then s.goto f (.sendRemove .dropped) else s.finish f

/-! ## `notify_recv_one` -/

def notifyRecvLoad : Channel :=
  if 0 < s.recvWaiters.count then s.goto f .notifyPop else s.finish f

def notifyRecvPop : Channel :=
  match s.recvWaiters.nodes with
  | [] => s.finish f
  | g :: rest =>
      { s.goto f (.notifySub g) with
        recvWaiters := { s.recvWaiters with nodes := rest, lock := some f } }

def notifyRecvSub (g : Nat) : Channel :=
  { s.goto f (.notifyWake g) with
    recvWaiters := { s.recvWaiters with count := s.recvWaiters.count - 1 } }

def notifyRecvWake (g : Nat) : Channel :=
  { (s.wake g).finish f with recvWaiters := { s.recvWaiters with lock := none } }

/-! ## The receive side -/

/-- A message was popped: the node leaves the list, if it is in it, before `release`. -/
def popped : Channel :=
  { s.goto f (if (s.tasks f).queued then .recvRemove .done else .releaseLoad) with
    len := s.len - 1 }

/-- `try_recv` has found nothing; `recv` goes on to poll the receive future. -/
def tryRecvFailed (wait : Bool) : Channel := if wait then s.goto f .pop else s.finish f

def tryRecvPop (wait : Bool) : Channel :=
  if 0 < s.len then s.popped f else s.goto f (.tryClosed wait)

def tryRecvClosed (wait : Bool) : Channel :=
  if s.isClosed then s.goto f (.tryAgain wait) else s.tryRecvFailed f wait

def tryRecvAgain (wait : Bool) : Channel :=
  if 0 < s.len then s.popped f else s.tryRecvFailed f wait

/-- A stream is ready to be polled again, a receive future is over. -/
def recvDone : Channel :=
  if (s.tasks f).stream then s.goto f .recvPending else s.finish f

def pollRecv : Channel := s.setTask f { s.tasks f with notified := false, pc := .pop }

def recvPop : Channel := if 0 < s.len then s.popped f else s.goto f .recvClosed

def recvCheckClosed : Channel :=
  if s.isClosed then s.goto f .popAgain else s.goto f .recvRegister

def recvPopAgain : Channel :=
  if 0 < s.len then
    s.popped f
  else if (s.tasks f).queued then
    s.goto f (.recvRemove .closed)
  else
    s.recvDone f

def recvRegisterWaker : Channel :=
  s.setTask f { s.tasks f with registered := true, pc := .recvLinked }

def recvCheckLinked : Channel :=
  if (s.tasks f).queued ∧ f ∈ s.recvWaiters.nodes then
    s.goto f .recvPending
  else
    s.goto f .recvJoin

/-- The loop begins again with the node queued. -/
def recvWaits : Channel := s.setTask f { s.tasks f with queued := true, pc := .pop }

def recvPushNode : Channel :=
  if f ∈ s.recvWaiters.nodes then
    s.recvWaits f
  else
    { s.goto f .recvCount with
      recvWaiters :=
        { s.recvWaiters with nodes := s.recvWaiters.nodes ++ [f], lock := some f } }

def recvRaise : Channel :=
  { s.recvWaits f with
    recvWaiters := { s.recvWaiters with count := s.recvWaiters.count + 1, lock := none } }

/-- The call site of `remove_recv_waiter` goes on. -/
def recvExit (exit : WaitExit) : Channel :=
  match exit with
  | .done => s.setTask f { s.tasks f with queued := false, pc := .releaseLoad }
  | .closed => s.goto f (if (s.tasks f).stream then .recvPending else .recvRemove .dropped)
  | .dropped => s.finish f

def removeRecvWaiter (exit : WaitExit) : Channel :=
  if f ∈ s.recvWaiters.nodes then
    { s.goto f (.recvUnlink exit) with
      recvWaiters :=
        { s.recvWaiters with nodes := s.recvWaiters.nodes.erase f, lock := some f } }
  else
    s.recvExit f exit

def recvLower (exit : WaitExit) : Channel :=
  { s.recvExit f exit with
    recvWaiters := { s.recvWaiters with count := s.recvWaiters.count - 1, lock := none } }

def dropRecv : Channel :=
  if (s.tasks f).queued then s.goto f (.recvRemove .dropped) else s.finish f

/-! ## `release` -/

def releaseCheck : Channel :=
  if 0 < s.waiters.count then s.goto f .releasePop else s.recvDone f

def releasePopNode : Channel :=
  match s.waiters.nodes with
  | [] => s.recvDone f
  | g :: rest =>
      { s.goto f (.releaseSub g) with
        waiters := { s.waiters with nodes := rest, lock := some f } }

def releaseLower (g : Nat) : Channel :=
  { s.goto f (.releaseWake g) with
    waiters := { s.waiters with count := s.waiters.count - 1 } }

def releaseWakeNode (g : Nat) : Channel :=
  { (s.wake g).recvDone f with waiters := { s.waiters with lock := none } }

/-! ## The endpoints -/

def cloneSender : Channel := { s.finish f with senderCount := s.senderCount + 1 }

def dropSender : Channel :=
  { (if s.senderCount = 1 then s.goto f .close else s.finish f) with
    senderCount := s.senderCount - 1 }

/-- The swap in `close`. -/
def closeSwap : Channel :=
  if s.isClosed then s.finish f else { s.goto f .closeEnter with isClosed := true }

def closeLock : Channel :=
  { s.goto f .closeDrain with recvWaiters := { s.recvWaiters with lock := some f } }

def closePop : Channel :=
  match s.recvWaiters.nodes with
  | [] => { s.finish f with recvWaiters := { s.recvWaiters with lock := none } }
  | g :: rest =>
      { s.goto f (.closeWake g) with recvWaiters := { s.recvWaiters with nodes := rest } }

def closeWakeNode (g : Nat) : Channel := (s.wake g).goto f .closeDrain

def cloneReceiver : Channel := { s.finish f with receiverCount := s.receiverCount + 1 }

def dropReceiver : Channel :=
  { s.goto f .dropLoad with receiverCount := s.receiverCount - 1 }

def dropReceiverLoad : Channel :=
  if s.receiverCount = 0 then s.goto f .closeRecv else s.finish f

/-- The swap in `close_recv`. -/
def closeRecvSwap : Channel :=
  if s.isClosed then s.finish f else { s.goto f .sendersEnter with isClosed := true }

def sendersLock : Channel :=
  { s.goto f .sendersDrain with waiters := { s.waiters with lock := some f } }

def sendersPop : Channel :=
  match s.waiters.nodes with
  | [] => s.goto f .sendersStore
  | g :: rest => { s.goto f (.sendersWake g) with waiters := { s.waiters with nodes := rest } }

def sendersWakeNode (g : Nat) : Channel := (s.wake g).goto f .sendersDrain

def sendersReset : Channel :=
  { s.finish f with waiters := { s.waiters with count := 0, lock := none } }

end Channel

/-- What a task is made to do. -/
inductive ChannelAction where
  | trySend
  | send
  | pollSend
  | dropSend
  | tryRecv
  | recv
  | stream
  | pollRecv
  | dropRecv
  | cloneSender
  | dropSender
  | cloneReceiver
  | dropReceiver
  | advance
  deriving DecidableEq, Repr

namespace Channel

/-- The next step of a task in the middle of a call. -/
def advance (s : Channel) (f : Nat) : Option Channel :=
  match (s.tasks f).pc with
  | .trySend wait => some (s.trySendLoad f wait)
  | .tryPush wait => some (s.trySendPush f wait)
  | .push => some (s.sendPush f)
  | .sendClosed => some (s.sendCheckClosed f)
  | .sendLinked => some (s.sendCheckLinked f)
  | .sendRegister => some (s.sendRegisterWaker f)
  | .sendEnter => locking s.waiters (s.sendLock f)
  | .recheck => some (s.sendRecheck f)
  | .sendJoin => some (s.sendPushNode f)
  | .sendCount => some (s.sendRaise f)
  | .rearm => some (s.sendRearm f)
  | .sendRemove exit => locking s.waiters (s.removeSendWait f exit)
  | .sendUnlink exit => some (s.sendLower f exit)
  | .notifyLoad => some (s.notifyRecvLoad f)
  | .notifyPop => locking s.recvWaiters (s.notifyRecvPop f)
  | .notifySub g => some (s.notifyRecvSub f g)
  | .notifyWake g => some (s.notifyRecvWake f g)
  | .tryRecv wait => some (s.tryRecvPop f wait)
  | .tryClosed wait => some (s.tryRecvClosed f wait)
  | .tryAgain wait => some (s.tryRecvAgain f wait)
  | .pop => some (s.recvPop f)
  | .recvClosed => some (s.recvCheckClosed f)
  | .popAgain => some (s.recvPopAgain f)
  | .recvRegister => some (s.recvRegisterWaker f)
  | .recvLinked => some (s.recvCheckLinked f)
  | .recvJoin => locking s.recvWaiters (s.recvPushNode f)
  | .recvCount => some (s.recvRaise f)
  | .recvRemove exit => locking s.recvWaiters (s.removeRecvWaiter f exit)
  | .recvUnlink exit => some (s.recvLower f exit)
  | .releaseLoad => some (s.releaseCheck f)
  | .releasePop => locking s.waiters (s.releasePopNode f)
  | .releaseSub g => some (s.releaseLower f g)
  | .releaseWake g => some (s.releaseWakeNode f g)
  | .close => some (s.closeSwap f)
  | .closeEnter => locking s.recvWaiters (s.closeLock f)
  | .closeDrain => some (s.closePop f)
  | .closeWake g => some (s.closeWakeNode f g)
  | .dropLoad => some (s.dropReceiverLoad f)
  | .closeRecv => some (s.closeRecvSwap f)
  | .sendersEnter => locking s.waiters (s.sendersLock f)
  | .sendersDrain => some (s.sendersPop f)
  | .sendersWake g => some (s.sendersWakeNode f g)
  | .sendersStore => some (s.sendersReset f)
  | .fresh | .sendPending | .recvPending | .gone => none

/-- A call through an endpoint, as long as there is one. -/
def through (endpoints : Nat) (next : Channel) : Option Channel :=
  if 0 < endpoints then some next else none

/-- One step of task `e.1`. -/
def step (s : Channel) (e : Nat × ChannelAction) : Option Channel :=
  match (s.tasks e.1).pc, e.2 with
  | .fresh, .trySend => through s.senderCount (s.goto e.1 (.trySend false))
  | .fresh, .send => through s.senderCount (s.goto e.1 (.trySend true))
  | .sendPending, .pollSend => some (s.pollSend e.1)
  | .sendPending, .dropSend => some (s.dropSend e.1)
  | .fresh, .tryRecv => through s.receiverCount (s.goto e.1 (.tryRecv false))
  | .fresh, .recv => through s.receiverCount (s.goto e.1 (.tryRecv true))
  | .fresh, .stream =>
      through s.receiverCount
        (s.setTask e.1 { ChannelTask.fresh with stream := true, pc := .recvPending })
  | .recvPending, .pollRecv => some (s.pollRecv e.1)
  | .recvPending, .dropRecv => some (s.dropRecv e.1)
  | .fresh, .cloneSender => through s.senderCount (s.cloneSender e.1)
  | .fresh, .dropSender => through s.senderCount (s.dropSender e.1)
  | .fresh, .cloneReceiver => through s.receiverCount (s.cloneReceiver e.1)
  | .fresh, .dropReceiver => through s.receiverCount (s.dropReceiver e.1)
  | _, .advance => s.advance e.1
  | _, _ => none

end Channel

/-- The steps as a relation. -/
def ChannelStep (s : Channel) (e : Nat × ChannelAction) (s' : Channel) : Prop :=
  s.step e = some s'

namespace ChannelPc

/-- A call or a future that borrows a sender. -/
def sending : ChannelPc → Bool
  | trySend _ | tryPush _ | sendPending | push | sendClosed | sendLinked | sendRegister
  | sendEnter | recheck | sendJoin | sendCount | rearm | sendRemove _ | sendUnlink _
  | notifyLoad | notifyPop | notifySub _ | notifyWake _ => true
  | _ => false

/-- A call or a future that borrows a receiver. -/
def receiving : ChannelPc → Bool
  | tryRecv _ | tryClosed _ | tryAgain _ | recvPending | pop | recvClosed | popAgain
  | recvRegister | recvLinked | recvJoin | recvCount | recvRemove _ | recvUnlink _
  | releaseLoad | releasePop | releaseSub _ | releaseWake _ => true
  | _ => false

end ChannelPc

/-- Calls and futures borrow their endpoint: the last one of a side is not dropped before
they are over. -/
def Channel.Borrows (s : Channel) (e : Nat × ChannelAction) : Prop :=
  (e.2 = .dropSender → s.senderCount = 1 → ∀ g, (s.tasks g).pc.sending = false) ∧
    (e.2 = .dropReceiver → s.receiverCount = 1 → ∀ g, (s.tasks g).pc.receiving = false)

end Veloq.Sync
