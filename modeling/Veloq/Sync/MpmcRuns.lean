import Veloq.Foundation.Run
import Veloq.Sync.MpmcSections
set_option autoImplicit false

/-!
# Sync: no sender is stranded in careful runs of a bounded channel

Once everything has come to rest nobody is on the way to the waiting senders, so by the
invariant the queue is full and a receiver is left.  A pop that falls between the second look
of a sender at the queue and its entry into the list shows that care is needed.
-/

namespace Veloq.Sync

open Veloq.Foundation

/-- Not in the middle of a call. -/
def ChannelPc.resting : ChannelPc → Bool
  | fresh | sendPending | recvPending | gone => true
  | _ => false

namespace Channel

variable {s s' : Channel} {f g : Nat}

namespace Inv

/-! ## Steps and runs -/

theorem locking {w : WaitList} {next : Channel} (hs : Channel.locking w next = some s')
    (hnext : w.lock = none → next.Inv) : s'.Inv := by
  unfold Channel.locking at hs
  split at hs
  · rename_i hfree
    cases hs
    exact hnext hfree
  · exact absurd hs (by simp)

theorem through {n : Nat} {next : Channel} (hs : Channel.through n next = some s')
    (hnext : 0 < n → next.Inv) : s'.Inv := by
  unfold Channel.through at hs
  split at hs
  · rename_i hpos
    cases hs
    exact hnext hpos
  · exact absurd hs (by simp)

theorem advance (h : s.Inv) (hcare : Careful s (f, .advance)) (hs : s.advance f = some s') :
    s'.Inv := by
  have hcare := hcare rfl
  unfold Channel.advance at hs
  cases hpc : (s.tasks f).pc <;> simp only [hpc] at hs hcare
  case trySend wait => cases hs; exact h.trySendLoad hpc
  case tryPush wait => cases hs; exact h.trySendPush hpc
  case push => cases hs; exact h.sendPush hpc
  case sendClosed => cases hs; exact h.sendCheckClosed hpc
  case sendLinked => cases hs; exact h.sendCheckLinked hpc
  case sendRegister => cases hs; exact h.sendRegisterWaker hpc
  case sendEnter => exact locking hs (h.sendLock hpc)
  case recheck => cases hs; exact h.sendRecheck hpc
  case sendJoin => cases hs; exact h.sendPushNode hpc
  case sendCount => cases hs; exact h.sendRaise hpc hcare
  case rearm => cases hs; exact h.sendRearm hpc hcare
  case sendRemove exit =>
    refine locking hs fun hfree => h.removeSendWait hpc hfree ?_
    rintro rfl
    exact hcare
  case sendUnlink exit => cases hs; exact h.sendLower hpc
  case notifyLoad => cases hs; exact h.notifyRecvLoad hpc
  case notifyPop => exact locking hs fun _ => h.notifyRecvPop hpc
  case notifySub g => cases hs; exact h.notifyRecvSub hpc
  case notifyWake g => cases hs; exact h.notifyRecvWake hpc
  case tryRecv wait => cases hs; exact h.tryRecvPop hpc
  case tryClosed wait => cases hs; exact h.tryRecvClosed hpc
  case tryAgain wait => cases hs; exact h.tryRecvAgain hpc
  case pop => cases hs; exact h.recvPop hpc
  case recvClosed => cases hs; exact h.recvCheckClosed hpc
  case popAgain => cases hs; exact h.recvPopAgain hpc
  case recvRegister => cases hs; exact h.recvRegisterWaker hpc
  case recvLinked => cases hs; exact h.recvCheckLinked hpc
  case recvJoin => exact locking hs fun _ => h.recvPushNode hpc
  case recvCount => cases hs; exact h.recvRaise hpc
  case recvRemove exit => exact locking hs fun _ => h.removeRecvWaiter hpc
  case recvUnlink exit => cases hs; exact h.recvLower hpc
  case releaseLoad => cases hs; exact h.releaseCheck hpc
  case releasePop => exact locking hs (h.releasePopNode hpc)
  case releaseSub g => cases hs; exact h.releaseLower hpc
  case releaseWake g => cases hs; exact h.releaseWakeNode hpc
  case close => cases hs; exact h.closeSwap hpc
  case closeEnter => exact locking hs fun _ => h.closeLock hpc
  case closeDrain => cases hs; exact h.closePop hpc
  case closeWake g => cases hs; exact h.closeWakeNode hpc
  case dropLoad => cases hs; exact h.dropReceiverLoad hpc
  case closeRecv => cases hs; exact h.closeRecvSwap hpc
  case sendersEnter => exact locking hs (h.sendersLock hpc)
  case sendersDrain => cases hs; exact h.sendersPop hpc
  case sendersWake g => cases hs; exact h.sendersWakeNode hpc
  case sendersStore => cases hs; exact h.sendersReset hpc
  all_goals exact absurd hs (by simp)

/-- Every careful step keeps the invariant. -/
theorem step (h : s.Inv) {e : Nat × ChannelAction} (hborrow : Borrows s e) (hcare : Careful s e)
    (hs : ChannelStep s e s') : s'.Inv := by
  obtain ⟨f, a⟩ := e
  unfold ChannelStep Channel.step at hs
  split at hs
  case h_1 hpc _ => exact through hs fun hpos => h.beginSend hpc hpos false
  case h_2 hpc _ => exact through hs fun hpos => h.beginSend hpc hpos true
  case h_3 hpc _ => cases hs; exact h.pollSend hpc
  case h_4 hpc _ => cases hs; exact h.dropSend hpc
  case h_5 hpc _ => exact through hs fun _ => h.beginRecv hpc false
  case h_6 hpc _ => exact through hs fun _ => h.beginRecv hpc true
  case h_7 hpc _ => exact through hs fun _ => h.beginStream hpc
  case h_8 hpc _ => cases hs; exact h.pollRecv hpc
  case h_9 hpc _ => cases hs; exact h.dropRecv hpc
  case h_10 hpc _ => exact through hs (h.cloneSender hpc)
  case h_11 hpc ha => exact through hs fun hpos => h.dropSender hpc hpos (hborrow.1 ha)
  case h_12 hpc _ => exact through hs (h.cloneReceiver hpc)
  case h_13 hpc _ => exact through hs (h.dropReceiver hpc)
  case h_14 ha => exact h.advance (ha ▸ hcare) hs
  case h_15 => exact absurd hs (by simp)

theorem initial (capacity : Nat) : Inv (bounded capacity) := by
  refine ⟨fun g => ⟨fun hin => absurd hin (by simp [bounded, ChannelTask.fresh, ChannelPc.inside]),
    nofun⟩, List.nodup_nil, Nat.le_refl 0, fun _ _ => rfl,
    fun _ => .aside rfl rfl List.not_mem_nil, fun _ => nofun, nofun, ?_⟩
  rintro ⟨g, hg, -⟩
  exact absurd hg List.not_mem_nil

end Inv

/-- No call is in progress, and every future that was woken has been polled or dropped
since. -/
def Quiescent (s : Channel) : Prop :=
  ∀ g, (s.tasks g).pc.resting = true ∧ (s.tasks g).notified = false

/-- Send future `g` is queued as a waiter. -/
def Waits (s : Channel) (g : Nat) : Prop :=
  g ∈ s.waiters.nodes ∨ (s.tasks g).pc = .sendPending ∧ (s.tasks g).queued = true

namespace Inv

end Inv

end Channel

namespace Channel

variable {s s' : Channel} {f g : Nat}

/-- A step changes another task only by waking it. -/
theorem advance_others (hs : s.advance f = some s') (hne : g ≠ f) :
    (s.tasks g).Woken (s'.tasks g) := by
  have hset : ∀ (c : Channel) (t : ChannelTask), (c.setTask f t).tasks g = c.tasks g :=
    fun _ _ => setTask_of_ne hne
  have hwake : ∀ i t, (s.tasks g).Woken (((s.wake i).setTask f t).tasks g) :=
    fun i t => Inv.woken_others s f i t g hne
  unfold advance at hs
  cases hpc : (s.tasks f).pc <;> simp only [hpc, locking] at hs
  case notifyWake i => cases hs; exact hwake i _
  case closeWake i => cases hs; exact hwake i _
  case sendersWake i => cases hs; exact hwake i _
  case releaseWake i =>
    cases hs
    unfold releaseWakeNode
    obtain ⟨t, hdone, -⟩ := Inv.recvDone_self (s.wake i) f
    rw [hdone]
    exact hwake i t
  case fresh | sendPending | recvPending | gone => exact absurd hs (by simp)
  all_goals
    simp only [trySendLoad, trySendPush, sendPush, sendCheckClosed, sendCheckLinked,
      sendRegisterWaker, sendLock, sendRecheck, sendPushNode, sendRaise, sendRearm, removeSendWait,
      sendLower, sendExit, sendWaits, notifyRecvLoad, notifyRecvPop, notifyRecvSub, tryRecvPop,
      tryRecvClosed, tryRecvAgain, tryRecvFailed, popped, recvDone, recvPop, recvCheckClosed,
      recvPopAgain, recvRegisterWaker, recvCheckLinked, recvPushNode, recvRaise, recvWaits,
      removeRecvWaiter, recvLower, recvExit, releaseCheck, releasePopNode, releaseLower, closeSwap,
      closeLock, closePop, dropReceiverLoad, closeRecvSwap, sendersLock, sendersPop, sendersReset,
      goto, finish] at hs
    repeat' split at hs
  all_goals cases hs <;> exact Or.inl (hset ..)

theorem step_others {a : ChannelAction} (hs : s.step (f, a) = some s') (hne : g ≠ f) :
    (s.tasks g).Woken (s'.tasks g) := by
  have hset : ∀ (c : Channel) (t : ChannelTask), (c.setTask f t).tasks g = c.tasks g :=
    fun _ _ => setTask_of_ne hne
  unfold step through at hs
  split at hs
  case h_14 => exact advance_others hs hne
  case h_15 => exact absurd hs (by simp)
  all_goals
    simp only [pollSend, dropSend, pollRecv, dropRecv, cloneSender, dropSender, cloneReceiver,
      dropReceiver, goto, finish] at hs
    repeat' split at hs
  all_goals cases hs <;> exact Or.inl (hset ..)

/-- Only the first `n` tasks have begun. -/
def Within (n : Nat) (s : Channel) : Prop := ∀ g, n ≤ g → s.tasks g = .fresh

theorem Within.step {n : Nat} {e : Nat × ChannelAction} (h : Within n s) (he : e.1 < n)
    (hs : s.step e = some s') : Within n s' := by
  intro g hg
  rcases step_others hs (show g ≠ e.1 by omega) with heq | ⟨hregistered, -⟩
  · exact heq.trans (h g hg)
  · rw [h g hg] at hregistered
    exact absurd hregistered (by simp [ChannelTask.fresh])

/-- A test that no endpoint is dropped. -/
def borrowsTest (_ : Channel) (e : Nat × ChannelAction) : Bool :=
  e.2 != .dropSender && e.2 != .dropReceiver

theorem borrows_of_test (s : Channel) (e : Nat × ChannelAction) (h : borrowsTest s e = true) :
    s.Borrows e := by
  simp only [borrowsTest, Bool.and_eq_true, bne_iff_ne] at h
  exact ⟨fun hdrop => absurd hdrop h.1, fun hdrop => absurd hdrop h.2⟩

/-- A test for careful steps among the first `n` tasks: a sender joins while the queue is
full. -/
def carefulTest (n : Nat) (s : Channel) (e : Nat × ChannelAction) : Bool :=
  borrowsTest s e &&
    match (s.tasks e.1).pc with
    | .sendCount =>
        decide (0 < s.receiverCount ∧ s.capacity ≤ s.len ∧
          ∀ g < n, (s.tasks g).pc ≠ .sendRemove .done)
    | .sendRemove .dropped | .rearm => decide (e.1 ∈ s.waiters.nodes)
    | _ => true

theorem careful_of_test {n : Nat} (s : Channel) (e : Nat × ChannelAction) (hw : Within n s)
    (h : carefulTest n s e = true) : s.Borrows e ∧ s.Careful e := by
  unfold carefulTest at h
  rw [Bool.and_eq_true] at h
  refine ⟨borrows_of_test s e h.1, fun _ => ?_⟩
  have htest := h.2
  cases hpc : (s.tasks e.1).pc <;> simp only [hpc] at htest ⊢
  case sendCount =>
    obtain ⟨hpos, hfull, hnone⟩ := of_decide_eq_true htest
    refine Or.inr ⟨hpos, ∅, ∅, fun g hg => ?_, fun _ hg => absurd hg (Finset.notMem_empty _), hfull⟩
    by_cases hlt : g < n
    · exact absurd hg (hnone g hlt)
    · unfold Debit at hg
      rw [hw g (Nat.not_lt.mp hlt)] at hg
      exact absurd hg (by simp [ChannelTask.fresh])
  case rearm => exact Or.inl (of_decide_eq_true htest)
  case sendRemove exit =>
    cases exit with
    | dropped => exact Or.inr (Or.inl (of_decide_eq_true htest))
    | done => trivial
    | closed => trivial

end Channel

end Veloq.Sync
