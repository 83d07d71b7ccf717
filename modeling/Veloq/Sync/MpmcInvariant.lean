import Veloq.Foundation.Census
import Veloq.Sync.Mpmc
set_option autoImplicit false

/-!
# Sync: who looks after the waiting senders of a bounded channel

As long as a sender is linked and counted, the last receiver is about to wake all of them, or
there is for every free place of the queue somebody who is going to use it or to pass it on:
a receiver on its way to pop the list, or a sender that was popped and is going to push.
-/

namespace Veloq.Sync

open Veloq.Foundation

namespace ChannelPc

/-- Inside the lock of the list of senders. -/
def inside : ChannelPc → Bool
  | recheck | sendJoin | sendCount | sendUnlink _ | releaseSub _ | releaseWake _ | sendersDrain
  | sendersWake _ | sendersStore => true
  | _ => false

/-- A send future whose node may be linked. -/
def node : ChannelPc → Bool
  | sendPending | push | sendClosed | sendLinked | sendRegister | sendEnter | recheck | sendJoin
  | sendCount | rearm | sendRemove _ => true
  | _ => false

/-- On the way into the list. -/
def apart : ChannelPc → Bool
  | sendRegister | sendEnter | recheck | sendJoin => true
  | _ => false

/-- The waker has been registered in this poll. -/
def armed : ChannelPc → Bool
  | sendEnter | recheck | sendJoin | sendCount => true
  | _ => false

/-- A receiver that has popped a message and is on its way to the list. -/
def releasing : ChannelPc → Bool
  | recvRemove .done | recvUnlink .done | releaseLoad | releasePop => true
  | _ => false

/-- The sender that was popped and is about to be woken. -/
def calling : ChannelPc → Option Nat
  | releaseSub g | releaseWake g | sendersWake g => some g
  | _ => none

/-- `notify_all_senders` is running. -/
def draining : ChannelPc → Bool
  | sendersEnter | sendersDrain | sendersWake _ | sendersStore => true
  | _ => false

/-- A node has been unlinked that is still counted. -/
def owed : ChannelPc → Nat
  | sendUnlink _ | releaseSub _ => 1
  | _ => 0

/-- A node has been linked that is not counted yet. -/
def due : ChannelPc → Nat
  | sendCount => 1
  | _ => 0

theorem node_of_armed {pc : ChannelPc} (h : pc.armed = true) : pc.node = true := by
  cases pc <;> simp_all [armed, node]

theorem sending_of_node {pc : ChannelPc} (h : pc.node = true) : pc.sending = true := by
  cases pc <;> simp_all [sending, node]

theorem not_releasing_of_node {pc : ChannelPc} (h : pc.node = true) : pc.releasing = false := by
  cases pc <;> simp_all [releasing, node]

theorem calling_of_outside {pc : ChannelPc} (h : pc.inside = false) : pc.calling = none := by
  cases pc <;> simp_all [inside, calling]

theorem ne_count_of_outside {pc : ChannelPc} (h : pc.inside = false) : pc ≠ .sendCount := by
  rintro rfl
  exact absurd h (by simp [inside])

end ChannelPc

namespace ChannelTask

/-- The task is as it was, or was woken. -/
def Woken (t t' : ChannelTask) : Prop :=
  t' = t ∨ t.registered = true ∧ t' = { t with registered := false, notified := true }

/-- What a task knows, given whether its node is linked, whether it is about to be woken and
whether all senders or all receivers are gone. -/
structure Own (t : ChannelTask) (linked called unsent unreceived : Prop) : Prop where
  node : linked → t.pc.node = true ∧ (t.queued = true ∨ t.pc = .sendCount)
  apart : t.pc.apart = true → ¬ linked
  counting : t.pc = .sendCount → linked
  armed : t.pc.armed = true → t.registered = true ∨ t.notified = true
  alarmed : t.pc = .sendPending → t.queued = true →
    t.notified = true ∨ t.registered = true ∧ (linked ∨ called)
  close : t.pc = .close → unsent
  closeRecv : t.pc = .closeRecv → unreceived

variable {t t' : ChannelTask} {linked linked' called called' unsent unsent' : Prop}
  {unreceived unreceived' : Prop}

theorem Woken.pc (h : t.Woken t') : t'.pc = t.pc := by
  rcases h with rfl | ⟨-, rfl⟩ <;> rfl

theorem Woken.queued (h : t.Woken t') : t'.queued = t.queued := by
  rcases h with rfl | ⟨-, rfl⟩ <;> rfl

theorem Woken.notified (h : t.Woken t') (hn : t.notified = true) : t'.notified = true := by
  rcases h with rfl | ⟨-, rfl⟩
  · exact hn
  · rfl

theorem Woken.registered (h : t.Woken t') (hr : t.registered = true) :
    t'.registered = true ∨ t'.notified = true := by
  rcases h with rfl | ⟨-, rfl⟩
  · exact Or.inl hr
  · exact Or.inr rfl

/-- A task that is not a send future with a node. -/
theorem Own.away (hnode : t.pc.node = false) (hnot : ¬ linked) (hclose : t.pc = .close → unsent)
    (hcloseRecv : t.pc = .closeRecv → unreceived) : t.Own linked called unsent unreceived := by
  have hne : ∀ pc : ChannelPc, pc.node = true → t.pc ≠ pc := by
    rintro _ hpc rfl
    rw [hnode] at hpc
    exact absurd hpc (by simp)
  exact ⟨fun hl => absurd hl hnot, fun _ => hnot, fun hpc => absurd hpc (hne _ rfl),
    fun ha => absurd rfl (hne _ (ChannelPc.node_of_armed ha)), fun hpc => absurd hpc (hne _ rfl),
    hclose, hcloseRecv⟩

/-- A task that does not act goes on knowing what it knew. -/
theorem Own.woken (h : t.Own linked called unsent unreceived) (hw : t.Woken t') (hlinked : linked' → linked)
    (hcounting : t.pc = .sendCount → linked → linked')
    (hcalled : t.registered = true → linked ∨ called →
      t'.notified = true ∨ linked' ∨ called')
    (hunsent : unsent → unsent') (hunreceived : unreceived → unreceived') :
    t'.Own linked' called' unsent' unreceived' := by
  refine ⟨fun hl => ?_, fun ha hl => ?_, fun hc => ?_, fun ha => ?_, fun hp hq => ?_, fun hc => ?_,
    fun hc => ?_⟩
  · rw [hw.pc, hw.queued]
    exact h.node (hlinked hl)
  · rw [hw.pc] at ha
    exact h.apart ha (hlinked hl)
  · rw [hw.pc] at hc
    exact hcounting hc (h.counting hc)
  · rw [hw.pc] at ha
    rcases h.armed ha with hr | hn
    · exact hw.registered hr
    · exact Or.inr (hw.notified hn)
  · rw [hw.pc] at hp
    rw [hw.queued] at hq
    rcases h.alarmed hp hq with hn | ⟨hr, hcall⟩
    · exact Or.inl (hw.notified hn)
    · rcases hcalled hr hcall with hn | hcall'
      · exact Or.inl hn
      · exact (hw.registered hr).elim (fun hr' => Or.inr ⟨hr', hcall'⟩) Or.inl
  · rw [hw.pc] at hc
    exact hunsent (h.close hc)
  · rw [hw.pc] at hc
    exact hunreceived (h.closeRecv hc)

end ChannelTask

namespace Channel

/-- Sender `g` was popped and is about to be woken. -/
def Called (s : Channel) (g : Nat) : Prop := ∃ i, (s.tasks i).pc.calling = some g

/-- `g` is going to use a free place of the queue or to pass it on. -/
def Credit (s : Channel) (g : Nat) : Prop :=
  (s.tasks g).pc.releasing = true ∨
    (s.tasks g).pc.node = true ∧ (s.tasks g).queued = true ∧
      (g ∈ s.waiters.nodes → (s.tasks g).pc = .sendCount)

/-- `g` has pushed its message and has yet to leave the list. -/
def Debit (s : Channel) (g : Nat) : Prop := (s.tasks g).pc = .sendRemove .done

/-- `g` is going to wake all senders. -/
def Closing (s : Channel) (g : Nat) : Prop :=
  (s.tasks g).pc.draining = true ∨
    s.isClosed = false ∧
      ((s.tasks g).pc = .closeRecv ∨ (s.tasks g).pc = .dropLoad ∧ s.receiverCount = 0)

/-- Every free place of the queue has somebody to use it. -/
def Served (s : Channel) : Prop := Backed s.Debit s.Credit s.capacity s.len

/-- The waiting senders are looked after. -/
def Safe (s : Channel) : Prop := (∃ g, s.Closing g) ∨ 0 < s.receiverCount ∧ s.Served

/-- A sender is linked and counted. -/
def Published (s : Channel) : Prop := ∃ g ∈ s.waiters.nodes, (s.tasks g).pc ≠ .sendCount

/-- Where the holder of the lock of the senders is. -/
def holder (s : Channel) : ChannelPc :=
  match s.waiters.lock with
  | none => .fresh
  | some i => (s.tasks i).pc

/-- Nobody is linked without being counted, except the node of the holder of the lock. -/
def Counted (s : Channel) : Prop :=
  s.waiters.nodes.length + s.holder.owed ≤ s.waiters.count + s.holder.due

structure Inv (s : Channel) : Prop where
  lock : ∀ g, (s.tasks g).pc.inside = true ↔ s.waiters.lock = some g
  nodup : s.waiters.nodes.Nodup
  counted : s.Counted
  drained : ∀ g, (s.tasks g).pc = .sendersStore → s.waiters.nodes = []
  own : ∀ g, (s.tasks g).Own (g ∈ s.waiters.nodes) (s.Called g) (s.senderCount = 0)
    (s.receiverCount = 0)
  sending : ∀ g, (s.tasks g).pc.sending = true → 0 < s.senderCount
  closed : s.isClosed = true → s.senderCount = 0 ∨ s.receiverCount = 0
  covered : s.Published → s.Safe

/-! ## Frames -/

variable {s s' : Channel} {f g : Nat} {t : ChannelTask} {pc : ChannelPc}

@[simp] theorem setTask_self : (s.setTask f t).tasks f = t := Function.update_self ..

theorem setTask_of_ne (h : g ≠ f) : (s.setTask f t).tasks g = s.tasks g :=
  Function.update_of_ne h ..

/-- What a step of task `f` leaves alone. -/
structure Frame (s s' : Channel) (f : Nat) : Prop where
  others : ∀ g, g ≠ f → (s.tasks g).Woken (s'.tasks g)
  lock : ∀ g, g ≠ f → (s'.waiters.lock = some g ↔ s.waiters.lock = some g)
  linked : ∀ g, g ≠ f → g ∈ s'.waiters.nodes → g ∈ s.waiters.nodes
  locked : ∀ g, g ≠ f → s.waiters.lock = some g → s'.waiters.nodes = s.waiters.nodes
  called : ∀ g, g ≠ f → (s.tasks g).registered = true → g ∈ s.waiters.nodes ∨ s.Called g →
    (s'.tasks g).notified = true ∨ g ∈ s'.waiters.nodes ∨ s'.Called g

/-- What a step of task `f` does to the endpoints and the closed flag. -/
structure Ends (s s' : Channel) (f : Nat) : Prop where
  senders : ∀ g, g ≠ f → (s.tasks g).pc.sending = true → 0 < s'.senderCount
  unsent : s.senderCount = 0 → s'.senderCount = 0
  unreceived : s.receiverCount = 0 → s'.receiverCount = 0
  closed : s'.isClosed = true → s'.senderCount = 0 ∨ s'.receiverCount = 0

/-- The invariant from what a step does to its own task and to the shared state. -/
theorem Inv.of_frame (h : s.Inv) (hframe : Frame s s' f) (hends : Ends s s' f)
    (hlock : (s'.tasks f).pc.inside = true ↔ s'.waiters.lock = some f)
    (hnodup : s'.waiters.nodes.Nodup) (hcounted : s'.Counted)
    (hdrained : (s'.tasks f).pc = .sendersStore → s'.waiters.nodes = [])
    (hown : (s'.tasks f).Own (f ∈ s'.waiters.nodes) (s'.Called f) (s'.senderCount = 0)
      (s'.receiverCount = 0))
    (hsending : (s'.tasks f).pc.sending = true → 0 < s'.senderCount)
    (hcovered : s'.Published → s'.Safe) : s'.Inv := by
  have hpc : ∀ g, g ≠ f → (s'.tasks g).pc = (s.tasks g).pc := fun g hne =>
    (hframe.others g hne).pc
  refine ⟨fun g => ?_, hnodup, hcounted, fun g => ?_, fun g => ?_, fun g => ?_, hends.closed,
    hcovered⟩
  · by_cases hne : g = f
    · subst hne
      exact hlock
    · rw [hpc g hne, hframe.lock g hne]
      exact h.lock g
  · by_cases hne : g = f
    · subst hne
      exact hdrained
    · intro hstore
      rw [hpc g hne] at hstore
      have hlock := (h.lock g).mp (by rw [hstore]; rfl)
      rw [hframe.locked g hne hlock]
      exact h.drained g hstore
  · by_cases hne : g = f
    · subst hne
      exact hown
    · refine (h.own g).woken (hframe.others g hne) (hframe.linked g hne) (fun hcount hmem => ?_)
        (hframe.called g hne) hends.unsent hends.unreceived
      have hlock := (h.lock g).mp (by rw [hcount]; rfl)
      rw [hframe.locked g hne hlock]
      exact hmem
  · by_cases hne : g = f
    · subst hne
      exact hsending
    · rw [hpc g hne]
      exact hends.senders g hne

theorem Frame.credit (h : Frame s s' f) (hne : g ≠ f) (hg : s.Credit g) : s'.Credit g := by
  have hw := h.others g hne
  unfold Credit at hg ⊢
  rw [hw.pc, hw.queued]
  exact hg.imp_right fun ⟨hnode, hqueued, hlinked⟩ =>
    ⟨hnode, hqueued, fun hmem => hlinked (h.linked g hne hmem)⟩

theorem Frame.debit (h : Frame s s' f) (hne : g ≠ f) (hg : s'.Debit g) : s.Debit g := by
  unfold Debit at hg ⊢
  rwa [(h.others g hne).pc] at hg

theorem Frame.closing (h : Frame s s' f) (hclosed : s'.isClosed = s.isClosed)
    (hreceivers : s'.receiverCount = s.receiverCount) (hne : g ≠ f) (hg : s.Closing g) :
    s'.Closing g := by
  unfold Closing at hg ⊢
  rw [(h.others g hne).pc, hclosed, hreceivers]
  exact hg

/-- The senders stay safe if `f`'s part in it does. -/
theorem Frame.safe (h : Frame s s' f) (hclosed : s'.isClosed = s.isClosed)
    (hreceivers : s'.receiverCount = s.receiverCount) (hs : s.Safe)
    (hclosing : s.Closing f → s'.Closing f) (hserved : s.Served → s'.Served) : s'.Safe := by
  rcases hs with ⟨g, hg⟩ | ⟨hpos, hback⟩
  · by_cases hne : g = f
    · subst hne
      exact Or.inl ⟨g, hclosing hg⟩
    · exact Or.inl ⟨g, h.closing hclosed hreceivers hne hg⟩
  · exact Or.inr ⟨by rw [hreceivers]; exact hpos, hserved hback⟩

/-- The places stay served if `f`'s part in it does. -/
theorem Frame.served (h : Frame s s' f) (hcapacity : s'.capacity = s.capacity)
    (hlen : s.len ≤ s'.len) (hdebit : s'.Debit f → s.Debit f)
    (hcredit : s.Credit f → s'.Credit f) (hs : s.Served) : s'.Served := by
  unfold Served at hs ⊢
  rw [hcapacity]
  refine hs.mono (fun g hg => ?_) (fun g hg => ?_) hlen
  · by_cases hne : g = f
    · subst hne
      exact hdebit hg
    · exact h.debit hne hg
  · by_cases hne : g = f
    · subst hne
      exact hcredit hg
    · exact h.credit hne hg

/-! ## What `wake` leaves alone -/

theorem wake_tasks (g i : Nat) : (s.tasks i).Woken ((s.wake g).tasks i) := by
  unfold wake
  split
  · rename_i hregistered
    by_cases hne : i = g
    · subst hne
      rw [setTask_self]
      exact Or.inr ⟨hregistered, rfl⟩
    · rw [setTask_of_ne hne]
      exact Or.inl rfl
  · exact Or.inl rfl

theorem wake_notified (h : (s.tasks g).registered = true) : ((s.wake g).tasks g).notified = true := by
  unfold wake
  rw [if_pos h, setTask_self]

@[simp] theorem wake_waiters (g : Nat) : (s.wake g).waiters = s.waiters := by
  unfold wake; split <;> rfl

@[simp] theorem wake_capacity (g : Nat) : (s.wake g).capacity = s.capacity := by
  unfold wake; split <;> rfl

@[simp] theorem wake_len (g : Nat) : (s.wake g).len = s.len := by
  unfold wake; split <;> rfl

@[simp] theorem wake_isClosed (g : Nat) : (s.wake g).isClosed = s.isClosed := by
  unfold wake; split <;> rfl

@[simp] theorem wake_senderCount (g : Nat) : (s.wake g).senderCount = s.senderCount := by
  unfold wake; split <;> rfl

@[simp] theorem wake_receiverCount (g : Nat) : (s.wake g).receiverCount = s.receiverCount := by
  unfold wake; split <;> rfl

end Channel

end Veloq.Sync
