import Veloq.Sync.MpmcInvariant
set_option autoImplicit false

/-!
# Sync: the steps of a bounded channel keep the senders looked after

One lemma for each step.  A step needs care where it takes away somebody the waiting senders
rely on: where a sender that was popped is dropped, and where a sender is counted into the
list or arms its waker after the moment that mattered to it has passed.
-/

namespace Veloq.Sync

open Veloq.Foundation

namespace ChannelPc

/-- On the way to waking all senders. -/
def closer : ChannelPc → Bool
  | dropLoad | closeRecv | sendersEnter | sendersDrain | sendersWake _ | sendersStore => true
  | _ => false

/-- About to swap the closed flag. -/
def last : ChannelPc → Bool
  | close | closeRecv => true
  | _ => false

theorem closer_of_draining {pc : ChannelPc} (h : pc.draining = true) : pc.closer = true := by
  cases pc <;> simp_all [draining, closer]

end ChannelPc

namespace ChannelTask

variable {t t' : ChannelTask} {linked called called' unsent unreceived : Prop}

/-- A task that is neither a send future with a node nor about to close the channel. -/
theorem Own.aside (hnode : t.pc.node = false) (hlast : t.pc.last = false) (hnot : ¬ linked) :
    t.Own linked called unsent unreceived := by
  refine .away hnode hnot (fun hc => ?_) fun hc => ?_
  · rw [hc] at hlast
    exact absurd hlast (by simp [ChannelPc.last])
  · rw [hc] at hlast
    exact absurd hlast (by simp [ChannelPc.last])

/-- A send future that is not linked and has nothing else to keep. -/
theorem Own.loose (hnot : ¬ linked) (hnode : t.pc.node = true) (harmed : t.pc.armed = false)
    (hpending : t.pc ≠ .sendPending) : t.Own linked called unsent unreceived := by
  refine ⟨fun hl => absurd hl hnot, fun _ => hnot, fun hc => ?_,
    fun ha => absurd ha (by simp [harmed]), fun hp => absurd hp hpending, fun hc => ?_,
    fun hc => ?_⟩
  · rw [hc] at harmed
    exact absurd harmed (by simp [ChannelPc.armed])
  · rw [hc] at hnode
    exact absurd hnode (by simp [ChannelPc.node])
  · rw [hc] at hnode
    exact absurd hnode (by simp [ChannelPc.node])

/-- A send future goes on, queued or not as before. -/
theorem Own.goOn (h : t.Own linked called unsent unreceived) (hcount : t.pc ≠ .sendCount)
    (hnode : t'.pc.node = true) (hqueued : t'.queued = t.queued) (hapart : t'.pc.apart = false)
    (harmed : t'.pc.armed = false) (hpending : t'.pc ≠ .sendPending) :
    t'.Own linked called' unsent unreceived := by
  by_cases hl : linked
  · refine ⟨fun _ => ⟨hnode, Or.inl ?_⟩, fun ha => absurd ha (by simp [hapart]), fun _ => hl,
      fun ha => absurd ha (by simp [harmed]), fun hp => absurd hp hpending, fun hc => ?_,
      fun hc => ?_⟩
    · rw [hqueued]
      exact (h.node hl).2.resolve_right hcount
    · rw [hc] at hnode
      exact absurd hnode (by simp [ChannelPc.node])
    · rw [hc] at hnode
      exact absurd hnode (by simp [ChannelPc.node])
  · exact .loose hl hnode harmed hpending

end ChannelTask

namespace Channel

variable {s s' : Channel} {f g : Nat} {t : ChannelTask} {pc : ChannelPc}

/-! ## The moments that need care -/

/-- The waiting senders are looked after by others than `f`. -/
def SafeWithout (s : Channel) (f : Nat) : Prop :=
  (∃ g, s.Closing g) ∨
    0 < s.receiverCount ∧ Backed s.Debit (fun g => g ≠ f ∧ s.Credit g) s.capacity s.len

/-- A sender is counted into the list only if the senders are looked after without it; one
that was popped is dropped only if so, or if nobody else is linked or the channel is closed;
and a waker is armed only while its node is linked or the wake-up will be noticed. -/
def Careful (s : Channel) (e : Nat × ChannelAction) : Prop :=
  e.2 = .advance →
    match (s.tasks e.1).pc with
    | .sendCount => s.SafeWithout e.1
    | .sendRemove .dropped =>
        s.isClosed = true ∨ e.1 ∈ s.waiters.nodes ∨ s.waiters.nodes = [] ∨ s.SafeWithout e.1
    | .rearm => e.1 ∈ s.waiters.nodes ∨ s.Called e.1 ∨ (s.tasks e.1).notified = true
    | _ => True

/-! ## Steps outside the lock of the senders -/

/-- The endpoints, the closed flag and the list of the senders stay as they are. -/
structure Steady (s s' : Channel) : Prop where
  capacity : s'.capacity = s.capacity
  closed : s'.isClosed = s.isClosed
  senders : s'.senderCount = s.senderCount
  receivers : s'.receiverCount = s.receiverCount

theorem Ends.same (h : s.Inv) (hsteady : Steady s s') : Ends s s' f := by
  refine ⟨fun g _ hg => ?_, fun hzero => ?_, fun hzero => ?_, fun hclosed => ?_⟩
  · rw [hsteady.senders]
    exact h.sending g hg
  · rw [hsteady.senders]
    exact hzero
  · rw [hsteady.receivers]
    exact hzero
  · rw [hsteady.senders, hsteady.receivers]
    exact h.closed (hsteady.closed ▸ hclosed)

theorem Frame.outside (hothers : ∀ g, g ≠ f → (s.tasks g).Woken (s'.tasks g))
    (hwaiters : s'.waiters = s.waiters) (hout : (s.tasks f).pc.inside = false) :
    Frame s s' f := by
  refine ⟨hothers, fun g _ => by rw [hwaiters], fun g _ => by rw [hwaiters]; exact id,
    fun g _ _ => by rw [hwaiters], ?_⟩
  rintro g - - (hmem | ⟨i, hi⟩)
  · exact Or.inr (Or.inl (by rw [hwaiters]; exact hmem))
  · have hne : i ≠ f := by
      rintro rfl
      rw [ChannelPc.calling_of_outside hout] at hi
      exact absurd hi (by simp)
    exact Or.inr (Or.inr ⟨i, by rw [(hothers i hne).pc]; exact hi⟩)

theorem not_closing (hpc : (s.tasks f).pc = pc) (hcloser : pc.closer = false) : ¬ s.Closing f := by
  subst hpc
  rintro (hdraining | ⟨-, hpc | ⟨hpc, -⟩⟩)
  · rw [ChannelPc.closer_of_draining hdraining] at hcloser
    exact absurd hcloser (by simp)
  · rw [hpc] at hcloser
    exact absurd hcloser (by simp [ChannelPc.closer])
  · rw [hpc] at hcloser
    exact absurd hcloser (by simp [ChannelPc.closer])

theorem not_credit (hpc : (s.tasks f).pc = pc) (hreleasing : pc.releasing = false)
    (hnode : pc.node = false ∨ (s.tasks f).queued = false) : ¬ s.Credit f := by
  subst hpc
  rintro (hr | ⟨hn, hq, -⟩)
  · rw [hreleasing] at hr
    exact absurd hr (by simp)
  · rcases hnode with hnode | hqueued
    · rw [hnode] at hn
      exact absurd hn (by simp)
    · rw [hqueued] at hq
      exact absurd hq (by simp)

/-- A sender that was popped goes on. -/
theorem Credit.goOn (h : s.Credit f) (hpc : (s.tasks f).pc = pc) (hself : s'.tasks f = t)
    (hnodes : s'.waiters.nodes = s.waiters.nodes) (hreleasing : pc.releasing = false)
    (hcount : pc ≠ .sendCount) (hnode : t.pc.node = true) (hqueued : t.queued = (s.tasks f).queued) :
    s'.Credit f := by
  subst hpc
  rcases h with hr | ⟨-, hq, hlinked⟩
  · rw [hreleasing] at hr
    exact absurd hr (by simp)
  · refine Or.inr ⟨by rw [hself]; exact hnode, by rw [hself, hqueued]; exact hq, ?_⟩
    rw [hnodes]
    exact fun hmem => absurd (hlinked hmem) hcount

namespace Inv

/-- A task without a node is not linked. -/
theorem not_linked (h : s.Inv) (hpc : (s.tasks f).pc = pc) (hnode : pc.node = false) :
    f ∉ s.waiters.nodes := by
  subst hpc
  intro hmem
  rw [((h.own f).node hmem).1] at hnode
  exact absurd hnode (by simp)

/-- A task that is not inside does not hold the lock. -/
theorem not_holder (h : s.Inv) (hpc : (s.tasks f).pc = pc) (hout : pc.inside = false) :
    s.waiters.lock ≠ some f := by
  subst hpc
  intro hlock
  rw [(h.lock f).mpr hlock] at hout
  exact absurd hout (by simp)

theorem counted_outside (h : s.Inv) (hothers : ∀ g, g ≠ f → (s.tasks g).Woken (s'.tasks g))
    (hwaiters : s'.waiters = s.waiters) (hlock : s.waiters.lock ≠ some f) : s'.Counted := by
  have hcounted := h.counted
  have hholder : s'.holder = s.holder := by
    unfold holder
    rw [hwaiters]
    split
    · rfl
    · rename_i i hi
      refine (hothers i ?_).pc
      rintro rfl
      exact hlock hi
  unfold Counted at hcounted ⊢
  rw [hholder, hwaiters]
  exact hcounted

/-- A task acts outside the lock. -/
theorem outside (h : s.Inv) (hothers : ∀ g, g ≠ f → (s.tasks g).Woken (s'.tasks g))
    (hwaiters : s'.waiters = s.waiters) (hends : Ends s s' f) (hpc : (s.tasks f).pc = pc)
    (hself : s'.tasks f = t) (hout : pc.inside = false) (hout' : t.pc.inside = false)
    (hown : t.Own (f ∈ s.waiters.nodes) (s'.Called f) (s'.senderCount = 0) (s'.receiverCount = 0))
    (hsending : t.pc.sending = true → 0 < s'.senderCount)
    (hsafe : s.Published → s.Safe → s'.Safe) : s'.Inv := by
  have hlock := h.not_holder hpc hout
  have hframe : Frame s s' f := Frame.outside hothers hwaiters (by rw [hpc]; exact hout)
  refine h.of_frame hframe hends ?_ ?_ (h.counted_outside hothers hwaiters hlock) ?_ ?_ ?_ ?_
  · rw [hself, hout', hwaiters]
    exact ⟨nofun, fun heq => absurd heq hlock⟩
  · rw [hwaiters]
    exact h.nodup
  · rw [hself]
    intro hstore
    rw [hstore] at hout'
    exact absurd hout' (by simp [ChannelPc.inside])
  · rw [hself, hwaiters]
    exact hown
  · rw [hself]
    exact hsending
  · rintro ⟨g, hg, hcount⟩
    rw [hwaiters] at hg
    have hpublished : s.Published := by
      refine ⟨g, hg, ?_⟩
      by_cases hne : g = f
      · subst hne
        rw [hpc]
        exact ChannelPc.ne_count_of_outside hout
      · rw [(hothers g hne).pc] at hcount
        exact hcount
    exact hsafe hpublished (h.covered hpublished)

/-- A task acts outside the lock, without closing anything and without loss of credit. -/
theorem quiet (h : s.Inv) (hothers : ∀ g, g ≠ f → (s.tasks g).Woken (s'.tasks g))
    (hwaiters : s'.waiters = s.waiters) (hsteady : Steady s s') (hlen : s.len ≤ s'.len)
    (hpc : (s.tasks f).pc = pc) (hself : s'.tasks f = t)
    (hout : pc.inside = false ∧ pc.closer = false) (hout' : t.pc.inside = false)
    (hown : t.Own (f ∈ s.waiters.nodes) (s'.Called f) (s.senderCount = 0) (s.receiverCount = 0))
    (hsending : t.pc.sending = true → 0 < s.senderCount)
    (hdebit : t.pc = .sendRemove .done → pc = .sendRemove .done)
    (hcredit : s.Credit f → s'.Credit f) : s'.Inv := by
  have hframe : Frame s s' f := Frame.outside hothers hwaiters (by rw [hpc]; exact hout.1)
  refine h.outside hothers hwaiters (Ends.same h hsteady) hpc hself hout.1 hout' ?_ ?_ fun _ hs => ?_
  · rw [hsteady.senders, hsteady.receivers]
    exact hown
  · rw [hsteady.senders]
    exact hsending
  · refine hframe.safe hsteady.closed hsteady.receivers hs
      (fun hc => absurd hc (not_closing hpc hout.2)) (hframe.served hsteady.capacity hlen ?_ hcredit)
    unfold Debit
    rw [hself, hpc]
    exact hdebit

/-- A task without a node and without credit acts. -/
theorem away (h : s.Inv) (hothers : ∀ g, g ≠ f → (s.tasks g).Woken (s'.tasks g))
    (hwaiters : s'.waiters = s.waiters) (hsteady : Steady s s') (hlen : s.len ≤ s'.len)
    (hpc : (s.tasks f).pc = pc) (hself : s'.tasks f = t)
    (hout : pc.inside = false ∧ pc.closer = false ∧ pc.node = false ∧ pc.releasing = false)
    (hout' : t.pc.inside = false ∧ t.pc.node = false ∧ t.pc.last = false)
    (hsending : t.pc.sending = true → 0 < s.senderCount) : s'.Inv := by
  have hnot := h.not_linked hpc hout.2.2.1
  refine h.quiet hothers hwaiters hsteady hlen hpc hself ⟨hout.1, hout.2.1⟩ hout'.1
    (.aside hout'.2.1 hout'.2.2 hnot) hsending ?_ ?_
  · intro heq
    rw [heq] at hout'
    exact absurd hout'.2.1 (by simp [ChannelPc.node])
  · exact fun hc => absurd hc (not_credit hpc hout.2.2.2 (Or.inl hout.2.2.1))

/-- `quiet` for a step that changes no other task. -/
theorem act (h : s.Inv) {w : WaitList} {n : Nat} (hlen : s.len ≤ n) (hpc : (s.tasks f).pc = pc)
    (hout : pc.inside = false ∧ pc.closer = false) (hout' : t.pc.inside = false)
    (hown : t.Own (f ∈ s.waiters.nodes) (Called { s.setTask f t with len := n, recvWaiters := w } f)
      (s.senderCount = 0) (s.receiverCount = 0))
    (hsending : t.pc.sending = true → 0 < s.senderCount)
    (hdebit : t.pc = .sendRemove .done → pc = .sendRemove .done)
    (hcredit : s.Credit f → Credit { s.setTask f t with len := n, recvWaiters := w } f) :
    Inv { s.setTask f t with len := n, recvWaiters := w } :=
  h.quiet (fun _ hne => Or.inl (setTask_of_ne hne)) rfl ⟨rfl, rfl, rfl, rfl⟩ hlen hpc setTask_self
    hout hout' hown hsending hdebit hcredit

/-- `away` for a step that changes no other task. -/
theorem actAway (h : s.Inv) {w : WaitList} {n : Nat} (hlen : s.len ≤ n) (hpc : (s.tasks f).pc = pc)
    (hout : pc.inside = false ∧ pc.closer = false ∧ pc.node = false ∧ pc.releasing = false)
    (hout' : t.pc.inside = false ∧ t.pc.node = false ∧ t.pc.last = false)
    (hsending : t.pc.sending = true → 0 < s.senderCount) :
    Inv { s.setTask f t with len := n, recvWaiters := w } :=
  h.away (fun _ hne => Or.inl (setTask_of_ne hne)) rfl ⟨rfl, rfl, rfl, rfl⟩ hlen hpc setTask_self
    hout hout' hsending

/-- A send future goes on outside the lock. -/
theorem actNode (h : s.Inv) (hpc : (s.tasks f).pc = pc)
    (hout : pc.inside = false ∧ pc.closer = false ∧ pc.node = true ∧ pc.releasing = false)
    (hout' : t.pc.inside = false ∧ t.pc.node = true) (hqueued : t.queued = (s.tasks f).queued)
    (hown : t.Own (f ∈ s.waiters.nodes) ((s.setTask f t).Called f) (s.senderCount = 0)
      (s.receiverCount = 0))
    (hdebit : t.pc = .sendRemove .done → pc = .sendRemove .done) : (s.setTask f t).Inv := by
  have hsend : 0 < s.senderCount := by
    refine h.sending f (ChannelPc.sending_of_node ?_)
    rw [hpc]
    exact hout.2.2.1
  exact h.act (Nat.le_refl _) hpc ⟨hout.1, hout.2.1⟩ hout'.1 hown (fun _ => hsend) hdebit fun hc =>
    hc.goOn hpc setTask_self rfl hout.2.2.2 (ChannelPc.ne_count_of_outside hout.1) hout'.2 hqueued

/-! ## The send side -/

theorem beginSend (h : s.Inv) (hpc : (s.tasks f).pc = .fresh) (hsend : 0 < s.senderCount)
    (wait : Bool) : (s.goto f (.trySend wait)).Inv :=
  h.actAway (Nat.le_refl _) hpc ⟨rfl, rfl, rfl, rfl⟩ ⟨rfl, rfl, rfl⟩ fun _ => hsend

theorem trySendLoad (h : s.Inv) {wait : Bool} (hpc : (s.tasks f).pc = .trySend wait) :
    (s.trySendLoad f wait).Inv := by
  have hsend := h.sending f (by rw [hpc]; rfl)
  unfold Channel.trySendLoad
  split
  · exact h.actAway (Nat.le_refl _) hpc ⟨rfl, rfl, rfl, rfl⟩ ⟨rfl, rfl, rfl⟩ nofun
  · exact h.actAway (Nat.le_refl _) hpc ⟨rfl, rfl, rfl, rfl⟩ ⟨rfl, rfl, rfl⟩ fun _ => hsend

theorem trySendPush (h : s.Inv) {wait : Bool} (hpc : (s.tasks f).pc = .tryPush wait) :
    (s.trySendPush f wait).Inv := by
  have hsend := h.sending f (by rw [hpc]; rfl)
  unfold Channel.trySendPush
  split
  · exact h.actAway (Nat.le_succ _) hpc ⟨rfl, rfl, rfl, rfl⟩ ⟨rfl, rfl, rfl⟩ fun _ => hsend
  · split
    · exact h.act (Nat.le_refl _) hpc ⟨rfl, rfl⟩ rfl (.loose (h.not_linked hpc rfl) rfl rfl nofun)
        (fun _ => hsend) nofun fun hc => absurd hc (not_credit hpc rfl (Or.inl rfl))
    · exact h.actAway (Nat.le_refl _) hpc ⟨rfl, rfl, rfl, rfl⟩ ⟨rfl, rfl, rfl⟩ nofun

theorem pollSend (h : s.Inv) (hpc : (s.tasks f).pc = .sendPending) : (s.pollSend f).Inv :=
  h.actNode hpc ⟨rfl, rfl, rfl, rfl⟩ ⟨rfl, rfl⟩ rfl
    ⟨fun hl => ⟨rfl, Or.inl (((h.own f).node hl).2.resolve_right (by rw [hpc]; nofun))⟩, nofun,
      nofun, nofun, nofun, nofun, nofun⟩ nofun

/-- A send future that is not queued ends or goes on without its node. -/
theorem leaveUnqueued (h : s.Inv) (hpc : (s.tasks f).pc = pc) {n : Nat} (hlen : s.len ≤ n)
    (hout : pc.inside = false ∧ pc.closer = false ∧ pc.node = true ∧ pc.releasing = false)
    (hqueued : (s.tasks f).queued = false)
    (hout' : t.pc.inside = false ∧ t.pc.node = false ∧ t.pc.last = false) :
    Inv { s.setTask f t with len := n } := by
  have hsend : 0 < s.senderCount := by
    refine h.sending f (ChannelPc.sending_of_node ?_)
    rw [hpc]
    exact hout.2.2.1
  have hnot : f ∉ s.waiters.nodes := by
    intro hmem
    rcases ((h.own f).node hmem).2 with hq | hcount
    · rw [hqueued] at hq
      exact absurd hq (by simp)
    · exact ChannelPc.ne_count_of_outside hout.1 (hpc ▸ hcount)
  refine h.act hlen hpc ⟨hout.1, hout.2.1⟩ hout'.1 (.aside hout'.2.1 hout'.2.2 hnot)
    (fun _ => hsend) ?_ fun hc => absurd hc (not_credit hpc hout.2.2.2 (Or.inr hqueued))
  intro heq
  rw [heq] at hout'
  exact absurd hout'.2.1 (by simp [ChannelPc.node])

theorem sendPush (h : s.Inv) (hpc : (s.tasks f).pc = .push) : (s.sendPush f).Inv := by
  have hcount : (s.tasks f).pc ≠ .sendCount := by
    rw [hpc]
    nofun
  unfold Channel.sendPush
  split
  · cases hqueued : (s.tasks f).queued with
    | false => exact h.leaveUnqueued hpc (Nat.le_succ _) ⟨rfl, rfl, rfl, rfl⟩ hqueued ⟨rfl, rfl, rfl⟩
    | true =>
      -- the place that the message takes makes up for the sender that is not to rely on any more
      have hframe : Frame s { s.goto f (.sendRemove .done) with len := s.len + 1 } f :=
        Frame.outside (fun _ hne => Or.inl (setTask_of_ne hne)) rfl (by rw [hpc]; rfl)
      refine h.outside (fun _ hne => Or.inl (setTask_of_ne hne)) rfl
        (Ends.same h ⟨rfl, rfl, rfl, rfl⟩) hpc setTask_self rfl rfl
        ((h.own f).goOn hcount rfl rfl rfl rfl nofun)
        (fun _ => h.sending f (by rw [hpc]; rfl)) fun _ hs => ?_
      refine hframe.safe rfl rfl hs (fun hc => absurd hc (not_closing hpc rfl)) fun hserved => ?_
      refine hserved.borrow f (fun g hg => ?_) fun g hg => ?_
      · by_cases hne : g = f
        · exact Or.inl hne
        · exact Or.inr (hframe.debit hne hg)
      · by_cases hne : g = f
        · subst hne
          exact hg.goOn hpc setTask_self rfl rfl nofun rfl rfl
        · exact hframe.credit hne hg
  · exact h.actNode hpc ⟨rfl, rfl, rfl, rfl⟩ ⟨rfl, rfl⟩ rfl
      ((h.own f).goOn hcount rfl rfl rfl rfl nofun) nofun

theorem sendCheckClosed (h : s.Inv) (hpc : (s.tasks f).pc = .sendClosed) :
    (s.sendCheckClosed f).Inv := by
  have hcount : (s.tasks f).pc ≠ .sendCount := by
    rw [hpc]
    nofun
  unfold Channel.sendCheckClosed
  split
  · rename_i hclosed
    cases hqueued : (s.tasks f).queued with
    | false =>
      exact h.leaveUnqueued hpc (Nat.le_refl _) ⟨rfl, rfl, rfl, rfl⟩ hqueued ⟨rfl, rfl, rfl⟩
    | true =>
      exact h.actNode hpc ⟨rfl, rfl, rfl, rfl⟩ ⟨rfl, rfl⟩ rfl
        ((h.own f).goOn hcount rfl rfl rfl rfl nofun) nofun
  · exact h.actNode hpc ⟨rfl, rfl, rfl, rfl⟩ ⟨rfl, rfl⟩ rfl
      ((h.own f).goOn hcount rfl rfl rfl rfl nofun) nofun

theorem sendCheckLinked (h : s.Inv) (hpc : (s.tasks f).pc = .sendLinked) :
    (s.sendCheckLinked f).Inv := by
  have hcount : (s.tasks f).pc ≠ .sendCount := by
    rw [hpc]
    nofun
  unfold Channel.sendCheckLinked
  split
  · exact h.actNode hpc ⟨rfl, rfl, rfl, rfl⟩ ⟨rfl, rfl⟩ rfl
      ((h.own f).goOn hcount rfl rfl rfl rfl nofun) nofun
  · rename_i hboth
    have hnot : f ∉ s.waiters.nodes := fun hmem =>
      hboth ⟨((h.own f).node hmem).2.resolve_right hcount, hmem⟩
    exact h.actNode hpc ⟨rfl, rfl, rfl, rfl⟩ ⟨rfl, rfl⟩ rfl (.loose hnot rfl rfl nofun) nofun

theorem sendRegisterWaker (h : s.Inv) (hpc : (s.tasks f).pc = .sendRegister) :
    (s.sendRegisterWaker f).Inv := by
  have hnot : f ∉ s.waiters.nodes := (h.own f).apart (by rw [hpc]; rfl)
  exact h.actNode hpc ⟨rfl, rfl, rfl, rfl⟩ ⟨rfl, rfl⟩ rfl
    ⟨fun hl => absurd hl hnot, fun _ => hnot, nofun, fun _ => Or.inl rfl, nofun, nofun,
      nofun⟩ nofun

theorem sendRearm (h : s.Inv) (hpc : (s.tasks f).pc = .rearm)
    (hcare : f ∈ s.waiters.nodes ∨ s.Called f ∨ (s.tasks f).notified = true) :
    (s.sendRearm f).Inv := by
  have hframe : Frame s (s.sendRearm f) f :=
    Frame.outside (fun _ hne => Or.inl (setTask_of_ne hne)) rfl (by rw [hpc]; rfl)
  have hcalled : s.Called f → (s.sendRearm f).Called f := by
    rintro ⟨i, hi⟩
    have hne : i ≠ f := by
      rintro rfl
      rw [hpc] at hi
      exact absurd hi (Option.some_ne_none i).symm
    exact ⟨i, by rw [(hframe.others i hne).pc]; exact hi⟩
  refine h.actNode hpc ⟨rfl, rfl, rfl, rfl⟩ ⟨rfl, rfl⟩ rfl ⟨fun hl => ⟨rfl, Or.inl ?_⟩, nofun,
    nofun, nofun, fun _ _ => ?_, nofun, nofun⟩ nofun
  · exact ((h.own f).node hl).2.resolve_right (by rw [hpc]; nofun)
  · rcases hcare with hl | hc | hn
    · exact Or.inr ⟨rfl, Or.inl hl⟩
    · exact Or.inr ⟨rfl, Or.inr (hcalled hc)⟩
    · exact Or.inl hn

theorem dropSend (h : s.Inv) (hpc : (s.tasks f).pc = .sendPending) : (s.dropSend f).Inv := by
  unfold Channel.dropSend
  cases hqueued : (s.tasks f).queued with
  | false => exact h.leaveUnqueued hpc (Nat.le_refl _) ⟨rfl, rfl, rfl, rfl⟩ hqueued ⟨rfl, rfl, rfl⟩
  | true =>
    exact h.actNode hpc ⟨rfl, rfl, rfl, rfl⟩ ⟨rfl, rfl⟩ rfl
      ((h.own f).goOn (by rw [hpc]; nofun) rfl rfl rfl rfl nofun) nofun

/-! ## `notify_recv_one` and the waits of the receive side -/

theorem notifyRecvLoad (h : s.Inv) (hpc : (s.tasks f).pc = .notifyLoad) :
    (s.notifyRecvLoad f).Inv := by
  have hsend := h.sending f (by rw [hpc]; rfl)
  unfold Channel.notifyRecvLoad
  split
  · exact h.actAway (Nat.le_refl _) hpc ⟨rfl, rfl, rfl, rfl⟩ ⟨rfl, rfl, rfl⟩ fun _ => hsend
  · exact h.actAway (Nat.le_refl _) hpc ⟨rfl, rfl, rfl, rfl⟩ ⟨rfl, rfl, rfl⟩ nofun

theorem notifyRecvPop (h : s.Inv) (hpc : (s.tasks f).pc = .notifyPop) :
    (s.notifyRecvPop f).Inv := by
  have hsend := h.sending f (by rw [hpc]; rfl)
  unfold Channel.notifyRecvPop
  split
  · exact h.actAway (Nat.le_refl _) hpc ⟨rfl, rfl, rfl, rfl⟩ ⟨rfl, rfl, rfl⟩ nofun
  · exact h.actAway (Nat.le_refl _) hpc ⟨rfl, rfl, rfl, rfl⟩ ⟨rfl, rfl, rfl⟩ fun _ => hsend

theorem notifyRecvSub (h : s.Inv) (hpc : (s.tasks f).pc = .notifySub g) :
    (s.notifyRecvSub f g).Inv := by
  have hsend := h.sending f (by rw [hpc]; rfl)
  exact h.actAway (Nat.le_refl _) hpc ⟨rfl, rfl, rfl, rfl⟩ ⟨rfl, rfl, rfl⟩ fun _ => hsend

/-- Another task is woken, and `f` goes on. -/
theorem woken_others (s : Channel) (f g : Nat) (t : ChannelTask) (i : Nat) (hne : i ≠ f) :
    (s.tasks i).Woken (((s.wake g).setTask f t).tasks i) := by
  rw [setTask_of_ne hne]
  exact wake_tasks g i

theorem notifyRecvWake (h : s.Inv) (hpc : (s.tasks f).pc = .notifyWake g) :
    (s.notifyRecvWake f g).Inv := by
  refine h.away (woken_others s f g _) (wake_waiters g)
    ⟨wake_capacity g, wake_isClosed g, wake_senderCount g, wake_receiverCount g⟩ ?_ hpc setTask_self
    ⟨rfl, rfl, rfl, rfl⟩ ⟨rfl, rfl, rfl⟩ nofun
  exact (wake_len g).ge

/-! ## The receive side -/

theorem beginRecv (h : s.Inv) (hpc : (s.tasks f).pc = .fresh) (wait : Bool) :
    (s.goto f (.tryRecv wait)).Inv :=
  h.actAway (Nat.le_refl _) hpc ⟨rfl, rfl, rfl, rfl⟩ ⟨rfl, rfl, rfl⟩ nofun

theorem beginStream (h : s.Inv) (hpc : (s.tasks f).pc = .fresh) :
    (s.setTask f { ChannelTask.fresh with stream := true, pc := .recvPending }).Inv :=
  h.actAway (Nat.le_refl _) hpc ⟨rfl, rfl, rfl, rfl⟩ ⟨rfl, rfl, rfl⟩ nofun

/-- The receiver that has taken a message out of the queue answers for the place. -/
theorem popped (h : s.Inv) (hpc : (s.tasks f).pc = pc)
    (hout : pc.inside = false ∧ pc.closer = false ∧ pc.node = false ∧ pc.releasing = false)
    (hlen : 0 < s.len) : (s.popped f).Inv := by
  have hself : ∃ pc', (s.popped f).tasks f = { s.tasks f with pc := pc' } ∧
      pc'.inside = false ∧ pc'.node = false ∧ pc'.last = false ∧ pc'.sending = false ∧
      pc'.releasing = true := by
    refine ⟨_, setTask_self, ?_⟩
    split <;> exact ⟨rfl, rfl, rfl, rfl, rfl⟩
  obtain ⟨pc', hself, hinside', hnode', hlast', hsending', hreleasing'⟩ := hself
  have hothers : ∀ g, g ≠ f → (s.tasks g).Woken ((s.popped f).tasks g) :=
    fun _ hne => Or.inl (setTask_of_ne hne)
  have hframe : Frame s (s.popped f) f := Frame.outside hothers rfl (by rw [hpc]; exact hout.1)
  have hcredit' : (s.popped f).Credit f := Or.inl (by rw [hself]; exact hreleasing')
  refine h.outside hothers rfl (Ends.same h ⟨rfl, rfl, rfl, rfl⟩) hpc hself hout.1 hinside'
    (.aside hnode' hlast' (h.not_linked hpc hout.2.2.1)) ?_ fun _ hs => ?_
  · intro hsend
    rw [hsending'] at hsend
    exact absurd hsend (by simp)
  · refine hframe.safe rfl rfl hs (fun hc => absurd hc (not_closing hpc hout.2.1)) fun hserved => ?_
    have hserved' : Backed s.Debit s.Credit s.capacity (s.len - 1 + 1) := by
      rw [Nat.sub_add_cancel hlen]
      exact hserved
    refine hserved'.lend (not_credit hpc hout.2.2.2 (Or.inl hout.2.2.1)) hcredit' (fun g hg => ?_)
      fun g hg => ?_
    · by_cases hne : g = f
      · subst hne
        unfold Debit at hg
        rw [hself] at hg
        rw [show pc' = _ from hg] at hnode'
        exact absurd hnode' (by simp [ChannelPc.node])
      · exact hframe.debit hne hg
    · by_cases hne : g = f
      · subst hne
        exact hcredit'
      · exact hframe.credit hne hg

theorem tryRecvFailed (h : s.Inv) (hpc : (s.tasks f).pc = pc)
    (hout : pc.inside = false ∧ pc.closer = false ∧ pc.node = false ∧ pc.releasing = false)
    (wait : Bool) : (s.tryRecvFailed f wait).Inv := by
  unfold Channel.tryRecvFailed
  split <;> exact h.actAway (Nat.le_refl _) hpc hout ⟨rfl, rfl, rfl⟩ nofun

theorem tryRecvPop (h : s.Inv) {wait : Bool} (hpc : (s.tasks f).pc = .tryRecv wait) :
    (s.tryRecvPop f wait).Inv := by
  unfold Channel.tryRecvPop
  split
  · exact h.popped hpc ⟨rfl, rfl, rfl, rfl⟩ ‹_›
  · exact h.actAway (Nat.le_refl _) hpc ⟨rfl, rfl, rfl, rfl⟩ ⟨rfl, rfl, rfl⟩ nofun

theorem tryRecvClosed (h : s.Inv) {wait : Bool} (hpc : (s.tasks f).pc = .tryClosed wait) :
    (s.tryRecvClosed f wait).Inv := by
  unfold Channel.tryRecvClosed
  split
  · exact h.actAway (Nat.le_refl _) hpc ⟨rfl, rfl, rfl, rfl⟩ ⟨rfl, rfl, rfl⟩ nofun
  · exact h.tryRecvFailed hpc ⟨rfl, rfl, rfl, rfl⟩ wait

theorem tryRecvAgain (h : s.Inv) {wait : Bool} (hpc : (s.tasks f).pc = .tryAgain wait) :
    (s.tryRecvAgain f wait).Inv := by
  unfold Channel.tryRecvAgain
  split
  · exact h.popped hpc ⟨rfl, rfl, rfl, rfl⟩ ‹_›
  · exact h.tryRecvFailed hpc ⟨rfl, rfl, rfl, rfl⟩ wait

theorem pollRecv (h : s.Inv) (hpc : (s.tasks f).pc = .recvPending) : (s.pollRecv f).Inv :=
  h.actAway (Nat.le_refl _) hpc ⟨rfl, rfl, rfl, rfl⟩ ⟨rfl, rfl, rfl⟩ nofun

theorem recvPop (h : s.Inv) (hpc : (s.tasks f).pc = .pop) : (s.recvPop f).Inv := by
  unfold Channel.recvPop
  split
  · exact h.popped hpc ⟨rfl, rfl, rfl, rfl⟩ ‹_›
  · exact h.actAway (Nat.le_refl _) hpc ⟨rfl, rfl, rfl, rfl⟩ ⟨rfl, rfl, rfl⟩ nofun

theorem recvCheckClosed (h : s.Inv) (hpc : (s.tasks f).pc = .recvClosed) :
    (s.recvCheckClosed f).Inv := by
  unfold Channel.recvCheckClosed
  split <;> exact h.actAway (Nat.le_refl _) hpc ⟨rfl, rfl, rfl, rfl⟩ ⟨rfl, rfl, rfl⟩ nofun

theorem recvDone_self (s : Channel) (f : Nat) :
    ∃ t, s.recvDone f = s.setTask f t ∧ t.pc.inside = false ∧ t.pc.node = false ∧ t.pc.last = false ∧
      t.pc.sending = false := by
  unfold Channel.recvDone
  split
  · exact ⟨_, rfl, rfl, rfl, rfl, rfl⟩
  · exact ⟨_, rfl, rfl, rfl, rfl, rfl⟩

theorem recvPopAgain (h : s.Inv) (hpc : (s.tasks f).pc = .popAgain) : (s.recvPopAgain f).Inv := by
  unfold Channel.recvPopAgain
  split
  · exact h.popped hpc ⟨rfl, rfl, rfl, rfl⟩ ‹_›
  · split
    · exact h.actAway (Nat.le_refl _) hpc ⟨rfl, rfl, rfl, rfl⟩ ⟨rfl, rfl, rfl⟩ nofun
    · obtain ⟨t, hdone, hinside, hnode, hlast, hsending⟩ := recvDone_self s f
      rw [hdone]
      refine h.actAway (Nat.le_refl _) hpc ⟨rfl, rfl, rfl, rfl⟩ ⟨hinside, hnode, hlast⟩ fun hs => ?_
      rw [hsending] at hs
      exact absurd hs (by simp)

theorem recvRegisterWaker (h : s.Inv) (hpc : (s.tasks f).pc = .recvRegister) :
    (s.recvRegisterWaker f).Inv :=
  h.actAway (Nat.le_refl _) hpc ⟨rfl, rfl, rfl, rfl⟩ ⟨rfl, rfl, rfl⟩ nofun

theorem recvCheckLinked (h : s.Inv) (hpc : (s.tasks f).pc = .recvLinked) :
    (s.recvCheckLinked f).Inv := by
  unfold Channel.recvCheckLinked
  split <;> exact h.actAway (Nat.le_refl _) hpc ⟨rfl, rfl, rfl, rfl⟩ ⟨rfl, rfl, rfl⟩ nofun

theorem recvPushNode (h : s.Inv) (hpc : (s.tasks f).pc = .recvJoin) : (s.recvPushNode f).Inv := by
  unfold Channel.recvPushNode
  split <;> exact h.actAway (Nat.le_refl _) hpc ⟨rfl, rfl, rfl, rfl⟩ ⟨rfl, rfl, rfl⟩ nofun

theorem recvRaise (h : s.Inv) (hpc : (s.tasks f).pc = .recvCount) : (s.recvRaise f).Inv :=
  h.actAway (Nat.le_refl _) hpc ⟨rfl, rfl, rfl, rfl⟩ ⟨rfl, rfl, rfl⟩ nofun

/-- A receiver that has taken a message goes on towards the list of the senders. -/
theorem actReleasing (h : s.Inv) {w : WaitList} (hpc : (s.tasks f).pc = pc)
    (hout : pc.inside = false ∧ pc.closer = false ∧ pc.node = false)
    (hout' : t.pc.inside = false ∧ t.pc.node = false ∧ t.pc.sending = false ∧ t.pc.last = false)
    (hreleasing : t.pc.releasing = true) : Inv { s.setTask f t with recvWaiters := w } := by
  refine h.act (Nat.le_refl _) hpc ⟨hout.1, hout.2.1⟩ hout'.1
    (.aside hout'.2.1 hout'.2.2.2 (h.not_linked hpc hout.2.2)) (fun hs => ?_) (fun heq => ?_)
    fun _ => ?_
  · rw [hout'.2.2.1] at hs
    exact absurd hs (by simp)
  · rw [heq] at hout'
    exact absurd hout'.2.1 (by simp [ChannelPc.node])
  · refine Or.inl ?_
    show ((s.setTask f t).tasks f).pc.releasing = true
    rw [setTask_self]
    exact hreleasing

/-- The call site of `remove_recv_waiter` goes on, for any list of receivers. -/
theorem recvExit (h : s.Inv) {exit : WaitExit} {w : WaitList}
    (hpc : (s.tasks f).pc = .recvRemove exit ∨ (s.tasks f).pc = .recvUnlink exit) :
    Inv { s.recvExit f exit with recvWaiters := w } := by
  cases exit with
  | done =>
    rcases hpc with hpc | hpc <;> exact h.actReleasing hpc ⟨rfl, rfl, rfl⟩ ⟨rfl, rfl, rfl, rfl⟩ rfl
  | closed =>
    unfold Channel.recvExit
    simp only
    split <;> rcases hpc with hpc | hpc <;>
      exact h.actAway (Nat.le_refl _) hpc ⟨rfl, rfl, rfl, rfl⟩ ⟨rfl, rfl, rfl⟩ nofun
  | dropped =>
    rcases hpc with hpc | hpc <;>
      exact h.actAway (Nat.le_refl _) hpc ⟨rfl, rfl, rfl, rfl⟩ ⟨rfl, rfl, rfl⟩ nofun

theorem removeRecvWaiter (h : s.Inv) {exit : WaitExit} (hpc : (s.tasks f).pc = .recvRemove exit) :
    (s.removeRecvWaiter f exit).Inv := by
  unfold Channel.removeRecvWaiter
  split
  · cases exit with
    | done => exact h.actReleasing hpc ⟨rfl, rfl, rfl⟩ ⟨rfl, rfl, rfl, rfl⟩ rfl
    | closed => exact h.actAway (Nat.le_refl _) hpc ⟨rfl, rfl, rfl, rfl⟩ ⟨rfl, rfl, rfl⟩ nofun
    | dropped => exact h.actAway (Nat.le_refl _) hpc ⟨rfl, rfl, rfl, rfl⟩ ⟨rfl, rfl, rfl⟩ nofun
  · have hexit := h.recvExit (w := s.recvWaiters) (Or.inl hpc)
    cases exit <;> exact hexit

theorem recvLower (h : s.Inv) {exit : WaitExit} (hpc : (s.tasks f).pc = .recvUnlink exit) :
    (s.recvLower f exit).Inv :=
  h.recvExit (Or.inr hpc)

theorem dropRecv (h : s.Inv) (hpc : (s.tasks f).pc = .recvPending) : (s.dropRecv f).Inv := by
  unfold Channel.dropRecv
  split <;> exact h.actAway (Nat.le_refl _) hpc ⟨rfl, rfl, rfl, rfl⟩ ⟨rfl, rfl, rfl⟩ nofun

/-! ## `release` -/

/-- While the count is zero nobody is linked and counted. -/
theorem not_published (h : s.Inv) (hzero : s.waiters.count = 0) : ¬ s.Published := by
  rintro ⟨g, hg, hcount⟩
  have hcounted := h.counted
  unfold Counted holder at hcounted
  rw [hzero] at hcounted
  have hpos := List.length_pos_of_mem hg
  cases hlock : s.waiters.lock with
  | none =>
    rw [hlock] at hcounted
    simp only [ChannelPc.owed, ChannelPc.due] at hcounted
    omega
  | some i =>
    rw [hlock] at hcounted
    simp only at hcounted
    by_cases hi : (s.tasks i).pc = .sendCount
    · -- the only node would be that of the holder
      rw [hi] at hcounted
      have hlen : s.waiters.nodes.length ≤ 1 := by
        simpa [ChannelPc.owed, ChannelPc.due] using hcounted
      have hmem : i ∈ s.waiters.nodes := (h.own i).counting hi
      obtain ⟨j, hj⟩ := List.length_eq_one_iff.mp (Nat.le_antisymm hlen hpos)
      rw [hj, List.mem_singleton] at hg hmem
      exact hcount (by rw [hg, ← hmem]; exact hi)
    · have hdue : (s.tasks i).pc.due = 0 := by
        revert hi
        cases (s.tasks i).pc <;> simp [ChannelPc.due]
      rw [hdue] at hcounted
      omega

/-- A receiver is done with `release` while nobody is linked and counted. -/
theorem released (h : s.Inv) (hpc : (s.tasks f).pc = pc)
    (hout : pc.inside = false ∧ pc.closer = false ∧ pc.node = false) (hnone : ¬ s.Published) :
    (s.recvDone f).Inv := by
  obtain ⟨t, hdone, hinside, hnode, hlast, hsending⟩ := recvDone_self s f
  rw [hdone]
  refine h.outside (fun _ hne => Or.inl (setTask_of_ne hne)) rfl (Ends.same h ⟨rfl, rfl, rfl, rfl⟩)
    hpc setTask_self hout.1 hinside (.aside hnode hlast (h.not_linked hpc hout.2.2)) (fun hs => ?_)
    fun hp => absurd hp hnone
  rw [hsending] at hs
  exact absurd hs (by simp)

theorem releaseCheck (h : s.Inv) (hpc : (s.tasks f).pc = .releaseLoad) : (s.releaseCheck f).Inv := by
  unfold Channel.releaseCheck
  split
  · exact h.actReleasing hpc ⟨rfl, rfl, rfl⟩ ⟨rfl, rfl, rfl, rfl⟩ rfl
  · exact h.released hpc ⟨rfl, rfl, rfl⟩ (h.not_published (by omega))

end Inv

end Channel

end Veloq.Sync
