import Veloq.Sync.MpmcSteps
set_option autoImplicit false

/-!
# Sync: the sections under the lock of the waiting senders

A sender joins the list and leaves it, a receiver pops it, and the last receiver empties it;
and the endpoints come and go.
-/

namespace Veloq.Sync

open Veloq.Foundation

namespace Channel

variable {s s' : Channel} {f g : Nat} {t : ChannelTask} {pc : ChannelPc}

/-! ## Frames of a section -/

/-- A step that finds the lock free or holds it. -/
theorem Frame.section (hothers : ∀ g, g ≠ f → (s.tasks g).Woken (s'.tasks g))
    (hlock : s.waiters.lock = none ∨ s.waiters.lock = some f)
    (hlock' : s'.waiters.lock = none ∨ s'.waiters.lock = some f)
    (hlinked : ∀ g, g ≠ f → g ∈ s'.waiters.nodes → g ∈ s.waiters.nodes)
    (hcalled : ∀ g, g ≠ f → (s.tasks g).registered = true → g ∈ s.waiters.nodes ∨ s.Called g →
      (s'.tasks g).notified = true ∨ g ∈ s'.waiters.nodes ∨ s'.Called g) : Frame s s' f := by
  have hne : ∀ (w : WaitList) (g : Nat), g ≠ f → w.lock = none ∨ w.lock = some f →
      w.lock ≠ some g := by
    intro w g hne hw heq
    rcases hw with hw | hw
    · rw [hw] at heq
      exact absurd heq (by simp)
    · rw [hw] at heq
      exact hne (Option.some.inj heq).symm
  refine ⟨hothers, fun g hg => ?_, hlinked, fun g hg heq => ?_, hcalled⟩
  · exact ⟨fun heq => absurd heq (hne _ g hg hlock'), fun heq => absurd heq (hne _ g hg hlock)⟩
  · exact absurd heq (hne _ g hg hlock)

/-- A step by which nobody else is unlinked and that goes on calling whom it called. -/
theorem called_keep (hothers : ∀ g, g ≠ f → (s.tasks g).Woken (s'.tasks g))
    (hlinked : ∀ g, g ≠ f → g ∈ s.waiters.nodes → g ∈ s'.waiters.nodes)
    (hcalling : ∀ g, (s.tasks f).pc.calling = some g → (s'.tasks f).pc.calling = some g) (g : Nat)
    (hne : g ≠ f) (_ : (s.tasks g).registered = true) (hg : g ∈ s.waiters.nodes ∨ s.Called g) :
    (s'.tasks g).notified = true ∨ g ∈ s'.waiters.nodes ∨ s'.Called g := by
  refine Or.inr (hg.imp (hlinked g hne) ?_)
  rintro ⟨i, hi⟩
  refine ⟨i, ?_⟩
  by_cases hif : i = f
  · subst hif
    exact hcalling g hi
  · rw [(hothers i hif).pc]
    exact hi

theorem Counted.free (h : s.Counted) (hlock : s.waiters.lock = none) :
    s.waiters.nodes.length ≤ s.waiters.count := by
  unfold Counted holder at h
  rw [hlock] at h
  exact h

theorem Counted.of_free (hlock : s.waiters.lock = none)
    (h : s.waiters.nodes.length ≤ s.waiters.count) : s.Counted := by
  unfold Counted holder
  rw [hlock]
  exact h

theorem Counted.held (h : s.Counted) (hlock : s.waiters.lock = some f) :
    s.waiters.nodes.length + (s.tasks f).pc.owed ≤ s.waiters.count + (s.tasks f).pc.due := by
  unfold Counted holder at h
  rw [hlock] at h
  exact h

theorem Counted.of_held (hlock : s.waiters.lock = some f)
    (h : s.waiters.nodes.length + (s.tasks f).pc.owed ≤ s.waiters.count + (s.tasks f).pc.due) :
    s.Counted := by
  unfold Counted holder
  rw [hlock]
  exact h

theorem not_debit (hself : s.tasks f = t) (hne : t.pc ≠ .sendRemove .done) : ¬ s.Debit f := by
  unfold Debit
  rw [hself]
  exact hne

/-- Nobody is published that was not. -/
theorem Frame.published (h : Frame s s' f)
    (hf : f ∈ s'.waiters.nodes → (s'.tasks f).pc ≠ .sendCount → s.Published)
    (hs : s'.Published) : s.Published := by
  obtain ⟨g, hg, hcount⟩ := hs
  by_cases hne : g = f
  · subst hne
    exact hf hg hcount
  · rw [(h.others g hne).pc] at hcount
    exact ⟨g, h.linked g hne hg, hcount⟩

/-- The senders stay safe if others than `f` look after them. -/
theorem SafeWithout.safe (h : s.SafeWithout f) (hframe : Frame s s' f) (hsteady : Steady s s')
    (hlen : s'.len = s.len) (hpc : (s.tasks f).pc = pc) (hcloser : pc.closer = false)
    (hdebit : ¬ s'.Debit f) : s'.Safe := by
  rcases h with ⟨g, hg⟩ | ⟨hpos, hback⟩
  · have hne : g ≠ f := by
      rintro rfl
      exact not_closing hpc hcloser hg
    exact Or.inl ⟨g, hframe.closing hsteady.closed hsteady.receivers hne hg⟩
  · refine Or.inr ⟨by rw [hsteady.receivers]; exact hpos, ?_⟩
    unfold Served
    rw [hsteady.capacity, hlen]
    refine hback.mono (fun g hg => ?_) (fun g hg => hframe.credit hg.1 hg.2) (Nat.le_refl _)
    by_cases hne : g = f
    · subst hne
      exact absurd hg hdebit
    · exact hframe.debit hne hg

namespace Inv

theorem lock_of_inside (h : s.Inv) (hpc : (s.tasks f).pc = pc) (hinside : pc.inside = true) :
    s.waiters.lock = some f :=
  (h.lock f).mp (by rw [hpc]; exact hinside)

/-- A step inside a section that leaves the nodes alone. -/
theorem inSection (h : s.Inv) (hframe : Frame s s' f) (hsteady : Steady s s')
    (hnodes : s'.waiters.nodes = s.waiters.nodes) (hpc : (s.tasks f).pc = pc)
    (hself : s'.tasks f = t) (hcount : pc ≠ .sendCount)
    (hlock : t.pc.inside = true ↔ s'.waiters.lock = some f) (hcounted : s'.Counted)
    (hdrained : t.pc = .sendersStore → s.waiters.nodes = [])
    (hown : t.Own (f ∈ s.waiters.nodes) (s'.Called f) (s.senderCount = 0) (s.receiverCount = 0))
    (hsending : t.pc.sending = true → 0 < s.senderCount)
    (hsafe : s.Published → s.Safe → s'.Safe) : s'.Inv := by
  refine h.of_frame hframe (Ends.same h hsteady) ?_ ?_ hcounted ?_ ?_ ?_ fun hp => ?_
  · rw [hself]
    exact hlock
  · rw [hnodes]
    exact h.nodup
  · rw [hself, hnodes]
    exact hdrained
  · rw [hself, hnodes, hsteady.senders, hsteady.receivers]
    exact hown
  · rw [hself, hsteady.senders]
    exact hsending
  · have hpublished : s.Published := by
      refine hframe.published (fun hmem _ => ⟨f, hnodes ▸ hmem, ?_⟩) hp
      rw [hpc]
      exact hcount
    exact hsafe hpublished (h.covered hpublished)

/-- A send future on its way into the list is not linked. -/
theorem not_linked_apart (h : s.Inv) (hpc : (s.tasks f).pc = pc) (hapart : pc.apart = true) :
    f ∉ s.waiters.nodes :=
  (h.own f).apart (by rw [hpc]; exact hapart)

theorem sendLock (h : s.Inv) (hpc : (s.tasks f).pc = .sendEnter) (hfree : s.waiters.lock = none) :
    (s.sendLock f).Inv := by
  have hothers : ∀ g, g ≠ f → (s.tasks g).Woken ((s.sendLock f).tasks g) :=
    fun _ hne => Or.inl (setTask_of_ne hne)
  have hself : (s.sendLock f).tasks f = { s.tasks f with pc := .recheck } := setTask_self
  have hframe : Frame s (s.sendLock f) f :=
    Frame.section hothers (Or.inl hfree) (Or.inr rfl) (fun _ _ => id)
      (called_keep hothers (fun _ _ => id) (by rw [hpc]; nofun))
  have hnot := h.not_linked_apart hpc rfl
  have harmed := (h.own f).armed (by rw [hpc]; rfl)
  refine h.inSection hframe ⟨rfl, rfl, rfl, rfl⟩ rfl hpc hself nofun ⟨fun _ => rfl, fun _ => rfl⟩
    (Counted.of_held rfl ?_) nofun
    ⟨fun hl => absurd hl hnot, fun _ => hnot, nofun, fun _ => harmed, nofun, nofun, nofun⟩
    (fun _ => h.sending f (by rw [hpc]; rfl)) fun _ hs => ?_
  · rw [hself]
    exact h.counted.free hfree
  · exact hframe.safe rfl rfl hs (fun hc => absurd hc (not_closing hpc rfl))
      (hframe.served rfl (Nat.le_refl _) (fun hd => absurd hd (not_debit hself nofun))
        fun hc => hc.goOn hpc hself rfl rfl nofun rfl rfl)

theorem sendRecheck (h : s.Inv) (hpc : (s.tasks f).pc = .recheck) : (s.sendRecheck f).Inv := by
  have hlock := h.lock_of_inside hpc rfl
  have hnot := h.not_linked_apart hpc rfl
  have harmed := (h.own f).armed (by rw [hpc]; rfl)
  have hcounted := h.counted.held hlock
  rw [hpc] at hcounted
  unfold Channel.sendRecheck
  split
  · have hself : (s.goto f .push).tasks f = { s.tasks f with pc := .push } := setTask_self
    have hothers : ∀ g, g ≠ f → (s.tasks g).Woken ((s.goto f .push).tasks g) :=
      fun _ hne => Or.inl (setTask_of_ne hne)
    have hframe : Frame s { s.goto f .push with waiters := { s.waiters with lock := none } } f :=
      Frame.section hothers (Or.inr hlock) (Or.inl rfl) (fun _ _ => id)
        (called_keep hothers (fun _ _ => id) (by rw [hpc]; nofun))
    refine h.inSection hframe ⟨rfl, rfl, rfl, rfl⟩ rfl hpc hself nofun ⟨nofun, nofun⟩
      (Counted.of_free rfl hcounted) nofun (.loose hnot rfl rfl nofun)
      (fun _ => h.sending f (by rw [hpc]; rfl)) fun _ hs => ?_
    exact hframe.safe rfl rfl hs (fun hc => absurd hc (not_closing hpc rfl))
      (hframe.served rfl (Nat.le_refl _) (fun hd => absurd hd (not_debit hself nofun))
        fun hc => hc.goOn hpc hself rfl rfl nofun rfl rfl)
  · have hself : (s.goto f .sendJoin).tasks f = { s.tasks f with pc := .sendJoin } := setTask_self
    have hothers : ∀ g, g ≠ f → (s.tasks g).Woken ((s.goto f .sendJoin).tasks g) :=
      fun _ hne => Or.inl (setTask_of_ne hne)
    have hframe : Frame s (s.goto f .sendJoin) f :=
      Frame.section hothers (Or.inr hlock) (Or.inr hlock) (fun _ _ => id)
        (called_keep hothers (fun _ _ => id) (by rw [hpc]; nofun))
    refine h.inSection hframe ⟨rfl, rfl, rfl, rfl⟩ rfl hpc hself nofun
      ⟨fun _ => hlock, fun _ => rfl⟩ (Counted.of_held hlock ?_) nofun
      ⟨fun hl => absurd hl hnot, fun _ => hnot, nofun, fun _ => harmed, nofun, nofun, nofun⟩
      (fun _ => h.sending f (by rw [hpc]; rfl)) fun _ hs => ?_
    · rw [hself]
      exact hcounted
    · exact hframe.safe rfl rfl hs (fun hc => absurd hc (not_closing hpc rfl))
        (hframe.served rfl (Nat.le_refl _) (fun hd => absurd hd (not_debit hself nofun))
          fun hc => hc.goOn hpc hself rfl rfl nofun rfl rfl)

/-- The node is linked but not counted yet, so the sender can still be relied on. -/
theorem sendPushNode (h : s.Inv) (hpc : (s.tasks f).pc = .sendJoin) : (s.sendPushNode f).Inv := by
  have hlock := h.lock_of_inside hpc rfl
  have hnot := h.not_linked_apart hpc rfl
  have harmed := (h.own f).armed (by rw [hpc]; rfl)
  have hcounted := h.counted.held hlock
  rw [hpc] at hcounted
  unfold Channel.sendPushNode
  rw [if_neg hnot]
  generalize hs' : ({ s.goto f .sendCount with
    waiters := { s.waiters with nodes := s.waiters.nodes ++ [f] } } : Channel) = s'
  have hself : s'.tasks f = { s.tasks f with pc := .sendCount } := by
    rw [← hs']
    exact setTask_self
  have hnodes : s'.waiters.nodes = s.waiters.nodes ++ [f] := by rw [← hs']
  have hlock' : s'.waiters.lock = some f := by
    rw [← hs']
    exact hlock
  have hsteady : Steady s s' := by
    rw [← hs']
    exact ⟨rfl, rfl, rfl, rfl⟩
  have hothers : ∀ g, g ≠ f → (s.tasks g).Woken (s'.tasks g) := by
    rw [← hs']
    exact fun _ hne => Or.inl (setTask_of_ne hne)
  have hmem : f ∈ s'.waiters.nodes := by
    rw [hnodes]
    exact List.mem_append_right _ (List.mem_singleton_self f)
  have hframe : Frame s s' f := by
    refine Frame.section hothers (Or.inr hlock) (Or.inr hlock') (fun g hne hg => ?_)
      (called_keep hothers (fun g _ hg => ?_) (by rw [hpc]; nofun))
    · rw [hnodes, List.mem_append, List.mem_singleton] at hg
      exact hg.resolve_right hne
    · rw [hnodes]
      exact List.mem_append_left _ hg
  refine h.of_frame hframe (Ends.same h hsteady) ?_ ?_ (Counted.of_held hlock' ?_) ?_ ?_ ?_
    fun hp => ?_
  · rw [hself]
    exact ⟨fun _ => hlock', fun _ => rfl⟩
  · rw [hnodes]
    exact List.nodup_append.mpr ⟨h.nodup, List.nodup_singleton f,
      fun a ha b hb => by rw [List.mem_singleton.mp hb]; rintro rfl; exact hnot ha⟩
  · rw [hself, hnodes, List.length_append, ← hs']
    exact Nat.succ_le_succ hcounted
  · rw [hself]
    nofun
  · rw [hself]
    exact ⟨fun _ => ⟨rfl, Or.inr rfl⟩, nofun, fun _ => hmem, fun _ => harmed, nofun, nofun, nofun⟩
  · rw [hsteady.senders]
    exact fun _ => h.sending f (by rw [hpc]; rfl)
  · have hpublished : s.Published := by
      refine hframe.published (fun _ hcount => ?_) hp
      rw [hself] at hcount
      exact absurd rfl hcount
    refine hframe.safe hsteady.closed hsteady.receivers (h.covered hpublished)
      (fun hc => absurd hc (not_closing hpc rfl)) (hframe.served hsteady.capacity ?_
        (fun hd => absurd hd (not_debit hself nofun)) fun hc => ?_)
    · rw [← hs']
      exact Nat.le_refl _
    · rcases hc with hr | ⟨-, hqueued, -⟩
      · rw [hpc] at hr
        exact absurd hr (by simp [ChannelPc.releasing])
      · exact Or.inr ⟨by rw [hself]; rfl, by rw [hself]; exact hqueued, fun _ => by rw [hself]⟩

/-- The sender is counted. -/
theorem sendRaise (h : s.Inv) (hpc : (s.tasks f).pc = .sendCount) (hcare : s.SafeWithout f) :
    (s.sendRaise f).Inv := by
  have hlock := h.lock_of_inside hpc rfl
  have hmem := (h.own f).counting hpc
  have harmed := (h.own f).armed (by rw [hpc]; rfl)
  have hcounted := h.counted.held hlock
  rw [hpc] at hcounted
  have hself : (s.sendRaise f).tasks f = { s.tasks f with queued := true, pc := .sendPending } :=
    setTask_self
  have hothers : ∀ g, g ≠ f → (s.tasks g).Woken ((s.sendRaise f).tasks g) :=
    fun _ hne => Or.inl (setTask_of_ne hne)
  have hframe : Frame s (s.sendRaise f) f :=
    Frame.section hothers (Or.inr hlock) (Or.inl rfl) (fun _ _ => id)
      (called_keep hothers (fun _ _ => id) (by rw [hpc]; nofun))
  refine h.of_frame hframe (Ends.same h ⟨rfl, rfl, rfl, rfl⟩) ?_ h.nodup
    (Counted.of_free rfl hcounted) ?_ ?_ ?_ fun _ => ?_
  · rw [hself]
    exact ⟨nofun, nofun⟩
  · rw [hself]
    nofun
  · rw [hself]
    exact ⟨fun _ => ⟨rfl, Or.inl rfl⟩, nofun, nofun, nofun,
      fun _ _ => harmed.symm.imp_right fun hr => ⟨hr, Or.inl hmem⟩, nofun, nofun⟩
  · exact fun _ => h.sending f (by rw [hpc]; rfl)
  · exact hcare.safe hframe ⟨rfl, rfl, rfl, rfl⟩ rfl hpc rfl (not_debit hself nofun)

/-! ## A sender leaves the list -/

/-- What comes after `remove_send_wait`. -/
theorem sendExit_self (s : Channel) (f : Nat) (exit : WaitExit) :
    ∃ t, s.sendExit f exit = s.setTask f t ∧ t.pc.inside = false ∧ t.pc ≠ .sendRemove .done ∧
      ∀ (linked called unsent unreceived : Prop), ¬ linked → t.Own linked called unsent unreceived := by
  cases exit with
  | done => exact ⟨_, rfl, rfl, nofun, fun _ _ _ _ hnot => .aside rfl rfl hnot⟩
  | closed => exact ⟨_, rfl, rfl, nofun, fun _ _ _ _ hnot => .loose hnot rfl rfl nofun⟩
  | dropped => exact ⟨_, rfl, rfl, nofun, fun _ _ _ _ hnot => .aside rfl rfl hnot⟩

/-- The node of a sender that was not popped is unlinked. -/
theorem unlinkSend (h : s.Inv) {exit : WaitExit} (hpc : (s.tasks f).pc = .sendRemove exit)
    (hfree : s.waiters.lock = none) (hmem : f ∈ s.waiters.nodes) :
    Inv { s.goto f (.sendUnlink exit) with
      waiters := { s.waiters with nodes := s.waiters.nodes.erase f, lock := some f } } := by
  generalize hs' : ({ s.goto f (.sendUnlink exit) with
    waiters := { s.waiters with nodes := s.waiters.nodes.erase f, lock := some f } } : Channel) = s'
  have hself : s'.tasks f = { s.tasks f with pc := .sendUnlink exit } := by
    rw [← hs']
    exact setTask_self
  have hnodes : s'.waiters.nodes = s.waiters.nodes.erase f := by rw [← hs']
  have hlock' : s'.waiters.lock = some f := by rw [← hs']
  have hsteady : Steady s s' := by
    rw [← hs']
    exact ⟨rfl, rfl, rfl, rfl⟩
  have hothers : ∀ g, g ≠ f → (s.tasks g).Woken (s'.tasks g) := by
    rw [← hs']
    exact fun _ hne => Or.inl (setTask_of_ne hne)
  have hnot : f ∉ s'.waiters.nodes := by
    rw [hnodes]
    exact h.nodup.not_mem_erase
  have hframe : Frame s s' f := by
    refine Frame.section hothers (Or.inl hfree) (Or.inr hlock') (fun g _ hg => ?_)
      (called_keep hothers (fun g hne hg => ?_) (by rw [hpc]; nofun))
    · rw [hnodes] at hg
      exact List.mem_of_mem_erase hg
    · rw [hnodes]
      exact (List.mem_erase_of_ne hne).mpr hg
  refine h.of_frame hframe (Ends.same h hsteady) ?_ ?_ (Counted.of_held hlock' ?_) ?_ ?_ ?_
    fun hp => ?_
  · rw [hself]
    exact ⟨fun _ => hlock', fun _ => rfl⟩
  · rw [hnodes]
    exact h.nodup.erase f
  · have hcounted := h.counted.free hfree
    have hlen := List.length_erase_add_one hmem
    rw [hself, hnodes, ← hs']
    show (s.waiters.nodes.erase f).length + 1 ≤ s.waiters.count
    rw [hlen]
    exact hcounted
  · rw [hself]
    nofun
  · rw [hself]
    exact .aside rfl rfl hnot
  · rw [hsteady.senders]
    exact fun _ => h.sending f (by rw [hpc]; rfl)
  · have hpublished : s.Published := hframe.published (fun hf => absurd hf hnot) hp
    refine hframe.safe hsteady.closed hsteady.receivers (h.covered hpublished)
      (fun hc => absurd hc (not_closing hpc rfl)) (hframe.served hsteady.capacity ?_
        (fun hd => absurd hd (not_debit hself nofun)) fun hc => ?_)
    · rw [← hs']
      exact Nat.le_refl _
    · -- a linked sender was not relied on
      rcases hc with hr | ⟨-, -, hcount⟩
      · rw [hpc] at hr
        exact absurd hr (by simp [ChannelPc.releasing])
      · have heq := hcount hmem
        rw [hpc] at heq
        exact absurd heq (by simp)

/-- While all receivers are gone the senders rely on nobody else. -/
theorem safeWithout_of_closed (h : s.Inv) (hclosed : s.isClosed = true)
    (hsend : 0 < s.senderCount) (hs : s.Safe) : s.SafeWithout f := by
  refine hs.imp id fun ⟨hpos, _⟩ => ?_
  rcases h.closed hclosed with hzero | hzero <;> omega

/-- A sender that was popped leaves. -/
theorem leaveSend (h : s.Inv) {exit : WaitExit} (hpc : (s.tasks f).pc = .sendRemove exit)
    (hnot : f ∉ s.waiters.nodes)
    (hcare : exit = .dropped →
      s.isClosed = true ∨ f ∈ s.waiters.nodes ∨ s.waiters.nodes = [] ∨ s.SafeWithout f) :
    (s.sendExit f exit).Inv := by
  have hsend := h.sending f (by rw [hpc]; rfl)
  have hothers : ∀ t, ∀ g, g ≠ f → (s.tasks g).Woken ((s.setTask f t).tasks g) :=
    fun _ _ hne => Or.inl (setTask_of_ne hne)
  cases exit with
  | done =>
    have hself : (s.sendExit f .done).tasks f =
        { s.tasks f with queued := false, pc := .notifyLoad } := setTask_self
    have hframe : Frame s (s.sendExit f .done) f :=
      Frame.outside (hothers _) rfl (by rw [hpc]; rfl)
    refine h.outside (hothers _) rfl (Ends.same h ⟨rfl, rfl, rfl, rfl⟩) hpc hself rfl rfl
      (.aside rfl rfl hnot) (fun _ => hsend) fun _ hs => ?_
    refine hframe.safe rfl rfl hs (fun hc => absurd hc (not_closing hpc rfl)) fun hserved => ?_
    refine hserved.repay (i := f) hpc (fun g hg => ?_) fun g hne hg => hframe.credit hne hg
    have hne : g ≠ f := by
      rintro rfl
      exact not_debit hself nofun hg
    exact ⟨hne, hframe.debit hne hg⟩
  | closed =>
    exact h.actNode hpc ⟨rfl, rfl, rfl, rfl⟩ ⟨rfl, rfl⟩ rfl (.loose hnot rfl rfl nofun) nofun
  | dropped =>
    have hframe : Frame s (s.sendExit f .dropped) f :=
      Frame.outside (hothers _) rfl (by rw [hpc]; rfl)
    refine h.outside (hothers _) rfl (Ends.same h ⟨rfl, rfl, rfl, rfl⟩) hpc setTask_self rfl rfl
      (.aside rfl rfl hnot) nofun fun ⟨g, hg, _⟩ hs => ?_
    have hwithout : s.SafeWithout f := by
      rcases hcare rfl with hclosed | hmem | hnil | hwithout
      · exact h.safeWithout_of_closed hclosed hsend hs
      · exact absurd hmem hnot
      · rw [hnil] at hg
        exact absurd hg (by simp)
      · exact hwithout
    exact hwithout.safe hframe ⟨rfl, rfl, rfl, rfl⟩ rfl hpc rfl (not_debit setTask_self nofun)

theorem removeSendWait (h : s.Inv) {exit : WaitExit} (hpc : (s.tasks f).pc = .sendRemove exit)
    (hfree : s.waiters.lock = none)
    (hcare : exit = .dropped →
      s.isClosed = true ∨ f ∈ s.waiters.nodes ∨ s.waiters.nodes = [] ∨ s.SafeWithout f) :
    (s.removeSendWait f exit).Inv := by
  unfold Channel.removeSendWait
  split
  · exact h.unlinkSend hpc hfree ‹_›
  · exact h.leaveSend hpc ‹_› hcare

theorem sendLower (h : s.Inv) {exit : WaitExit} (hpc : (s.tasks f).pc = .sendUnlink exit) :
    (s.sendLower f exit).Inv := by
  have hlock := h.lock_of_inside hpc rfl
  have hnot := h.not_linked hpc rfl
  have hcounted := h.counted.held hlock
  rw [hpc] at hcounted
  obtain ⟨t, hexit, hinside, hdone, hown⟩ := sendExit_self s f exit
  unfold Channel.sendLower
  rw [hexit]
  have hothers : ∀ g, g ≠ f → (s.tasks g).Woken ((s.setTask f t).tasks g) :=
    fun _ hne => Or.inl (setTask_of_ne hne)
  have hframe : Frame s { s.setTask f t with
      waiters := { s.waiters with count := s.waiters.count - 1, lock := none } } f :=
    Frame.section hothers (Or.inr hlock) (Or.inl rfl) (fun _ _ => id)
      (called_keep hothers (fun _ _ => id) (by rw [hpc]; nofun))
  refine h.inSection hframe ⟨rfl, rfl, rfl, rfl⟩ rfl hpc setTask_self nofun ?_
    (Counted.of_free rfl ?_) ?_ (hown _ _ _ _ hnot) (fun _ => h.sending f (by rw [hpc]; rfl))
    fun _ hs => ?_
  · rw [hinside]
    exact ⟨nofun, nofun⟩
  · exact Nat.le_sub_of_add_le hcounted
  · intro hstore
    rw [hstore] at hinside
    exact absurd hinside (by simp [ChannelPc.inside])
  · exact hframe.safe rfl rfl hs (fun hc => absurd hc (not_closing hpc rfl))
      (hframe.served rfl (Nat.le_refl _) (fun hd => absurd hd (not_debit setTask_self hdone))
        fun hc => absurd hc (not_credit hpc rfl (Or.inl rfl)))

/-! ## A receiver pops the list -/

/-- The first node is unlinked by `f`, which is going to wake it. -/
theorem popFrame {rest : List Nat} (hwaiters : s.waiters.nodes = g :: rest)
    (hlock : s.waiters.lock = none ∨ s.waiters.lock = some f) (hpc : (s.tasks f).pc = pc)
    (hquiet : pc.calling = none) (hcalling : t.pc.calling = some g) :
    Frame s { s.setTask f t with
      waiters := { s.waiters with nodes := rest, lock := some f } } f := by
  have hothers : ∀ g, g ≠ f → (s.tasks g).Woken ((s.setTask f t).tasks g) :=
    fun _ hne => Or.inl (setTask_of_ne hne)
  refine Frame.section hothers hlock (Or.inr rfl) (fun i _ hi => ?_) fun i hne _ hi => Or.inr ?_
  · rw [hwaiters]
    exact List.mem_cons_of_mem g hi
  · rcases hi with hi | ⟨j, hj⟩
    · rw [hwaiters, List.mem_cons] at hi
      rcases hi with rfl | hi
      · refine Or.inr ⟨f, ?_⟩
        show ((s.setTask f t).tasks f).pc.calling = some i
        rw [setTask_self]
        exact hcalling
      · exact Or.inl hi
    · have hjf : j ≠ f := by
        rintro rfl
        rw [hpc, hquiet] at hj
        exact absurd hj (by simp)
      refine Or.inr ⟨j, ?_⟩
      rw [(hothers j hjf).pc]
      exact hj

/-- The credit of the receiver passes to the sender that it pops. -/
theorem releasePopNode (h : s.Inv) (hpc : (s.tasks f).pc = .releasePop)
    (hfree : s.waiters.lock = none) : (s.releasePopNode f).Inv := by
  unfold Channel.releasePopNode
  split
  · rename_i hnil
    refine h.released hpc ⟨rfl, rfl, rfl⟩ ?_
    rintro ⟨g, hg, -⟩
    rw [hnil] at hg
    exact absurd hg (by simp)
  · rename_i g rest hwaiters
    have hnodup := h.nodup
    rw [hwaiters, List.nodup_cons] at hnodup
    have hmem : g ∈ s.waiters.nodes := by
      rw [hwaiters]
      exact List.mem_cons_self ..
    have hnot : f ∉ s.waiters.nodes := h.not_linked hpc rfl
    have hne : g ≠ f := by
      rintro rfl
      exact hnot hmem
    have hcount : (s.tasks g).pc ≠ .sendCount := by
      intro heq
      rw [(h.lock g).mp (by rw [heq]; rfl)] at hfree
      exact absurd hfree (by simp)
    obtain ⟨hnode, hqueued⟩ := (h.own g).node hmem
    have hframe := popFrame (t := { s.tasks f with pc := .releaseSub g }) hwaiters (Or.inl hfree) hpc
      rfl rfl
    generalize hs' : ({ s.goto f (.releaseSub g) with
      waiters := { s.waiters with nodes := rest, lock := some f } } : Channel) = s'
    have hframe : Frame s s' f := hs' ▸ hframe
    have hself : s'.tasks f = { s.tasks f with pc := .releaseSub g } := by
      rw [← hs']
      exact setTask_self
    have hnodes : s'.waiters.nodes = rest := by rw [← hs']
    have hlock' : s'.waiters.lock = some f := by rw [← hs']
    have hsteady : Steady s s' := by
      rw [← hs']
      exact ⟨rfl, rfl, rfl, rfl⟩
    have hf : f ∉ s'.waiters.nodes := by
      rw [hnodes]
      rw [hwaiters, List.mem_cons, not_or] at hnot
      exact hnot.2
    refine h.of_frame hframe (Ends.same h hsteady) ?_ ?_ (Counted.of_held hlock' ?_) ?_ ?_ ?_
      fun hp => ?_
    · rw [hself]
      exact ⟨fun _ => hlock', fun _ => rfl⟩
    · rw [hnodes]
      exact hnodup.2
    · have hcounted := h.counted.free hfree
      rw [hwaiters] at hcounted
      rw [hself, hnodes, ← hs']
      exact hcounted
    · rw [hself]
      nofun
    · rw [hself]
      exact .aside rfl rfl hf
    · rw [hself]
      nofun
    · have hpublished : s.Published := hframe.published (fun hmem => absurd hmem hf) hp
      refine hframe.safe hsteady.closed hsteady.receivers (h.covered hpublished)
        (fun hc => absurd hc (not_closing hpc rfl)) fun hserved => ?_
      unfold Served
      rw [hsteady.capacity, show s'.len = s.len by rw [← hs']; rfl]
      refine hserved.pass (i := f) (j := g) ?_ ?_ (fun i hi => ?_) fun i hi hc => hframe.credit hi hc
      · rintro (hr | ⟨-, -, hlinked⟩)
        · rw [ChannelPc.not_releasing_of_node hnode] at hr
          exact absurd hr Bool.false_ne_true
        · exact hcount (hlinked hmem)
      · have hw := hframe.others g hne
        refine Or.inr ⟨by rw [hw.pc]; exact hnode, ?_, fun hg => ?_⟩
        · rw [hw.queued]
          exact hqueued.resolve_right hcount
        · rw [hnodes] at hg
          exact absurd hg hnodup.1
      · by_cases hif : i = f
        · subst hif
          exact absurd hi (not_debit hself nofun)
        · exact hframe.debit hif hi

theorem releaseLower (h : s.Inv) (hpc : (s.tasks f).pc = .releaseSub g) :
    (s.releaseLower f g).Inv := by
  have hlock := h.lock_of_inside hpc rfl
  have hcounted := h.counted.held hlock
  rw [hpc] at hcounted
  have hself : (s.releaseLower f g).tasks f = { s.tasks f with pc := .releaseWake g } :=
    setTask_self
  have hothers : ∀ i, i ≠ f → (s.tasks i).Woken ((s.releaseLower f g).tasks i) :=
    fun _ hne => Or.inl (setTask_of_ne hne)
  have hframe : Frame s (s.releaseLower f g) f :=
    Frame.section hothers (Or.inr hlock) (Or.inr hlock) (fun _ _ => id)
      (called_keep hothers (fun _ _ => id) (by rw [hpc, hself]; exact fun _ => id))
  refine h.inSection hframe ⟨rfl, rfl, rfl, rfl⟩ rfl hpc hself nofun
    ⟨fun _ => hlock, fun _ => rfl⟩ (Counted.of_held hlock ?_) nofun
    (.aside rfl rfl (h.not_linked hpc rfl)) nofun fun _ hs => ?_
  · rw [hself]
    exact Nat.le_sub_of_add_le hcounted
  · exact hframe.safe rfl rfl hs (fun hc => absurd hc (not_closing hpc rfl))
      (hframe.served rfl (Nat.le_refl _) (fun hd => absurd hd (not_debit hself nofun))
        fun hc => absurd hc (not_credit hpc rfl (Or.inl rfl)))

/-- The sender that was popped is woken by the holder of the lock. -/
theorem wakeFrame (hpc : (s.tasks f).pc = pc) (hcalling : pc.calling = some g)
    (hlock : s.waiters.lock = some f) {w : WaitList} (hnodes : w.nodes = s.waiters.nodes)
    (hlock' : w.lock = none ∨ w.lock = some f) :
    Frame s { (s.wake g).setTask f t with waiters := w } f := by
  have hothers : ∀ i, i ≠ f → (s.tasks i).Woken (((s.wake g).setTask f t).tasks i) :=
    woken_others s f g t
  refine Frame.section hothers (Or.inr hlock) hlock' (fun i _ hi => hnodes ▸ hi) fun i hne hr hi => ?_
  rcases hi with hi | ⟨j, hj⟩
  · exact Or.inr (Or.inl (hnodes ▸ hi))
  · by_cases hjf : j = f
    · subst hjf
      rw [hpc, hcalling] at hj
      obtain rfl := Option.some.inj hj
      refine Or.inl ?_
      show (((s.wake g).setTask j t).tasks g).notified = true
      rw [setTask_of_ne hne]
      exact wake_notified hr
    · refine Or.inr (Or.inr ⟨j, ?_⟩)
      rw [(hothers j hjf).pc]
      exact hj

theorem releaseWakeNode (h : s.Inv) (hpc : (s.tasks f).pc = .releaseWake g) :
    (s.releaseWakeNode f g).Inv := by
  have hlock := h.lock_of_inside hpc rfl
  have hcounted := h.counted.held hlock
  rw [hpc] at hcounted
  obtain ⟨t, hdone, hinside, hnode, hlast, hsending⟩ := recvDone_self (s.wake g) f
  unfold Channel.releaseWakeNode
  rw [hdone]
  have hframe := wakeFrame (t := t) (w := { s.waiters with lock := none }) hpc rfl hlock rfl
    (Or.inl rfl)
  refine h.inSection hframe
    ⟨wake_capacity g, wake_isClosed g, wake_senderCount g, wake_receiverCount g⟩ rfl hpc
    setTask_self nofun ?_ (Counted.of_free rfl hcounted) ?_
    (.aside hnode hlast (h.not_linked hpc rfl)) ?_ fun _ hs => ?_
  · rw [hinside]
    exact ⟨nofun, nofun⟩
  · intro hstore
    rw [hstore] at hinside
    exact absurd hinside (by simp [ChannelPc.inside])
  · rw [hsending]
    nofun
  · have hdebit : t.pc ≠ .sendRemove .done := by
      intro heq
      rw [heq] at hnode
      exact absurd hnode (by simp [ChannelPc.node])
    exact hframe.safe (wake_isClosed g) (wake_receiverCount g) hs
      (fun hc => absurd hc (not_closing hpc rfl))
      (hframe.served (wake_capacity g) (wake_len g).ge
        (fun hd => absurd hd (not_debit setTask_self hdebit))
        fun hc => absurd hc (not_credit hpc rfl (Or.inl rfl)))

/-! ## The last receiver empties the list -/

/-- `f` goes on waking all senders. -/
theorem draining_closing (hself : s.tasks f = t) (hdraining : t.pc.draining = true) : s.Safe :=
  Or.inl ⟨f, Or.inl (by rw [hself]; exact hdraining)⟩

theorem sendersLock (h : s.Inv) (hpc : (s.tasks f).pc = .sendersEnter)
    (hfree : s.waiters.lock = none) : (s.sendersLock f).Inv := by
  have hothers : ∀ g, g ≠ f → (s.tasks g).Woken ((s.sendersLock f).tasks g) :=
    fun _ hne => Or.inl (setTask_of_ne hne)
  have hself : (s.sendersLock f).tasks f = { s.tasks f with pc := .sendersDrain } := setTask_self
  have hframe : Frame s (s.sendersLock f) f :=
    Frame.section hothers (Or.inl hfree) (Or.inr rfl) (fun _ _ => id)
      (called_keep hothers (fun _ _ => id) (by rw [hpc]; nofun))
  refine h.inSection hframe ⟨rfl, rfl, rfl, rfl⟩ rfl hpc hself nofun ⟨fun _ => rfl, fun _ => rfl⟩
    (Counted.of_held rfl ?_) nofun (.aside rfl rfl (h.not_linked hpc rfl)) nofun
    fun _ _ => draining_closing hself rfl
  rw [hself]
  exact h.counted.free hfree

theorem sendersPop (h : s.Inv) (hpc : (s.tasks f).pc = .sendersDrain) : (s.sendersPop f).Inv := by
  have hlock := h.lock_of_inside hpc rfl
  have hnot := h.not_linked hpc rfl
  have hcounted := h.counted.held hlock
  rw [hpc] at hcounted
  unfold Channel.sendersPop
  split
  · rename_i hnil
    have hothers : ∀ g, g ≠ f → (s.tasks g).Woken ((s.goto f .sendersStore).tasks g) :=
      fun _ hne => Or.inl (setTask_of_ne hne)
    have hself : (s.goto f .sendersStore).tasks f = { s.tasks f with pc := .sendersStore } :=
      setTask_self
    have hframe : Frame s (s.goto f .sendersStore) f :=
      Frame.section hothers (Or.inr hlock) (Or.inr hlock) (fun _ _ => id)
        (called_keep hothers (fun _ _ => id) (by rw [hpc]; nofun))
    refine h.inSection hframe ⟨rfl, rfl, rfl, rfl⟩ rfl hpc hself nofun
      ⟨fun _ => hlock, fun _ => rfl⟩ (Counted.of_held hlock ?_) (fun _ => hnil)
      (.aside rfl rfl hnot) nofun fun _ _ => draining_closing hself rfl
    rw [hself]
    exact hcounted
  · rename_i g rest hwaiters
    have hnodup := h.nodup
    rw [hwaiters, List.nodup_cons] at hnodup
    have hself : (s.goto f (.sendersWake g)).tasks f = { s.tasks f with pc := .sendersWake g } :=
      setTask_self
    have hframe : Frame s { s.goto f (.sendersWake g) with
        waiters := { s.waiters with nodes := rest } } f := by
      have hpop := popFrame (t := { s.tasks f with pc := .sendersWake g }) hwaiters (Or.inr hlock)
        hpc rfl rfl
      rw [← hlock] at hpop
      exact hpop
    refine h.of_frame hframe (Ends.same h ⟨rfl, rfl, rfl, rfl⟩) ?_ hnodup.2
      (Counted.of_held hlock ?_) ?_ ?_ ?_ fun _ => draining_closing hself rfl
    · exact ⟨fun _ => hlock, fun _ => by rw [hself]; rfl⟩
    · rw [hself]
      rw [hwaiters] at hcounted
      exact Nat.le_of_succ_le hcounted
    · rw [hself]
      nofun
    · rw [hself]
      rw [hwaiters, List.mem_cons, not_or] at hnot
      exact .aside rfl rfl hnot.2
    · rw [hself]
      nofun

theorem sendersWakeNode (h : s.Inv) (hpc : (s.tasks f).pc = .sendersWake g) :
    (s.sendersWakeNode f g).Inv := by
  have hlock := h.lock_of_inside hpc rfl
  have hcounted := h.counted.held hlock
  rw [hpc] at hcounted
  have hself : (s.sendersWakeNode f g).tasks f = { (s.wake g).tasks f with pc := .sendersDrain } :=
    setTask_self
  have hwaiters : (s.sendersWakeNode f g).waiters = s.waiters := wake_waiters g
  have hframe : Frame s (s.sendersWakeNode f g) f := by
    have hwake := wakeFrame (t := { (s.wake g).tasks f with pc := .sendersDrain })
      (w := (s.wake g).waiters) hpc rfl hlock (by rw [wake_waiters])
      (Or.inr (by rw [wake_waiters]; exact hlock))
    exact hwake
  have hlock' : (s.sendersWakeNode f g).waiters.lock = some f := by
    rw [hwaiters]
    exact hlock
  refine h.inSection hframe
    ⟨wake_capacity g, wake_isClosed g, wake_senderCount g, wake_receiverCount g⟩
    (by rw [hwaiters]) hpc hself nofun ⟨fun _ => hlock', fun _ => rfl⟩
    (Counted.of_held hlock' ?_) nofun (.aside rfl rfl (h.not_linked hpc rfl)) nofun
    fun _ _ => draining_closing hself rfl
  rw [hself, hwaiters]
  exact hcounted

theorem sendersReset (h : s.Inv) (hpc : (s.tasks f).pc = .sendersStore) :
    (s.sendersReset f).Inv := by
  have hlock := h.lock_of_inside hpc rfl
  have hnil := h.drained f hpc
  have hothers : ∀ g, g ≠ f → (s.tasks g).Woken ((s.sendersReset f).tasks g) :=
    fun _ hne => Or.inl (setTask_of_ne hne)
  have hframe : Frame s (s.sendersReset f) f :=
    Frame.section hothers (Or.inr hlock) (Or.inl rfl) (fun _ _ => id)
      (called_keep hothers (fun _ _ => id) (by rw [hpc]; nofun))
  refine h.inSection hframe ⟨rfl, rfl, rfl, rfl⟩ rfl hpc setTask_self nofun ⟨nofun, nofun⟩
    (Counted.of_free rfl ?_) nofun (.aside rfl rfl (h.not_linked hpc rfl)) nofun
    fun ⟨g, hg, _⟩ => ?_
  · show s.waiters.nodes.length ≤ 0
    rw [hnil]
    exact Nat.le_refl _
  · rw [hnil] at hg
    exact absurd hg (by simp)

/-! ## The endpoints -/

/-- While all senders are gone nobody is linked. -/
theorem not_published_of_unsent (h : s.Inv) (hzero : s.senderCount = 0) : ¬ s.Published := by
  rintro ⟨g, hg, -⟩
  have hsend := h.sending g (ChannelPc.sending_of_node ((h.own g).node hg).1)
  omega

theorem cloneSender (h : s.Inv) (hpc : (s.tasks f).pc = .fresh) (hsend : 0 < s.senderCount) :
    (s.cloneSender f).Inv := by
  have hothers : ∀ g, g ≠ f → (s.tasks g).Woken ((s.cloneSender f).tasks g) :=
    fun _ hne => Or.inl (setTask_of_ne hne)
  have hframe : Frame s (s.cloneSender f) f := Frame.outside hothers rfl (by rw [hpc]; rfl)
  have hends : Ends s (s.cloneSender f) f := by
    refine ⟨fun _ _ _ => Nat.succ_pos _, fun hzero => ?_, id, fun hclosed => Or.inr ?_⟩
    · omega
    · exact (h.closed hclosed).resolve_left (Nat.pos_iff_ne_zero.mp hsend)
  refine h.outside hothers rfl hends hpc setTask_self rfl rfl
    (.aside rfl rfl (h.not_linked hpc rfl)) nofun fun _ hs => ?_
  exact hframe.safe rfl rfl hs (fun hc => absurd hc (not_closing hpc rfl))
    (hframe.served rfl (Nat.le_refl _) (fun hd => absurd hd (not_debit setTask_self nofun))
      fun hc => absurd hc (not_credit hpc rfl (Or.inl rfl)))

theorem dropSender (h : s.Inv) (hpc : (s.tasks f).pc = .fresh) (hsend : 0 < s.senderCount)
    (hborrow : s.senderCount = 1 → ∀ g, (s.tasks g).pc.sending = false) :
    (s.dropSender f).Inv := by
  have hself : ∃ t, (s.dropSender f).tasks f = t ∧ t.pc.inside = false ∧ t.pc.node = false ∧
      t.pc.sending = false ∧ t.pc ≠ .closeRecv ∧ (t.pc = .close → s.senderCount = 1) := by
    unfold Channel.dropSender
    split
    · rename_i hone
      exact ⟨_, setTask_self, rfl, rfl, rfl, nofun, fun _ => hone⟩
    · exact ⟨_, setTask_self, rfl, rfl, rfl, nofun, nofun⟩
  obtain ⟨t, hself, hinside, hnode, hsending, hrecv, hclose⟩ := hself
  have hothers : ∀ g, g ≠ f → (s.tasks g).Woken ((s.dropSender f).tasks g) := by
    intro g hne
    refine Or.inl ?_
    unfold Channel.dropSender
    split <;> exact setTask_of_ne hne
  have hwaiters : (s.dropSender f).waiters = s.waiters := by
    unfold Channel.dropSender
    split <;> rfl
  have hsenders : (s.dropSender f).senderCount = s.senderCount - 1 := rfl
  have hreceivers : (s.dropSender f).receiverCount = s.receiverCount := by
    unfold Channel.dropSender
    split <;> rfl
  have hclosed : (s.dropSender f).isClosed = s.isClosed := by
    unfold Channel.dropSender
    split <;> rfl
  have hcapacity : (s.dropSender f).capacity = s.capacity := by
    unfold Channel.dropSender
    split <;> rfl
  have hlen : (s.dropSender f).len = s.len := by
    unfold Channel.dropSender
    split <;> rfl
  have hframe : Frame s (s.dropSender f) f := Frame.outside hothers hwaiters (by rw [hpc]; rfl)
  have hends : Ends s (s.dropSender f) f := by
    refine ⟨fun g _ hg => ?_, fun hzero => ?_, fun hzero => ?_, fun hc => ?_⟩
    · rw [hsenders]
      have hne : s.senderCount ≠ 1 := by
        intro hone
        rw [hborrow hone g] at hg
        exact absurd hg (by simp)
      omega
    · omega
    · rw [hreceivers]
      exact hzero
    · rw [hsenders, hreceivers]
      rw [hclosed] at hc
      exact (h.closed hc).imp_left fun hzero => by omega
  refine h.outside hothers hwaiters hends hpc hself rfl hinside
    (.away hnode (h.not_linked hpc rfl) (fun hc => ?_) fun hc => absurd hc hrecv) ?_ fun _ hs => ?_
  · rw [hsenders, hclose hc]
  · rw [hsending]
    nofun
  · have hdebit : t.pc ≠ .sendRemove .done := by
      intro heq
      rw [heq] at hnode
      exact absurd hnode (by simp [ChannelPc.node])
    exact hframe.safe hclosed hreceivers hs (fun hc => absurd hc (not_closing hpc rfl))
      (hframe.served hcapacity hlen.ge (fun hd => absurd hd (not_debit hself hdebit))
        fun hc => absurd hc (not_credit hpc rfl (Or.inl rfl)))

theorem closeSwap (h : s.Inv) (hpc : (s.tasks f).pc = .close) : (s.closeSwap f).Inv := by
  have hzero : s.senderCount = 0 := (h.own f).close hpc
  unfold Channel.closeSwap
  split
  · exact h.actAway (Nat.le_refl _) hpc ⟨rfl, rfl, rfl, rfl⟩ ⟨rfl, rfl, rfl⟩ nofun
  · refine h.outside (fun _ hne => Or.inl (setTask_of_ne hne)) rfl
      ⟨fun g _ hg => h.sending g hg, id, id, fun _ => Or.inl hzero⟩ hpc setTask_self rfl rfl
      (.aside rfl rfl (h.not_linked hpc rfl)) nofun
      fun hp => absurd hp (h.not_published_of_unsent hzero)

theorem closeLock (h : s.Inv) (hpc : (s.tasks f).pc = .closeEnter) : (s.closeLock f).Inv :=
  h.actAway (Nat.le_refl _) hpc ⟨rfl, rfl, rfl, rfl⟩ ⟨rfl, rfl, rfl⟩ nofun

theorem closePop (h : s.Inv) (hpc : (s.tasks f).pc = .closeDrain) : (s.closePop f).Inv := by
  unfold Channel.closePop
  split <;> exact h.actAway (Nat.le_refl _) hpc ⟨rfl, rfl, rfl, rfl⟩ ⟨rfl, rfl, rfl⟩ nofun

theorem closeWakeNode (h : s.Inv) (hpc : (s.tasks f).pc = .closeWake g) :
    (s.closeWakeNode f g).Inv := by
  refine h.away (woken_others s f g _) (wake_waiters g)
    ⟨wake_capacity g, wake_isClosed g, wake_senderCount g, wake_receiverCount g⟩ ?_ hpc setTask_self
    ⟨rfl, rfl, rfl, rfl⟩ ⟨rfl, rfl, rfl⟩ nofun
  exact (wake_len g).ge

theorem cloneReceiver (h : s.Inv) (hpc : (s.tasks f).pc = .fresh) (hrecv : 0 < s.receiverCount) :
    (s.cloneReceiver f).Inv := by
  have hothers : ∀ g, g ≠ f → (s.tasks g).Woken ((s.cloneReceiver f).tasks g) :=
    fun _ hne => Or.inl (setTask_of_ne hne)
  have hframe : Frame s (s.cloneReceiver f) f := Frame.outside hothers rfl (by rw [hpc]; rfl)
  have hends : Ends s (s.cloneReceiver f) f := by
    refine ⟨fun g _ hg => h.sending g hg, id, fun hzero => ?_, fun hclosed => Or.inl ?_⟩
    · omega
    · exact (h.closed hclosed).resolve_right (Nat.pos_iff_ne_zero.mp hrecv)
  refine h.outside hothers rfl hends hpc setTask_self rfl rfl
    (.aside rfl rfl (h.not_linked hpc rfl)) nofun fun _ hs => ?_
  rcases hs with ⟨g, hg⟩ | ⟨-, hserved⟩
  · have hne : g ≠ f := by
      rintro rfl
      exact not_closing hpc rfl hg
    refine Or.inl ⟨g, ?_⟩
    unfold Closing at hg ⊢
    rw [(hframe.others g hne).pc]
    refine hg.imp_right fun ⟨hopen, hg⟩ => ⟨hopen, hg.imp_right fun ⟨_, hzero⟩ => ?_⟩
    omega
  · exact Or.inr ⟨Nat.succ_pos _, hframe.served rfl (Nat.le_refl _)
      (fun hd => absurd hd (not_debit setTask_self nofun))
      (fun hc => absurd hc (not_credit hpc rfl (Or.inl rfl))) hserved⟩

theorem dropReceiver (h : s.Inv) (hpc : (s.tasks f).pc = .fresh) (hrecv : 0 < s.receiverCount) :
    (s.dropReceiver f).Inv := by
  have hothers : ∀ g, g ≠ f → (s.tasks g).Woken ((s.dropReceiver f).tasks g) :=
    fun _ hne => Or.inl (setTask_of_ne hne)
  have hself : (s.dropReceiver f).tasks f = { s.tasks f with pc := .dropLoad } := setTask_self
  have hframe : Frame s (s.dropReceiver f) f := Frame.outside hothers rfl (by rw [hpc]; rfl)
  have hreceivers : (s.dropReceiver f).receiverCount = s.receiverCount - 1 := rfl
  have hends : Ends s (s.dropReceiver f) f := by
    refine ⟨fun g _ hg => h.sending g hg, id, fun hzero => ?_, fun hclosed => ?_⟩
    · omega
    · exact (h.closed hclosed).imp_right fun hzero => by omega
  refine h.outside hothers rfl hends hpc hself rfl rfl
    (.aside rfl rfl (h.not_linked hpc rfl)) nofun fun hp hs => ?_
  by_cases hone : s.receiverCount = 1
  · -- the channel is still open, so the last receiver is going to close it
    have hopen : s.isClosed = false := by
      rw [Bool.eq_false_iff]
      intro hclosed
      rcases h.closed hclosed with hzero | hzero
      · exact h.not_published_of_unsent hzero hp
      · omega
    refine Or.inl ⟨f, Or.inr ⟨hopen, Or.inr ⟨by rw [hself], ?_⟩⟩⟩
    rw [hreceivers, hone]
  · rcases hs with ⟨g, hg⟩ | ⟨-, hserved⟩
    · have hne : g ≠ f := by
        rintro rfl
        exact not_closing hpc rfl hg
      refine Or.inl ⟨g, ?_⟩
      unfold Closing at hg ⊢
      rw [(hframe.others g hne).pc]
      refine hg.imp_right fun ⟨hopen, hg⟩ => ⟨hopen, hg.imp_right fun ⟨_, hzero⟩ => ?_⟩
      omega
    · exact Or.inr ⟨by omega, hframe.served rfl (Nat.le_refl _)
        (fun hd => absurd hd (not_debit hself nofun))
        (fun hc => absurd hc (not_credit hpc rfl (Or.inl rfl))) hserved⟩

theorem dropReceiverLoad (h : s.Inv) (hpc : (s.tasks f).pc = .dropLoad) :
    (s.dropReceiverLoad f).Inv := by
  have hothers : ∀ t, ∀ g, g ≠ f → (s.tasks g).Woken ((s.setTask f t).tasks g) :=
    fun _ _ hne => Or.inl (setTask_of_ne hne)
  unfold Channel.dropReceiverLoad
  split
  · rename_i hzero
    have hself : (s.goto f .closeRecv).tasks f = { s.tasks f with pc := .closeRecv } := setTask_self
    have hframe : Frame s (s.goto f .closeRecv) f := Frame.outside (hothers _) rfl (by rw [hpc]; rfl)
    refine h.outside (hothers _) rfl (Ends.same h ⟨rfl, rfl, rfl, rfl⟩) hpc hself rfl rfl
      (.away rfl (h.not_linked hpc rfl) nofun fun _ => hzero) nofun fun _ hs => ?_
    refine hframe.safe rfl rfl hs (fun hc => ?_) (hframe.served rfl (Nat.le_refl _)
      (fun hd => absurd hd (not_debit hself nofun))
      fun hc => absurd hc (not_credit hpc rfl (Or.inl rfl)))
    rcases hc with hd | ⟨hopen, -⟩
    · rw [hpc] at hd
      exact absurd hd Bool.false_ne_true
    · exact Or.inr ⟨hopen, Or.inl (by rw [hself])⟩
  · rename_i hne
    have hframe : Frame s (s.finish f) f := Frame.outside (hothers _) rfl (by rw [hpc]; rfl)
    refine h.outside (hothers _) rfl (Ends.same h ⟨rfl, rfl, rfl, rfl⟩) hpc setTask_self rfl rfl
      (.aside rfl rfl (h.not_linked hpc rfl)) nofun fun _ hs => ?_
    refine hframe.safe rfl rfl hs (fun hc => ?_) (hframe.served rfl (Nat.le_refl _)
      (fun hd => absurd hd (not_debit setTask_self nofun))
      fun hc => absurd hc (not_credit hpc rfl (Or.inl rfl)))
    rcases hc with hd | ⟨-, hclose | ⟨-, hzero⟩⟩
    · rw [hpc] at hd
      exact absurd hd Bool.false_ne_true
    · rw [hpc] at hclose
      exact absurd hclose (by simp)
    · exact absurd hzero hne

theorem closeRecvSwap (h : s.Inv) (hpc : (s.tasks f).pc = .closeRecv) : (s.closeRecvSwap f).Inv := by
  have hzero : s.receiverCount = 0 := (h.own f).closeRecv hpc
  have hothers : ∀ t, ∀ g, g ≠ f → (s.tasks g).Woken ((s.setTask f t).tasks g) :=
    fun _ _ hne => Or.inl (setTask_of_ne hne)
  unfold Channel.closeRecvSwap
  split
  · rename_i hclosed
    have hframe : Frame s (s.finish f) f := Frame.outside (hothers _) rfl (by rw [hpc]; rfl)
    refine h.outside (hothers _) rfl (Ends.same h ⟨rfl, rfl, rfl, rfl⟩) hpc setTask_self rfl rfl
      (.aside rfl rfl (h.not_linked hpc rfl)) nofun fun _ hs => ?_
    refine hframe.safe rfl rfl hs (fun hc => ?_) (hframe.served rfl (Nat.le_refl _)
      (fun hd => absurd hd (not_debit setTask_self nofun))
      fun hc => absurd hc (not_credit hpc rfl (Or.inl rfl)))
    rcases hc with hd | ⟨hopen, -⟩
    · rw [hpc] at hd
      exact absurd hd Bool.false_ne_true
    · rw [hopen] at hclosed
      exact absurd hclosed (by simp)
  · exact h.outside (hothers _) rfl ⟨fun g _ hg => h.sending g hg, id, id, fun _ => Or.inr hzero⟩
      hpc setTask_self rfl rfl (.aside rfl rfl (h.not_linked hpc rfl)) nofun
      fun _ _ => draining_closing setTask_self rfl

end Inv

end Channel

end Veloq.Sync
