import Veloq.Sync.MutexInvariant
set_option autoImplicit false

/-!
# Sync: no lost wakeup in careful runs of the mutex

Every step keeps the invariant as long as no future joins the list, finds itself popped or
is dropped after it was popped, at a moment when nobody is left to come back to the list.
-/

namespace Veloq.Sync

open Veloq.Foundation

/-- Neither a guard nor the poll or drop of anything. -/
def MutexPc.resting : MutexPc → Bool
  | fresh | pending | gone => true
  | _ => false

/-- A call that rests has no part in the lock. -/
theorem MutexPc.idle_of_resting {pc : MutexPc} (h : pc.resting = true) :
    pc.holds = false ∧ pc.releasing = false := by
  revert h
  cases pc <;> simp [MutexPc.resting, MutexPc.releasing, MutexPc.holds]

namespace Mutex

variable {s s' : Mutex} {f g : Nat} {t : MutexTask} {pc : MutexPc}

/-! ## The moments that need care -/

/-- Apart from task `f`, somebody is going to come back to the list. -/
def Attended (s : Mutex) (f : Nat) : Prop :=
  (∃ g, (s.tasks g).pc.releasing = true) ∨ ∃ g, g ≠ f ∧ s.Awake g

/-- A future joins the list only while the mutex is contended or the list is attended to;
one that was popped finds out or is dropped only if so, or if nobody else is queued. -/
def Careful (s : Mutex) (e : Nat × MutexAction) : Prop :=
  e.2 = .advance →
    match (s.tasks e.1).pc with
    | .push => s.state = .contended ∨ s.Attended e.1
    | .checkLinked => e.1 ∈ s.waiters ∨ s.waiters = [] ∨ s.state = .contended ∨ s.Attended e.1
    | .removing => e.1 ∈ s.waiters ∨ s.waiters = [] ∨ s.state = .contended ∨ s.Attended e.1
    | _ => True

/-- Whoever attends to the list goes on doing so. -/
theorem Attended.covered (h : s.Attended f) (hframe : Frame s s' f)
    (hf : (s.tasks f).pc.releasing = false) : s'.Covered := by
  rcases h with ⟨g, hg⟩ | ⟨g, hne, hg⟩
  · have hne : g ≠ f := by
      rintro rfl
      rw [hf] at hg
      exact absurd hg (by simp)
    exact Or.inr ⟨g, hframe.watches hne (Or.inl hg)⟩
  · exact Or.inr ⟨g, hframe.watches hne (Or.inr hg)⟩

/-! ## Steps that touch only their own task and the state -/

/-- Nobody begins or ceases to hold the mutex, and the state stays as it is. -/
theorem Holding.same (h : s.Inv) (hstate : s'.state = s.state)
    (hholds : (s'.tasks f).pc.holds = (s.tasks f).pc.holds)
    (hacquiring : (s'.tasks f).pc.acquiring = true → (s.tasks f).pc.acquiring = true) :
    Holding s s' f := by
  refine ⟨?_, ?_, ?_, ?_, ?_, ?_, ?_⟩
  · rw [hstate, hholds]
    exact h.holder f
  · rw [hstate]
    exact fun hne _ => hne
  · rw [hholds]
    exact fun ht hf => absurd ht (by simp [hf])
  · rw [hholds]
    exact fun hf ht => absurd ht (by simp [hf])
  · rw [hstate]
    exact fun hne heq => absurd heq hne
  · rw [hstate]
    exact fun hf => h.acquiring f (hacquiring hf)
  · rw [hstate]
    exact fun heq _ => heq

theorem Frame.task (s : Mutex) (f : Nat) (t : MutexTask) (state : LockState) :
    Frame s { s.setTask f t with state := state } f :=
  Frame.own (fun _ hne => setTask_of_ne hne) (fun _ _ => Iff.rfl) fun _ _ => Iff.rfl

theorem own_self {state : LockState} :
    ({ s.setTask f t with state := state } : Mutex).tasks f = t := setTask_self

namespace Inv

/-- The task and the state change. -/
theorem act (h : s.Inv) (state : LockState) (hinside : t.pc.inside = (s.tasks f).pc.inside)
    (hlinked : f ∈ s.waiters → t.queued = true ∧ t.registered = true)
    (hunqueued : t.pc.unqueued = true → t.queued = false) (halarmed : t.Alarmed (f ∈ s.waiters))
    (hholding : Holding s { s.setTask f t with state := state } f)
    (hcovered : s.Covered → Covered { s.setTask f t with state := state }) :
    Inv { s.setTask f t with state := state } := by
  refine h.of_frame (Frame.task s f t state) hholding ?_ h.nodup ?_ ?_ ?_
    fun hne => hcovered (h.covered hne)
  · rw [own_self, hinside]
    exact h.lock f
  · rw [own_self]
    exact hlinked
  · rw [own_self]
    exact hunqueued
  · rw [own_self]
    exact halarmed

/-- The state stays as it is. -/
theorem quiet (h : s.Inv) (hinside : t.pc.inside = (s.tasks f).pc.inside)
    (hholds : t.pc.holds = (s.tasks f).pc.holds)
    (hacquiring : t.pc.acquiring = true → (s.tasks f).pc.acquiring = true)
    (hlinked : f ∈ s.waiters → t.queued = true ∧ t.registered = true)
    (hunqueued : t.pc.unqueued = true → t.queued = false) (halarmed : t.Alarmed (f ∈ s.waiters))
    (hwatches : s.Watches f → (s.setTask f t).Covered) : (s.setTask f t).Inv := by
  refine h.act s.state hinside hlinked hunqueued halarmed ?_ ?_
  · exact Holding.same h rfl (by rw [own_self, hholds]) (by rw [own_self]; exact hacquiring)
  · exact fun hs => (Frame.task s f t s.state).covered hs Or.inl hwatches

/-- Only the program counter of `f` moves. -/
theorem move (h : s.Inv) (hinside : pc.inside = (s.tasks f).pc.inside)
    (hholds : pc.holds = (s.tasks f).pc.holds)
    (hacquiring : pc.acquiring = true → (s.tasks f).pc.acquiring = true)
    (hunqueued : pc.unqueued = true → (s.tasks f).queued = false)
    (halarmed : ({ s.tasks f with pc := pc } : MutexTask).Alarmed (f ∈ s.waiters))
    (hreleasing : (s.tasks f).pc.releasing = true → pc.releasing = true) :
    (s.goto f pc).Inv := by
  refine h.quiet hinside hholds hacquiring (h.linked f) hunqueued halarmed ?_
  refine fun hf => Or.inr ⟨f, ?_⟩
  unfold Watches Awake at hf ⊢
  rw [setTask_self]
  rcases hf with hf | hf
  · exact Or.inl (hreleasing hf)
  · exact Or.inr hf

/-- A task that is not queued is not linked. -/
theorem not_linked (h : s.Inv) (hqueued : (s.tasks f).queued = false) : f ∉ s.waiters := by
  intro hmem
  rw [(h.linked f hmem).1] at hqueued
  exact absurd hqueued (by simp)

/-- A task that is neither queued nor about to pop the list does not watch it. -/
theorem not_watches (hqueued : (s.tasks f).queued = false)
    (hreleasing : (s.tasks f).pc.releasing = false) : ¬ s.Watches f := by
  unfold Watches Awake
  rw [hqueued, hreleasing]
  simp

/-- A task ends that holds nothing. -/
theorem finish (h : s.Inv) (hinside : (s.tasks f).pc.inside = false)
    (hholds : (s.tasks f).pc.holds = false) (hreleasing : (s.tasks f).pc.releasing = false)
    (hqueued : (s.tasks f).queued = false) : (s.finish f).Inv :=
  h.quiet hinside.symm hholds.symm nofun (fun hmem => absurd hmem (h.not_linked hqueued))
    (fun _ => rfl) nofun fun hf => absurd hf (not_watches hqueued hreleasing)

/-- A task that is not queued takes the free mutex. -/
theorem take (h : s.Inv) (hinside : (s.tasks f).pc.inside = false)
    (hreleasing : (s.tasks f).pc.releasing = false) (hqueued : (s.tasks f).queued = false)
    (hstate : s.state = .unlocked) (hpc : t.pc = .guard) (htqueued : t.queued = false) :
    Inv { s.setTask f t with state := .locked } := by
  refine h.act .locked (by rw [hpc, hinside]; rfl)
    (fun hmem => absurd hmem (h.not_linked hqueued)) (fun _ => htqueued) ?_ ?_ ?_
  · intro hwaiting
    rw [hpc] at hwaiting
    exact absurd hwaiting Bool.false_ne_true
  · refine ⟨fun _ => nofun, fun _ _ => nofun, fun _ _ => hstate, ?_, ?_, ?_, ?_⟩
    · rw [own_self, hpc]
      exact fun hf => absurd hf (Ne.symm Bool.false_ne_true)
    · rw [own_self, hpc]
      exact fun _ _ => rfl
    · rw [own_self, hpc]
      exact fun hf => absurd hf Bool.false_ne_true
    · rw [hstate]
      exact nofun
  · refine fun hs => (Frame.task s f t .locked).covered hs ?_
      fun hf => absurd hf (not_watches hqueued hreleasing)
    rw [hstate]
    exact nofun

/-! ## The operations -/

theorem tryLock (h : s.Inv) (hpc : (s.tasks f).pc = .fresh) : (s.tryLock f).Inv := by
  have hqueued := h.unqueued f (by rw [hpc]; rfl)
  unfold Mutex.tryLock
  split
  · rename_i hstate
    exact h.take (t := { s.tasks f with pc := .guard }) (by rw [hpc]; rfl) (by rw [hpc]; rfl)
      hqueued hstate rfl hqueued
  · exact h.finish (by rw [hpc]; rfl) (by rw [hpc]; rfl) (by rw [hpc]; rfl) hqueued

theorem lockFuture (h : s.Inv) (hpc : (s.tasks f).pc = .fresh) : (s.lock f).Inv := by
  have hqueued := h.unqueued f (by rw [hpc]; rfl)
  exact h.quiet (by rw [hpc]; rfl) (by rw [hpc]; rfl) nofun
    (fun hmem => absurd hmem (h.not_linked hqueued)) (fun _ => rfl) (fun _ => nofun)
    fun hf => absurd hf (not_watches hqueued (by rw [hpc]; rfl))

theorem poll (h : s.Inv) (hpc : (s.tasks f).pc = .pending) : (s.poll f).Inv := by
  refine h.quiet (by rw [hpc]; rfl) (by rw [hpc]; rfl) nofun (h.linked f) nofun nofun ?_
  refine fun hf => Or.inr ⟨f, ?_⟩
  unfold Watches Awake at hf ⊢
  rw [hpc] at hf
  rw [setTask_self]
  exact hf

theorem pollLoad (h : s.Inv) (hpc : (s.tasks f).pc = .load) : (s.pollLoad f).Inv := by
  have hspin : ∀ seen, (s.tasks f).queued ≠ true → (s.goto f (.spin mutexSpins seen)).Inv :=
    fun seen hqueued => h.move (by rw [hpc]; rfl) (by rw [hpc]; rfl) nofun
      (fun _ => Bool.eq_false_iff.mpr hqueued) nofun (by rw [hpc]; nofun)
  unfold Mutex.pollLoad
  split
  · exact h.move (by rw [hpc]; rfl) (by rw [hpc]; rfl) nofun nofun nofun (by rw [hpc]; nofun)
  · split
    · exact h.move (by rw [hpc]; rfl) (by rw [hpc]; rfl) nofun nofun nofun (by rw [hpc]; nofun)
    · exact hspin _ ‹_›
  · split
    · exact h.move (by rw [hpc]; rfl) (by rw [hpc]; rfl) nofun nofun nofun (by rw [hpc]; nofun)
    · exact hspin _ ‹_›

theorem pollExchange (h : s.Inv) (hpc : (s.tasks f).pc = .exchange) : (s.pollExchange f).Inv := by
  unfold Mutex.pollExchange
  split
  · rename_i hstate
    split
    · refine h.act (t := { s.tasks f with pc := .acquired }) .contended (by rw [hpc]; rfl)
        (h.linked f) nofun nofun ?_ fun _ => Or.inl rfl
      refine ⟨fun _ => nofun, fun _ _ => nofun, fun _ _ => hstate, ?_, ?_, fun _ => rfl,
        fun _ _ => rfl⟩
      · rw [own_self]
        exact nofun
      · rw [own_self]
        exact fun _ _ => rfl
    · rename_i hqueued
      exact h.take (t := { s.tasks f with queued := false, notified := false, pc := .guard })
        (by rw [hpc]; rfl) (by rw [hpc]; rfl) (Bool.eq_false_iff.mpr hqueued) hstate rfl rfl
  · exact h.move (by rw [hpc]; rfl) (by rw [hpc]; rfl) nofun nofun nofun (by rw [hpc]; nofun)

theorem pollSpin (h : s.Inv) {left : Nat} {seen : LockState}
    (hpc : (s.tasks f).pc = .spin left seen) : (s.pollSpin f left seen).Inv := by
  have hqueued := h.unqueued f (by rw [hpc]; rfl)
  unfold Mutex.pollSpin
  split <;> exact h.move (by rw [hpc]; rfl) (by rw [hpc]; rfl) nofun (fun _ => hqueued) nofun
    (by rw [hpc]; nofun)

theorem pollAfterSpin (h : s.Inv) {seen : LockState} (hpc : (s.tasks f).pc = .afterSpin seen) :
    (s.pollAfterSpin f seen).Inv := by
  have hqueued := h.unqueued f (by rw [hpc]; rfl)
  unfold Mutex.pollAfterSpin
  split
  · exact h.move (by rw [hpc]; rfl) (by rw [hpc]; rfl) nofun nofun nofun (by rw [hpc]; nofun)
  · split <;> exact h.move (by rw [hpc]; rfl) (by rw [hpc]; rfl) nofun (fun _ => hqueued) nofun
      (by rw [hpc]; nofun)

/-- The held mutex is marked as contended. -/
theorem promoted (h : s.Inv) (hstate : s.state = .locked)
    (hinside : pc.inside = (s.tasks f).pc.inside) (hfree : (s.tasks f).pc.holds = false)
    (hholds : pc.holds = false) (hunqueued : pc.unqueued = true → (s.tasks f).queued = false)
    (hwaiting : pc.waiting = false) : Inv { s.goto f pc with state := .contended } := by
  refine h.act (t := { s.tasks f with pc := pc }) .contended hinside (h.linked f) hunqueued ?_ ?_
    fun _ => Or.inl rfl
  · intro hw
    exact absurd hw (by simp [hwaiting])
  · refine ⟨fun _ => nofun, fun _ _ => nofun, ?_, ?_, ?_, fun _ => rfl, fun _ _ => rfl⟩
    · rw [own_self]
      exact fun ht => absurd ht (by simp [hholds])
    · rw [hfree]
      exact fun _ => nofun
    · rw [hstate]
      exact fun _ => nofun

theorem pollPromote (h : s.Inv) (hpc : (s.tasks f).pc = .promote) : (s.pollPromote f).Inv := by
  unfold Mutex.pollPromote
  simp only
  split
  · rename_i hstate
    split
    · exact h.promoted hstate (by rw [hpc]; rfl) (by rw [hpc]; rfl) rfl nofun rfl
    · rename_i hqueued
      exact h.promoted hstate (by rw [hpc]; rfl) (by rw [hpc]; rfl) rfl
        (fun _ => Bool.eq_false_iff.mpr hqueued) rfl
  · exact h.move (by rw [hpc]; rfl) (by rw [hpc]; rfl) nofun nofun nofun (by rw [hpc]; nofun)

theorem pollCheckLinked (h : s.Inv) (hpc : (s.tasks f).pc = .checkLinked)
    (hcare : f ∈ s.waiters ∨ s.waiters = [] ∨ s.state = .contended ∨ s.Attended f) :
    (s.pollCheckLinked f).Inv := by
  unfold Mutex.pollCheckLinked
  split
  · rename_i hmem
    exact h.move (by rw [hpc]; rfl) (by rw [hpc]; rfl) nofun nofun (fun _ _ => Or.inr hmem)
      (by rw [hpc]; nofun)
  · rename_i hnot
    have hframe := Frame.task s f { s.tasks f with queued := false, pc := .rearm false } s.state
    by_cases hnil : s.waiters = []
    · refine h.of_frame hframe (Holding.same h rfl ?_ ?_) ?_ h.nodup
        (fun hmem => absurd hmem hnot) ?_ ?_ fun hne => absurd hnil hne
      · rw [own_self, hpc]
        rfl
      · rw [own_self]
        exact nofun
      · rw [own_self]
        have hlock := h.lock f
        rw [hpc] at hlock
        exact hlock
      · rw [own_self]
        exact fun _ => rfl
      · rw [own_self]
        exact nofun
    · refine h.quiet (by rw [hpc]; rfl) (by rw [hpc]; rfl) nofun (fun hmem => absurd hmem hnot)
        (fun _ => rfl) nofun fun _ => ?_
      rcases hcare with hmem | hnil' | hstate | hattended
      · exact absurd hmem hnot
      · exact absurd hnil' hnil
      · exact Or.inl hstate
      · exact hattended.covered hframe (by rw [hpc]; rfl)

theorem pollRearm (h : s.Inv) {linked : Bool} (hpc : (s.tasks f).pc = .rearm linked) :
    (s.pollRearm f linked).Inv := by
  have halarmed := h.alarmed f
  rw [MutexTask.Alarmed, hpc] at halarmed
  have hwatch : ∀ pc', s.Watches f →
      (s.setTask f { s.tasks f with registered := true, pc := pc' }).Covered := by
    refine fun pc' hf => Or.inr ⟨f, Or.inr ?_⟩
    unfold Watches at hf
    rw [hpc] at hf
    unfold Awake at hf ⊢
    rw [setTask_self]
    exact hf.resolve_left nofun
  unfold Mutex.pollRearm
  cases linked with
  | false =>
    exact h.quiet (by rw [hpc]; rfl) (by rw [hpc]; rfl) nofun
      (fun hmem => ⟨(h.linked f hmem).1, rfl⟩) nofun nofun (hwatch _)
  | true =>
    exact h.quiet (by rw [hpc]; rfl) (by rw [hpc]; rfl) nofun
      (fun hmem => ⟨(h.linked f hmem).1, rfl⟩) nofun (fun _ => halarmed rfl) (hwatch _)

theorem dropFuture (h : s.Inv) (hpc : (s.tasks f).pc = .pending) : (s.dropFuture f).Inv := by
  unfold Mutex.dropFuture
  split
  · exact h.move (by rw [hpc]; rfl) (by rw [hpc]; rfl) nofun nofun nofun (by rw [hpc]; nofun)
  · rename_i hqueued
    exact h.finish (by rw [hpc]; rfl) (by rw [hpc]; rfl) (by rw [hpc]; rfl)
      (Bool.eq_false_iff.mpr hqueued)

/-! ## The list lock -/

/-- `f` enters the list lock. -/
theorem lockList (h : s.Inv) (hs : s.lockList f pc = some s') (hinside : pc.inside = true)
    (hholds : pc.holds = (s.tasks f).pc.holds)
    (hacquiring : pc.acquiring = true → (s.tasks f).pc.acquiring = true)
    (hreleasing : (s.tasks f).pc.releasing = false)
    (hunqueued : pc.unqueued = true → (s.tasks f).queued = false) (hwaiting : pc.waiting = false) :
    s'.Inv := by
  unfold Mutex.lockList at hs
  split at hs
  · rename_i hfree
    cases hs
    have hself : ({ s.goto f pc with listLock := some f } : Mutex).tasks f =
        { s.tasks f with pc := pc } := setTask_self
    have hframe : Frame s { s.goto f pc with listLock := some f } f := by
      refine Frame.own (fun _ hne => setTask_of_ne hne) (fun g hne => ?_) fun _ _ => Iff.rfl
      rw [hfree]
      exact ⟨fun heq => absurd (Option.some.inj heq).symm hne, nofun⟩
    refine h.of_frame hframe (Holding.same h rfl ?_ ?_) ?_ h.nodup ?_ ?_ ?_ ?_
    · rw [hself, hholds]
    · rw [hself]
      exact hacquiring
    · rw [hself]
      exact ⟨fun _ => rfl, fun _ => hinside⟩
    · rw [hself]
      exact h.linked f
    · rw [hself]
      exact hunqueued
    · rw [hself]
      exact fun hw => absurd hw (by simp [hwaiting])
    · refine fun hne => hframe.covered (h.covered hne) Or.inl fun hf => Or.inr ⟨f, Or.inr ?_⟩
      unfold Watches at hf
      rw [hreleasing] at hf
      unfold Awake at hf ⊢
      rw [hself]
      exact hf.resolve_left nofun
  · exact absurd hs (by simp)

/-- A step of the task inside the list lock that leaves it. -/
theorem leave (h : s.Inv) (hlock : s.listLock = some f)
    (hothers : ∀ g, g ≠ f → s'.tasks g = s.tasks g) (hleaves : s'.listLock = none)
    (hinside : (s'.tasks f).pc.inside = false)
    (hwaiters : ∀ g, g ≠ f → (g ∈ s'.waiters ↔ g ∈ s.waiters)) (hnodup : s'.waiters.Nodup)
    (hlinked : f ∈ s'.waiters → (s'.tasks f).queued = true ∧ (s'.tasks f).registered = true)
    (hunqueued : (s'.tasks f).pc.unqueued = true → (s'.tasks f).queued = false)
    (halarmed : (s'.tasks f).Alarmed (f ∈ s'.waiters)) (hholding : Holding s s' f)
    (hcovered : Frame s s' f → s'.waiters ≠ [] → s'.Covered) : s'.Inv := by
  have hframe : Frame s s' f := by
    refine Frame.own hothers (fun g hne => ?_) hwaiters
    rw [hleaves, hlock]
    exact ⟨nofun, fun heq => absurd (Option.some.inj heq).symm hne⟩
  refine h.of_frame hframe hholding ?_ hnodup hlinked hunqueued halarmed (hcovered hframe)
  rw [hinside, hleaves]
  exact ⟨nofun, nofun⟩

theorem pollDemote (h : s.Inv) (hpc : (s.tasks f).pc = .demote) : (s.pollDemote f).Inv := by
  have hlock : s.listLock = some f := (h.lock f).mp (by rw [hpc]; rfl)
  have hstate : s.state = .contended := h.acquiring f (by rw [hpc]; rfl)
  have hself : (s.pollDemote f).tasks f =
      { s.tasks f with queued := false, notified := false, pc := .guard } := setTask_self
  have hstate' : (s.pollDemote f).state =
      if (s.waiters.erase f).isEmpty then .locked else s.state := rfl
  have hgone : f ∉ (s.pollDemote f).waiters := fun hmem => (h.nodup.mem_erase_iff.mp hmem).1 rfl
  have hheld : (s.pollDemote f).state ≠ .unlocked := by
    rw [hstate', hstate]
    split <;> nofun
  refine h.leave hlock (fun _ hne => setTask_of_ne hne) rfl ?_ (fun g hne => List.mem_erase_of_ne hne)
    (h.nodup.erase f) (fun hmem => absurd hmem hgone) ?_ ?_ ⟨fun _ => hheld, fun _ _ => hheld, ?_, ?_, ?_, ?_, ?_⟩ ?_
  · rw [hself]
    rfl
  · rw [hself]
    exact fun _ => rfl
  · rw [hself]
    exact nofun
  · rw [hpc]
    exact fun _ => nofun
  · rw [hself]
    exact nofun
  · rw [hstate]
    exact fun _ => nofun
  · rw [hself]
    exact nofun
  · rw [hpc]
    exact fun _ => nofun
  · intro _ hne
    have hne' : s.waiters.erase f ≠ [] := hne
    left
    rw [hstate', if_neg (by simpa using hne')]
    exact hstate

theorem pollRecheck (h : s.Inv) (hpc : (s.tasks f).pc = .recheck) : (s.pollRecheck f).Inv := by
  have hlock : s.listLock = some f := (h.lock f).mp (by rw [hpc]; rfl)
  have hqueued := h.unqueued f (by rw [hpc]; rfl)
  unfold Mutex.pollRecheck
  split
  · have hself : ({ s.goto f .load with listLock := none } : Mutex).tasks f =
        { s.tasks f with pc := .load } := setTask_self
    refine h.leave hlock (fun _ hne => setTask_of_ne hne) rfl ?_ (fun _ _ => Iff.rfl) h.nodup
      (fun hmem => absurd hmem (h.not_linked hqueued)) ?_ ?_ (Holding.same h rfl ?_ ?_) ?_
    · rw [hself]
      rfl
    · rw [hself]
      exact nofun
    · rw [hself]
      exact nofun
    · rw [hself, hpc]
      rfl
    · rw [hself]
      exact nofun
    · exact fun hframe hne => hframe.covered (h.covered hne) Or.inl
        fun hf => absurd hf (not_watches hqueued (by rw [hpc]; rfl))
  · exact h.move (by rw [hpc]; rfl) (by rw [hpc]; rfl) nofun (fun _ => hqueued) nofun
      (by rw [hpc]; nofun)

theorem pollPush (h : s.Inv) (hpc : (s.tasks f).pc = .push)
    (hcare : s.state = .contended ∨ s.Attended f) : (s.pollPush f).Inv := by
  have hlock : s.listLock = some f := (h.lock f).mp (by rw [hpc]; rfl)
  have hnot := h.not_linked (h.unqueued f (by rw [hpc]; rfl))
  have hself : (s.pollPush f).tasks f =
      { s.tasks f with queued := true, registered := true, pc := .pending } := setTask_self
  refine h.leave hlock (fun _ hne => setTask_of_ne hne) rfl ?_ (fun g hne => ?_) ?_ ?_ ?_ ?_
    (Holding.same h rfl ?_ ?_) ?_
  · rw [hself]
    rfl
  · show g ∈ s.waiters ++ [f] ↔ _
    simp [hne]
  · show (s.waiters ++ [f]).Nodup
    rw [List.nodup_append]
    refine ⟨h.nodup, by simp, ?_⟩
    rintro a ha b hb rfl
    rw [List.mem_singleton] at hb
    exact hnot (hb ▸ ha)
  · rw [hself]
    exact fun _ => ⟨rfl, rfl⟩
  · rw [hself]
    exact nofun
  · rw [hself]
    exact fun _ _ => Or.inr (List.mem_append_right _ (List.mem_singleton_self f))
  · rw [hself, hpc]
    rfl
  · rw [hself]
    exact nofun
  · intro hframe _
    rcases hcare with hstate | hattended
    · exact Or.inl hstate
    · exact hattended.covered hframe (by rw [hpc]; rfl)

/-! ## The drops -/

theorem dropRemove (h : s.Inv) (hpc : (s.tasks f).pc = .removing) (hfree : s.listLock = none)
    (hcare : f ∈ s.waiters ∨ s.waiters = [] ∨ s.state = .contended ∨ s.Attended f) :
    (s.dropRemove f).Inv := by
  have hself : (s.dropRemove f).tasks f = { MutexTask.fresh with pc := .gone } := setTask_self
  have hframe : Frame s (s.dropRemove f) f :=
    Frame.own (fun _ hne => setTask_of_ne hne) (fun _ _ => Iff.rfl)
      fun g hne => List.mem_erase_of_ne hne
  refine h.of_frame hframe (Holding.same h rfl ?_ ?_) ?_ (h.nodup.erase f) ?_ ?_ ?_ ?_
  · rw [hself, hpc]
    rfl
  · rw [hself]
    exact nofun
  · rw [hself]
    show _ ↔ s.listLock = some f
    rw [hfree]
    exact ⟨nofun, nofun⟩
  · exact fun hmem => absurd rfl (h.nodup.mem_erase_iff.mp hmem).1
  · rw [hself]
    exact fun _ => rfl
  · rw [hself]
    exact nofun
  · intro hne
    have hne' : s.waiters.erase f ≠ [] := hne
    rcases hcare with hmem | hnil | hstate | hattended
    · refine hframe.covered (h.covered (List.ne_nil_of_mem hmem)) Or.inl fun hf => ?_
      unfold Watches Awake at hf
      rw [hpc] at hf
      exact absurd hmem (hf.resolve_left nofun).2
    · rw [hnil] at hne'
      exact absurd rfl hne'
    · exact Or.inl hstate
    · exact hattended.covered hframe (by rw [hpc]; rfl)

theorem dropGuard (h : s.Inv) (hpc : (s.tasks f).pc = .guard) : (s.dropGuard f).Inv := by
  have hqueued := h.unqueued f (by rw [hpc]; rfl)
  unfold Mutex.dropGuard
  split
  · rename_i hstate
    refine h.act (t := { MutexTask.fresh with pc := .gone }) .unlocked (by rw [hpc]; rfl)
      (fun hmem => absurd hmem (h.not_linked hqueued)) (fun _ => rfl) nofun ?_ ?_
    · refine ⟨?_, ?_, ?_, fun _ _ => rfl, fun hne => absurd rfl hne, ?_, ?_⟩
      · rw [own_self]
        exact nofun
      · rw [hpc]
        exact fun _ => nofun
      · rw [own_self]
        exact nofun
      · rw [own_self]
        exact nofun
      · rw [hstate]
        exact nofun
    · refine fun hs => (Frame.task s f _ .unlocked).covered hs ?_
        fun hf => absurd hf (not_watches hqueued (by rw [hpc]; rfl))
      rw [hstate]
      exact nofun
  · exact h.move (by rw [hpc]; rfl) (by rw [hpc]; rfl) nofun (fun _ => hqueued) nofun
      (by rw [hpc]; nofun)

theorem dropStore (h : s.Inv) (hpc : (s.tasks f).pc = .storing) : (s.dropStore f).Inv := by
  have hqueued := h.unqueued f (by rw [hpc]; rfl)
  refine h.act (t := { s.tasks f with pc := .popping }) .unlocked (by rw [hpc]; rfl) (h.linked f)
    (fun _ => hqueued) nofun ?_ fun _ => Or.inr ⟨f, Or.inl ?_⟩
  · refine ⟨?_, ?_, ?_, fun _ _ => rfl, fun hne => absurd rfl hne, ?_, ?_⟩
    · rw [own_self]
      exact nofun
    · rw [hpc]
      exact fun _ => nofun
    · rw [own_self]
      exact nofun
    · rw [own_self]
      exact nofun
    · rw [hpc]
      exact fun _ => nofun
  · rw [own_self]
    rfl

/-- The drop of a guard ends, having popped the list. -/
theorem popped (h : s.Inv) (hpc : (s.tasks f).pc = .popping) (hfree : s.listLock = none)
    (hframe : Frame s s' f) (hself : s'.tasks f = { MutexTask.fresh with pc := .gone })
    (hstate : s'.state = s.state) (hlock : s'.listLock = s.listLock)
    (hnodup : s'.waiters.Nodup) (hnot : f ∉ s'.waiters)
    (hcovered : s'.waiters ≠ [] → s'.Covered) : s'.Inv := by
  refine h.of_frame hframe (Holding.same h hstate ?_ ?_) ?_ hnodup (fun hmem => absurd hmem hnot)
    ?_ ?_ hcovered
  · rw [hself, hpc]
    rfl
  · rw [hself]
    exact nofun
  · rw [hself, hlock, hfree]
    exact ⟨nofun, nofun⟩
  · rw [hself]
    exact fun _ => rfl
  · rw [hself]
    exact nofun

theorem dropPop (h : s.Inv) (hpc : (s.tasks f).pc = .popping) (hfree : s.listLock = none) :
    (s.dropPop f).Inv := by
  have hnot : f ∉ s.waiters := h.not_linked (h.unqueued f (by rw [hpc]; rfl))
  unfold Mutex.dropPop
  split
  · rename_i hnil
    exact h.popped hpc hfree (Frame.task s f _ s.state) setTask_self rfl rfl h.nodup hnot
      fun hne => absurd hnil hne
  · rename_i g rest hwaiters
    obtain ⟨hqueued, hregistered⟩ := h.linked g (by rw [hwaiters]; exact List.mem_cons_self ..)
    have hnodup := h.nodup
    rw [hwaiters, List.nodup_cons] at hnodup
    rw [hwaiters, List.mem_cons, not_or] at hnot
    have hne : g ≠ f := Ne.symm hnot.1
    -- the waker of a linked node is registered, so the wake is not lost
    have hwake : { s with waiters := rest }.wake g = { s.setTask g { s.tasks g with
        registered := false
        notified := true } with waiters := rest } := if_pos hregistered
    rw [hwake]
    have hother : ∀ i, i ≠ f → ((Mutex.finish { s.setTask g { s.tasks g with
        registered := false
        notified := true } with waiters := rest } f).tasks i) = (s.setTask g { s.tasks g with
          registered := false
          notified := true }).tasks i := fun i hi => setTask_of_ne hi
    refine h.popped hpc hfree ⟨fun i hi => ?_, fun _ _ => Iff.rfl, fun i hi hmem => ?_,
      fun i hi hmem hgone => ?_⟩ setTask_self rfl rfl hnodup.2 hnot.2 fun _ => ?_
    · rw [hother i hi]
      by_cases heq : i = g
      · subst heq
        rw [setTask_self]
        exact Or.inr ⟨hregistered, rfl⟩
      · rw [setTask_of_ne heq]
        exact Or.inl rfl
    · have hmem' : i ∈ rest := hmem
      rw [hother i hi, hwaiters]
      refine ⟨List.mem_cons_of_mem g hmem', setTask_of_ne ?_⟩
      rintro rfl
      exact hnodup.1 hmem'
    · have hgone' : i ∉ rest := hgone
      rw [hwaiters, List.mem_cons] at hmem
      obtain rfl : i = g := hmem.resolve_right hgone'
      rw [hother i hi, setTask_self]
    · refine Or.inr ⟨g, Or.inr ⟨?_, hnodup.1⟩⟩
      rw [hother g hne, setTask_self]
      exact hqueued

/-! ## Steps and runs -/

theorem critical {next : Mutex} (hs : s.critical next = some s')
    (hnext : s.listLock = none → next.Inv) : s'.Inv := by
  unfold Mutex.critical at hs
  split at hs
  · rename_i hfree
    cases hs
    exact hnext hfree
  · exact absurd hs (by simp)

theorem advance (h : s.Inv) (hcare : Careful s (f, .advance)) (hs : s.advance f = some s') :
    s'.Inv := by
  have hcare := hcare rfl
  unfold Mutex.advance at hs
  cases hpc : (s.tasks f).pc <;> simp only [hpc] at hs hcare
  case load => cases hs; exact h.pollLoad hpc
  case exchange => cases hs; exact h.pollExchange hpc
  case acquired =>
    exact h.lockList hs rfl (by rw [hpc]; rfl) (fun _ => by rw [hpc]; rfl) (by rw [hpc]; rfl) nofun rfl
  case demote => cases hs; exact h.pollDemote hpc
  case spin left seen => cases hs; exact h.pollSpin hpc
  case afterSpin seen => cases hs; exact h.pollAfterSpin hpc
  case promote => cases hs; exact h.pollPromote hpc
  case enter =>
    exact h.lockList hs rfl (by rw [hpc]; rfl) nofun (by rw [hpc]; rfl)
      (fun _ => h.unqueued f (by rw [hpc]; rfl)) rfl
  case recheck => cases hs; exact h.pollRecheck hpc
  case push => cases hs; exact h.pollPush hpc hcare
  case checkLinked => exact critical hs fun _ => h.pollCheckLinked hpc hcare
  case rearm linked => cases hs; exact h.pollRearm hpc
  case removing => exact critical hs fun hfree => h.dropRemove hpc hfree hcare
  case storing => cases hs; exact h.dropStore hpc
  case popping => exact critical hs (h.dropPop hpc)
  all_goals exact absurd hs (by simp)

/-- Every careful step keeps the invariant. -/
theorem step (h : s.Inv) {e : Nat × MutexAction} (hcare : Careful s e) (hs : MutexStep s e s') :
    s'.Inv := by
  obtain ⟨f, a⟩ := e
  unfold MutexStep Mutex.step at hs
  split at hs
  case h_1 hpc _ => cases hs; exact h.tryLock hpc
  case h_2 hpc _ => cases hs; exact h.lockFuture hpc
  case h_3 hpc _ => cases hs; exact h.poll hpc
  case h_4 hpc _ => cases hs; exact h.dropFuture hpc
  case h_5 hpc _ => cases hs; exact h.dropGuard hpc
  case h_6 ha => exact h.advance (ha ▸ hcare) hs
  case h_7 => exact absurd hs (by simp)

theorem initial : Inv Mutex.new :=
  ⟨fun _ => ⟨nofun, nofun⟩, List.nodup_nil, nofun, fun _ _ => rfl, fun _ => nofun, fun _ => nofun,
    fun hne => absurd rfl hne, fun _ _ => nofun, fun _ => nofun, fun hne => absurd rfl hne⟩

end Inv

/-- No guard is held, no poll or drop is in progress, and every future that was woken has
been polled or dropped since. -/
def Quiescent (s : Mutex) : Prop :=
  ∀ g, (s.tasks g).pc.resting = true ∧ (s.tasks g).notified = false

/-- In a quiescent state nobody is left to come back to the list. -/
theorem Inv.not_covered (h : s.Inv) (hquiet : s.Quiescent) : ¬ s.Covered := by
  have hfree := fun g => MutexPc.idle_of_resting (hquiet g).1
  rintro (hstate | ⟨g, hg | ⟨hqueued, hnot⟩⟩)
  · obtain ⟨g, hg⟩ := h.held (by rw [hstate]; nofun)
    rw [(hfree g).1] at hg
    exact absurd hg (by simp)
  · rw [(hfree g).2] at hg
    exact absurd hg (by simp)
  · obtain ⟨hrest, hnotified⟩ := hquiet g
    have hunqueued := h.unqueued g
    have halarmed := h.alarmed g
    unfold MutexTask.Alarmed at halarmed
    rw [hqueued] at hunqueued halarmed
    -- the future that was popped is pending, hence notified
    cases hpc : (s.tasks g).pc <;> rw [hpc] at hrest hunqueued halarmed
    case pending =>
      rcases halarmed rfl rfl with hn | hmem
      · rw [hnotified] at hn
        exact absurd hn (by simp)
      · exact hnot hmem
    all_goals first | exact absurd (hunqueued rfl) (by simp) | exact absurd hrest (by simp [MutexPc.resting])

end Mutex

/-- In careful runs of the mutex no future is left in the list once everything has come
to rest. -/
theorem mutex_no_lost_wakeup {s : Mutex} (h : Run MutexStep Mutex.Careful (fun s => s = .new) s)
    (hquiet : s.Quiescent) : s.waiters = [] := by
  have hinv : s.Inv := by
    refine h.invariant ?_ fun _ _ _ hinv hcare hs => hinv.step hcare hs
    rintro _ rfl
    exact Mutex.Inv.initial
  by_contra hne
  exact hinv.not_covered hquiet (hinv.covered hne)

/-! ## Two runs -/

namespace Mutex

variable {s s' : Mutex} {f g : Nat}

theorem wake_woken (s : Mutex) (g i : Nat) : (s.tasks i).Woken ((s.wake g).tasks i) := by
  unfold wake
  split
  · rename_i hregistered
    by_cases heq : i = g
    · subst heq
      rw [setTask_self]
      exact Or.inr ⟨hregistered, rfl⟩
    · rw [setTask_of_ne heq]
      exact Or.inl rfl
  · exact Or.inl rfl

/-- A step changes another task only by waking it. -/
theorem advance_others (hs : s.advance f = some s') (hne : g ≠ f) :
    (s.tasks g).Woken (s'.tasks g) := by
  have hset : ∀ (c : Mutex) (t : MutexTask), (c.setTask f t).tasks g = c.tasks g :=
    fun _ _ => setTask_of_ne hne
  unfold advance at hs
  cases hpc : (s.tasks f).pc <;> simp only [hpc, lockList, critical] at hs
  case popping =>
    split at hs
    · cases hs
      unfold dropPop finish
      split
      · exact Or.inl (hset ..)
      · rw [hset]
        exact wake_woken { s with waiters := _ } _ g
    · exact absurd hs (by simp)
  case fresh | pending | guard | gone => exact absurd hs (by simp)
  all_goals
    simp only [pollLoad, pollExchange, pollDemote, pollSpin, pollAfterSpin, pollPromote, pollRecheck,
      pollPush, pollCheckLinked, pollRearm, dropRemove, dropStore, ready, goto, finish] at hs
    repeat' split at hs
  all_goals cases hs <;> exact Or.inl (hset ..)

theorem step_others {a : MutexAction} (hs : s.step (f, a) = some s') (hne : g ≠ f) :
    (s.tasks g).Woken (s'.tasks g) := by
  have hset : ∀ (c : Mutex) (t : MutexTask), (c.setTask f t).tasks g = c.tasks g :=
    fun _ _ => setTask_of_ne hne
  unfold step at hs
  split at hs
  case h_6 => exact advance_others hs hne
  case h_7 => exact absurd hs (by simp)
  all_goals
    cases hs
    simp only [tryLock, lock, poll, dropFuture, dropGuard, goto, finish]
    repeat' split
  all_goals exact Or.inl (hset ..)

/-- After a run of the first `n` tasks it is enough to look at these. -/
theorem quiescent_of_replay {test : Mutex → Nat × MutexAction → Bool}
    {es : List (Nat × MutexAction)} {n : Nat} (h : replay step test Mutex.new es = some s)
    (hes : ∀ e ∈ es, e.1 < n)
    (hfirst : ∀ g < n, (s.tasks g).pc.resting = true ∧ (s.tasks g).notified = false) :
    s.Quiescent := by
  intro g
  by_cases hg : g < n
  · exact hfirst g hg
  · have hfresh : s.tasks g = .fresh := by
      refine replay_invariant (p := fun s => s.tasks g = .fresh) (fun e he s s' hinv hs => ?_) rfl h
      have hne : g ≠ e.1 := fun heq => hg (heq ▸ hes e he)
      rcases step_others hs hne with heq | ⟨hregistered, -⟩
      · exact heq.trans hinv
      · rw [hinv] at hregistered
        exact absurd hregistered (by simp [MutexTask.fresh])
    rw [hfresh]
    exact ⟨rfl, rfl⟩

/-- A test for careful steps. -/
def carefulTest (s : Mutex) (e : Nat × MutexAction) : Bool :=
  match (s.tasks e.1).pc with
  | .push => decide (s.state = .contended)
  | .checkLinked | .removing => decide (e.1 ∈ s.waiters)
  | _ => true

theorem careful_of_test (s : Mutex) (e : Nat × MutexAction) (h : carefulTest s e = true) :
    Careful s e := by
  intro _
  unfold carefulTest at h
  cases hpc : (s.tasks e.1).pc <;> simp only [hpc] at h ⊢
  case push => exact Or.inl (of_decide_eq_true h)
  case checkLinked => exact Or.inl (of_decide_eq_true h)
  case removing => exact Or.inl (of_decide_eq_true h)

end Mutex

/-- A future queues up behind a guard, is woken by its drop, gets the mutex and releases
it. -/
def passedOn : List (Nat × MutexAction) :=
  ([(0, .tryLock), (1, .lock), (1, .poll)] : List (Nat × MutexAction)) ++
    List.replicate 106 (1, .advance) ++
    ([(0, .dropGuard), (0, .advance), (0, .advance), (1, .poll)] : List (Nat × MutexAction)) ++
    List.replicate 4 (1, .advance) ++ ([(1, .dropGuard)] : List (Nat × MutexAction))

def passedOnMutex : Mutex :=
  (replay Mutex.step Mutex.carefulTest Mutex.new passedOn).get (by decide +kernel)

theorem mutex_passed_on :
    Run MutexStep Mutex.Careful (fun s => s = .new) passedOnMutex ∧ passedOnMutex.Quiescent ∧
      passedOnMutex.waiters = [] := by
  have hreplay : replay Mutex.step Mutex.carefulTest Mutex.new passedOn = some passedOnMutex :=
    (Option.some_get _).symm
  have hstart : Run MutexStep Mutex.Careful (fun s => s = .new) Mutex.new := Run.start rfl
  have hrun := hstart.replay (fun _ _ _ h => h) Mutex.careful_of_test hreplay
  have hquiet := Mutex.quiescent_of_replay (n := 2) hreplay (by decide +kernel) (by decide +kernel)
  exact ⟨hrun, hquiet, mutex_no_lost_wakeup hrun hquiet⟩

/-- A third task sees the mutex contended and is about to queue up when the second one,
which was woken, finds the list empty and demotes the state. -/
def demoted : List (Nat × MutexAction) :=
  ([(0, .tryLock), (1, .lock), (1, .poll)] : List (Nat × MutexAction)) ++
    List.replicate 106 (1, .advance) ++
    ([(0, .dropGuard), (0, .advance), (0, .advance), (1, .poll), (1, .advance), (1, .advance),
      (2, .lock), (2, .poll)] : List (Nat × MutexAction)) ++ List.replicate 102 (2, .advance) ++
    ([(1, .advance), (1, .advance), (2, .advance), (2, .advance), (2, .advance),
      (1, .dropGuard)] : List (Nat × MutexAction))

def demotedMutex : Mutex :=
  (replay Mutex.step (fun _ _ => true) Mutex.new demoted).get (by decide +kernel)

theorem mutex_loses_wakeup :
    Run MutexStep Always (fun s => s = .new) demotedMutex ∧ demotedMutex.Quiescent ∧
      demotedMutex.waiters = [2] := by
  have hreplay : replay Mutex.step (fun _ _ => true) Mutex.new demoted = some demotedMutex :=
    (Option.some_get _).symm
  have hstart : Run MutexStep Always (fun s => s = .new) Mutex.new := Run.start rfl
  exact ⟨hstart.replay (fun _ _ _ h => h) (fun _ _ _ => trivial) hreplay,
    Mutex.quiescent_of_replay (n := 3) hreplay (by decide +kernel) (by decide +kernel),
    by decide +kernel⟩

end Veloq.Sync
