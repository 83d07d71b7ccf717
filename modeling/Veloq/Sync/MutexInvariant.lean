import Veloq.Sync.Mutex
set_option autoImplicit false

/-!
# Sync: who looks after the waiter list of the mutex

While a future is queued, the mutex is contended, or a guard drop has yet to pop the
list, or a future that was popped has yet to find out.  The invariant is kept by every
step that leaves somebody to come back to the list.
-/

namespace Veloq.Sync

namespace MutexPc

/-- Inside the list lock. -/
def inside : MutexPc → Bool
  | demote | recheck | push => true
  | _ => false

/-- The mutex is held. -/
def holds : MutexPc → Bool
  | acquired | demote | guard | storing => true
  | _ => false

/-- A guard drop that is going to pop the list. -/
def releasing : MutexPc → Bool
  | storing | popping => true
  | _ => false

/-- Not queued. -/
def unqueued : MutexPc → Bool
  | fresh | spin _ _ | afterSpin _ | enter | recheck | push | rearm false | guard | storing
  | popping | gone => true
  | _ => false

/-- Queued, and the mutex acquired. -/
def acquiring : MutexPc → Bool
  | acquired | demote => true
  | _ => false

/-- The poll is over, or over once the waker is registered. -/
def waiting : MutexPc → Bool
  | pending | rearm true => true
  | _ => false

end MutexPc

namespace MutexTask

/-- The task is as it was, or was woken. -/
def Woken (t t' : MutexTask) : Prop :=
  t' = t ∨ t.registered = true ∧ t' = { t with registered := false, notified := true }

/-- A future that waits has been notified, or is in the list. -/
def Alarmed (t : MutexTask) (linked : Prop) : Prop :=
  t.pc.waiting = true → t.queued = true → t.notified = true ∨ linked

theorem Woken.pc {t t' : MutexTask} (h : t.Woken t') : t'.pc = t.pc := by
  rcases h with rfl | ⟨-, rfl⟩ <;> rfl

theorem Woken.queued {t t' : MutexTask} (h : t.Woken t') : t'.queued = t.queued := by
  rcases h with rfl | ⟨-, rfl⟩ <;> rfl

theorem Woken.notified {t t' : MutexTask} (h : t.Woken t') (hn : t.notified = true) :
    t'.notified = true := by
  rcases h with rfl | ⟨-, rfl⟩
  · exact hn
  · rfl

end MutexTask

namespace Mutex

/-- A guard drop has popped the future, which has yet to find out. -/
def Awake (s : Mutex) (g : Nat) : Prop := (s.tasks g).queued = true ∧ g ∉ s.waiters

/-- Task `g` is going to come back to the list. -/
def Watches (s : Mutex) (g : Nat) : Prop := (s.tasks g).pc.releasing = true ∨ s.Awake g

/-- Somebody is going to come back to the list. -/
def Covered (s : Mutex) : Prop := s.state = .contended ∨ ∃ g, s.Watches g

structure Inv (s : Mutex) : Prop where
  lock : ∀ g, (s.tasks g).pc.inside = true ↔ s.listLock = some g
  nodup : s.waiters.Nodup
  linked : ∀ g ∈ s.waiters, (s.tasks g).queued = true ∧ (s.tasks g).registered = true
  unqueued : ∀ g, (s.tasks g).pc.unqueued = true → (s.tasks g).queued = false
  alarmed : ∀ g, (s.tasks g).Alarmed (g ∈ s.waiters)
  holder : ∀ g, (s.tasks g).pc.holds = true → s.state ≠ .unlocked
  held : s.state ≠ .unlocked → ∃ g, (s.tasks g).pc.holds = true
  unique : ∀ g g', (s.tasks g).pc.holds = true → (s.tasks g').pc.holds = true → g = g'
  acquiring : ∀ g, (s.tasks g).pc.acquiring = true → s.state = .contended
  covered : s.waiters ≠ [] → s.Covered

/-! ## Frames -/

/-- What a step of task `f` leaves alone. -/
structure Frame (s s' : Mutex) (f : Nat) : Prop where
  others : ∀ g, g ≠ f → (s.tasks g).Woken (s'.tasks g)
  lock : ∀ g, g ≠ f → (s'.listLock = some g ↔ s.listLock = some g)
  linked : ∀ g, g ≠ f → g ∈ s'.waiters → g ∈ s.waiters ∧ s'.tasks g = s.tasks g
  unlinked : ∀ g, g ≠ f → g ∈ s.waiters → g ∉ s'.waiters → (s'.tasks g).notified = true

variable {s s' : Mutex} {f g : Nat} {t : MutexTask} {pc : MutexPc}

@[simp] theorem setTask_self : (s.setTask f t).tasks f = t := Function.update_self ..

theorem setTask_of_ne (h : g ≠ f) : (s.setTask f t).tasks g = s.tasks g :=
  Function.update_of_ne h ..

/-- A step that changes no other task and at most the links of its own. -/
theorem Frame.own (hothers : ∀ g, g ≠ f → s'.tasks g = s.tasks g)
    (hlock : ∀ g, g ≠ f → (s'.listLock = some g ↔ s.listLock = some g))
    (hwaiters : ∀ g, g ≠ f → (g ∈ s'.waiters ↔ g ∈ s.waiters)) : Frame s s' f :=
  ⟨fun g hne => Or.inl (hothers g hne), hlock,
    fun g hne hmem => ⟨(hwaiters g hne).mp hmem, hothers g hne⟩,
    fun g hne hmem hnot => absurd ((hwaiters g hne).mpr hmem) hnot⟩

/-- Another task that watches goes on watching. -/
theorem Frame.watches (h : Frame s s' f) (hne : g ≠ f) (hg : s.Watches g) : s'.Watches g := by
  have hw := h.others g hne
  unfold Watches Awake at hg ⊢
  rw [hw.pc, hw.queued]
  rcases hg with hg | ⟨hqueued, hnot⟩
  · exact Or.inl hg
  · exact Or.inr ⟨hqueued, fun hmem => hnot (h.linked g hne hmem).1⟩

/-- The list stays covered if the state's and `f`'s part in it do. -/
theorem Frame.covered (h : Frame s s' f) (hs : s.Covered)
    (hstate : s.state = .contended → s'.Covered) (hf : s.Watches f → s'.Covered) :
    s'.Covered := by
  rcases hs with hc | ⟨g, hg⟩
  · exact hstate hc
  · by_cases hne : g = f
    · subst hne
      exact hf hg
    · exact Or.inr ⟨g, h.watches hne hg⟩

/-- Who holds the mutex, before and after a step of `f`. -/
structure Holding (s s' : Mutex) (f : Nat) : Prop where
  holder : (s'.tasks f).pc.holds = true → s'.state ≠ .unlocked
  others : s.state ≠ .unlocked → (s.tasks f).pc.holds = false → s'.state ≠ .unlocked
  begins : (s'.tasks f).pc.holds = true → (s.tasks f).pc.holds = false → s.state = .unlocked
  ends : (s'.tasks f).pc.holds = false → (s.tasks f).pc.holds = true → s'.state = .unlocked
  taken : s'.state ≠ .unlocked → s.state = .unlocked → (s'.tasks f).pc.holds = true
  acquiring : (s'.tasks f).pc.acquiring = true → s'.state = .contended
  contended : s.state = .contended → (s.tasks f).pc.holds = false → s'.state = .contended

/-- The invariant from what a step does to its own task and to the shared state. -/
theorem Inv.of_frame (h : s.Inv) (hframe : Frame s s' f) (hholding : Holding s s' f)
    (hlock : (s'.tasks f).pc.inside = true ↔ s'.listLock = some f) (hnodup : s'.waiters.Nodup)
    (hlinked : f ∈ s'.waiters → (s'.tasks f).queued = true ∧ (s'.tasks f).registered = true)
    (hunqueued : (s'.tasks f).pc.unqueued = true → (s'.tasks f).queued = false)
    (halarmed : (s'.tasks f).Alarmed (f ∈ s'.waiters))
    (hcovered : s'.waiters ≠ [] → s'.Covered) : s'.Inv := by
  have hpc : ∀ g, g ≠ f → (s'.tasks g).pc = (s.tasks g).pc := fun g hne =>
    (hframe.others g hne).pc
  -- the holder of the mutex keeps everybody else out
  have hother : ∀ g, g ≠ f → (s.tasks g).pc.holds = true → (s.tasks f).pc.holds = false := by
    intro g hne hg
    rw [Bool.eq_false_iff]
    exact fun hf => hne (h.unique g f hg hf)
  refine ⟨?_, hnodup, ?_, ?_, ?_, ?_, ?_, ?_, ?_, hcovered⟩
  · intro g
    by_cases hne : g = f
    · subst hne
      exact hlock
    · rw [hpc g hne, hframe.lock g hne]
      exact h.lock g
  · intro g hg
    by_cases hne : g = f
    · subst hne
      exact hlinked hg
    · obtain ⟨hmem, heq⟩ := hframe.linked g hne hg
      rw [heq]
      exact h.linked g hmem
  · intro g
    by_cases hne : g = f
    · subst hne
      exact hunqueued
    · rw [hpc g hne, (hframe.others g hne).queued]
      exact h.unqueued g
  · intro g
    by_cases hne : g = f
    · subst hne
      exact halarmed
    · intro hwaiting hqueued
      rw [hpc g hne] at hwaiting
      rw [(hframe.others g hne).queued] at hqueued
      rcases h.alarmed g hwaiting hqueued with hn | hmem
      · exact Or.inl ((hframe.others g hne).notified hn)
      · by_cases hmem' : g ∈ s'.waiters
        · exact Or.inr hmem'
        · exact Or.inl (hframe.unlinked g hne hmem hmem')
  · intro g hg
    by_cases hne : g = f
    · subst hne
      exact hholding.holder hg
    · rw [hpc g hne] at hg
      exact hholding.others (h.holder g hg) (hother g hne hg)
  · intro hstate
    by_cases hold : s.state = .unlocked
    · exact ⟨f, hholding.taken hstate hold⟩
    · obtain ⟨g, hg⟩ := h.held hold
      by_cases hne : g = f
      · subst hne
        refine ⟨g, ?_⟩
        by_contra hnot
        exact hstate (hholding.ends (Bool.eq_false_iff.mpr hnot) hg)
      · exact ⟨g, by rw [hpc g hne]; exact hg⟩
  · intro g g' hg hg'
    have hcross : ∀ i, i ≠ f → (s'.tasks i).pc.holds = true → (s'.tasks f).pc.holds = true →
        False := by
      intro i hne hi hf
      rw [hpc i hne] at hi
      exact h.holder i hi (hholding.begins hf (hother i hne hi))
    by_cases hne : g = f
    · by_cases hne' : g' = f
      · rw [hne, hne']
      · exact absurd (hne ▸ hg) (hcross g' hne' hg')
    · by_cases hne' : g' = f
      · exact absurd (hne' ▸ hg') (hcross g hne hg)
      · rw [hpc g hne] at hg
        rw [hpc g' hne'] at hg'
        exact h.unique g g' hg hg'
  · intro g hg
    by_cases hne : g = f
    · subst hne
      exact hholding.acquiring hg
    · rw [hpc g hne] at hg
      have hholds : (s.tasks g).pc.holds = true := by
        revert hg
        cases (s.tasks g).pc <;> simp [MutexPc.acquiring, MutexPc.holds]
      exact hholding.contended (h.acquiring g hg) (hother g hne hholds)

end Mutex

end Veloq.Sync
