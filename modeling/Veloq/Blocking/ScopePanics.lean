import Veloq.Blocking.ScopeRuns
set_option autoImplicit false

/-!
# Blocking: what a scope reports of its panics

The payloads of all scoped threads go through one cell, which keeps the first and is emptied by
every `join` of a thread that has panicked.  As long as no thread is joined whose payload found the
cell occupied, the payload in the cell is that of the one thread that has panicked and was not
joined, apart from those whose payloads are lost.
-/

namespace Veloq.Blocking

open Veloq.Foundation

namespace ScopedThread

variable {r r' : ScopedThread}

/-- The thread has panicked and has been to the cell. -/
def Reported (r : ScopedThread) : Prop := r.pc.outcome = some .panicked ∧ r.pc ≠ .report

/-- A step does not concern what the thread has to report. -/
structure Keeps (r r' : ScopedThread) : Prop where
  reported : r'.Reported ↔ r.Reported
  result : r'.result = r.result
  lost : r'.lost = r.lost
  outcome : r.pc.outcome ≠ none → r'.pc.outcome = r.pc.outcome

theorem Keeps.same : r.Keeps r := ⟨Iff.rfl, rfl, rfl, fun _ => rfl⟩

/-- A thread goes on from a known place that is not the way to the cell. -/
theorem Keeps.of_pc {pc : ScopedPc} (hpc : r.pc = pc) (hne : pc ≠ .report) (hne' : r'.pc ≠ .report)
    (houtcome : r'.pc.outcome = pc.outcome) (hresult : r'.result = r.result)
    (hlost : r'.lost = r.lost) : r.Keeps r' := by
  subst hpc
  exact ⟨⟨fun h => ⟨houtcome ▸ h.1, hne⟩, fun h => ⟨houtcome.trans h.1, hne'⟩⟩, hresult, hlost,
    fun _ => houtcome⟩

/-- A thread whose closure has not ended has nothing to report, and goes on without a report. -/
theorem Keeps.of_running (hnone : r.pc.outcome = none) (hnot : ¬ r'.Reported)
    (hresult : r'.result = r.result) (hlost : r'.lost = r.lost) : r.Keeps r' := by
  refine ⟨iff_of_false hnot fun h => ?_, hresult, hlost, fun hne => absurd hnone hne⟩
  have houtcome := hnone.symm.trans h.1
  cases houtcome

end ScopedThread

namespace ThreadScope

variable {s s' : ThreadScope} {e : ScopeEvent} {t : Nat} {r : ScopedThread}

theorem keeps_setThread (hr : (s.threads t).Keeps r) (u : Nat) :
    (s.threads u).Keeps ((s.setThread t r).threads u) := by
  by_cases hu : u = t
  · rw [hu, show (s.setThread t r).threads t = r from Function.update_self ..]
    exact hr
  · rw [show (s.setThread t r).threads u = s.threads u from Function.update_of_ne hu ..]
    exact .same

/-- What the cell has to do with the threads. -/
structure PanicInv (s : ThreadScope) : Prop where
  inv : Inv s
  lost : ∀ t, (s.threads t).lost = true → (s.threads t).Reported
  cell : ∀ t, s.panics = some t →
    (s.threads t).Reported ∧ (s.threads t).result = none ∧ (s.threads t).lost = false
  kept : s.owner ≠ .done → ∀ t, (s.threads t).Reported → (s.threads t).lost = false →
    (s.threads t).result = none → s.panics = some t
  joins : ∀ t r, (s.threads t).result = some r →
    (s.threads t).pc.outcome = some .returned ∧ r = .ok ∨
      (s.threads t).pc.outcome = some .panicked ∧ r = .err (some t)
  resumes : s.owner = .done → (s.Resumes ↔ s.bodyPanicked = true ∨
    ∃ t, (s.threads t).Reported ∧ (s.threads t).result = none)

namespace PanicInv

theorem new : PanicInv new := by
  refine ⟨Inv.new, fun t h => ?_, fun t h => ?_, fun _ t h => ?_, fun t r h => ?_, fun h => ?_⟩
  · cases h
  · cases h
  · cases h.1
  · cases h
  · cases h

/-- A step that concerns neither the cell nor a report. -/
theorem quiet (h : PanicInv s) (hinv : Inv s')
    (hkeeps : ∀ u, (s.threads u).Keeps (s'.threads u)) (hpanics : s'.panics = s.panics)
    (hdone : s'.owner = .done ↔ s.owner = .done)
    (hsame : s.owner = .done → s'.bodyPanicked = s.bodyPanicked ∧ s'.resumed = s.resumed) :
    PanicInv s' := by
  refine ⟨hinv, fun t ht => ?_, fun t ht => ?_, fun hnot t hrep hlost hres => ?_, fun t r hr => ?_,
    fun hd => ?_⟩
  · rw [(hkeeps t).lost] at ht
    exact (hkeeps t).reported.mpr (h.lost t ht)
  · rw [hpanics] at ht
    rw [(hkeeps t).reported, (hkeeps t).result, (hkeeps t).lost]
    exact h.cell t ht
  · rw [(hkeeps t).lost] at hlost
    rw [(hkeeps t).result] at hres
    rw [hpanics]
    exact h.kept (fun hd => hnot (hdone.mpr hd)) t ((hkeeps t).reported.mp hrep) hlost hres
  · rw [(hkeeps t).result] at hr
    have hjoin := h.joins t r hr
    have hne : (s.threads t).pc.outcome ≠ none := by
      rcases hjoin with ⟨ho, _⟩ | ⟨ho, _⟩ <;> simp [ho]
    rw [(hkeeps t).outcome hne]
    exact hjoin
  · obtain ⟨hbody, hresumed⟩ := hsame (hdone.mp hd)
    have hthreads : (∃ t, (s'.threads t).Reported ∧ (s'.threads t).result = none) ↔
        ∃ t, (s.threads t).Reported ∧ (s.threads t).result = none :=
      exists_congr fun t => by rw [(hkeeps t).reported, (hkeeps t).result]
    unfold Resumes
    rw [hbody, hresumed, hthreads]
    exact h.resumes (hdone.mp hd)

/-- A thread that is on the way to the cell has not reported, and the scope is not over. -/
theorem on_the_way (h : PanicInv s) (hpc : (s.threads t).pc = .report) :
    ¬ (s.threads t).Reported ∧ (s.threads t).lost = false ∧ (s.threads t).result = none ∧
      s.owner ≠ .done := by
  have hnot : ¬ (s.threads t).Reported := fun hrep => hrep.2 hpc
  refine ⟨hnot, Bool.eq_false_iff.mpr fun hlost => hnot (h.lost t hlost), ?_, fun hdone => ?_⟩
  · have hshares : (s.threads t).Shares .absent := h.inv.okAt hpc
    exact hshares.result
  · have hcounts := h.inv.drained (.inr hdone) t
    unfold ScopedThread.counts at hcounts
    rw [hpc] at hcounts
    cases hcounts

/-- A thread has panicked and finds the cell empty. -/
theorem reportFirst (h : PanicInv s) (hpc : (s.threads t).pc = .report) (hempty : s.panics = none)
    (hinv : Inv { s.goto t (.decrement .panicked) with panics := some t }) :
    PanicInv { s.goto t (.decrement .panicked) with panics := some t } := by
  obtain ⟨hnot, hunlost, hunjoined, hopen⟩ := h.on_the_way hpc
  have hself : (s.goto t (.decrement .panicked)).threads t =
      { s.threads t with pc := .decrement .panicked } := Function.update_self ..
  have hother : ∀ u, u ≠ t → (s.goto t (.decrement .panicked)).threads u = s.threads u :=
    fun u hu => Function.update_of_ne hu ..
  have hrep : ((s.goto t (.decrement .panicked)).threads t).Reported := by
    rw [hself]
    exact ⟨rfl, by simp⟩
  refine ⟨hinv, fun u hu => ?_, fun u hu => ?_, fun _ u hu hlost hres => ?_, fun u r hr => ?_,
    fun hd => absurd hd hopen⟩
  · by_cases hut : u = t
    · rw [hut]
      exact hrep
    · change ((s.goto t (.decrement .panicked)).threads u).lost = true at hu
      show ((s.goto t (.decrement .panicked)).threads u).Reported
      rw [hother u hut] at hu ⊢
      exact h.lost u hu
  · cases hu
    refine ⟨hrep, ?_, ?_⟩
    · show ((s.goto t (.decrement .panicked)).threads t).result = none
      rw [hself]
      exact hunjoined
    · show ((s.goto t (.decrement .panicked)).threads t).lost = false
      rw [hself]
      exact hunlost
  · by_cases hut : u = t
    · rw [hut]
    · -- another payload that is kept would be in the cell
      change ((s.goto t (.decrement .panicked)).threads u).Reported at hu
      change ((s.goto t (.decrement .panicked)).threads u).lost = false at hlost
      change ((s.goto t (.decrement .panicked)).threads u).result = none at hres
      rw [hother u hut] at hu hlost hres
      have hfull := h.kept hopen u hu hlost hres
      rw [hempty] at hfull
      cases hfull
  · change ((s.goto t (.decrement .panicked)).threads u).result = some r at hr
    show ((s.goto t (.decrement .panicked)).threads u).pc.outcome = _ ∧ _ ∨
      ((s.goto t (.decrement .panicked)).threads u).pc.outcome = _ ∧ _
    by_cases hut : u = t
    · rw [hut, hself] at hr
      exact absurd (hunjoined.symm.trans hr) (by simp)
    · rw [hother u hut] at hr ⊢
      exact h.joins u r hr

/-- A thread has panicked and finds the cell occupied. -/
theorem reportLost (h : PanicInv s) (hpc : (s.threads t).pc = .report) (hfull : s.panics ≠ none)
    (hinv : Inv (s.setThread t { s.threads t with pc := .decrement .panicked, lost := true })) :
    PanicInv (s.setThread t { s.threads t with pc := .decrement .panicked, lost := true }) := by
  obtain ⟨hnot, _, hunjoined, hopen⟩ := h.on_the_way hpc
  generalize hr : ({ s.threads t with pc := .decrement .panicked, lost := true } : ScopedThread) = r
    at hinv ⊢
  have hself : (s.setThread t r).threads t = r := Function.update_self ..
  have hother : ∀ u, u ≠ t → (s.setThread t r).threads u = s.threads u :=
    fun u hu => Function.update_of_ne hu ..
  refine ⟨hinv, fun u hu => ?_, fun u hu => ?_, fun _ u hu hlost hres => ?_, fun u result hres => ?_,
    fun hd => absurd hd hopen⟩
  · by_cases hut : u = t
    · rw [hut, hself, ← hr]
      exact ⟨rfl, by simp⟩
    · rw [hother u hut] at hu ⊢
      exact h.lost u hu
  · have hold := h.cell u hu
    have hut : u ≠ t := fun heq => hnot (heq ▸ hold.1)
    rw [hother u hut]
    exact hold
  · by_cases hut : u = t
    · rw [hut, hself, ← hr] at hlost
      cases hlost
    · rw [hother u hut] at hu hlost hres
      exact h.kept hopen u hu hlost hres
  · by_cases hut : u = t
    · rw [hut, hself, ← hr] at hres
      exact absurd (hunjoined.symm.trans hres) (by simp)
    · rw [hother u hut] at hres ⊢
      exact h.joins u result hres

theorem advance (h : PanicInv s) (hs : s.advance t = some s') : PanicInv s' := by
  have hinv := h.inv.advance hs
  have hdone : s'.owner = .done ↔ s.owner = .done := by
    rcases owner_of_advance hs with hsame | ⟨hasleep, hload⟩
    · rw [hsame]
    · rw [hasleep, hload]
      exact ⟨fun h => (by cases h), fun h => (by cases h)⟩
  unfold ThreadScope.advance at hs
  simp only at hs
  split at hs
  · rename_i hpc
    cases hs
    split at hinv
    · rename_i hempty
      rw [if_pos hempty]
      exact h.reportFirst hpc hempty hinv
    · rename_i hfull
      rw [if_neg hfull]
      exact h.reportLost hpc hfull hinv
  · rename_i o hpc
    cases hs
    refine h.quiet hinv (fun u => ?_) rfl hdone fun _ => ⟨rfl, rfl⟩
    refine keeps_setThread ?_ u
    refine .of_pc hpc (by simp) ?_ ?_ rfl rfl
    · show (if s.numRunning = 1 then ScopedPc.wake o else .store o) ≠ _
      split <;> simp
    · show (if s.numRunning = 1 then ScopedPc.wake o else .store o).outcome = _
      split <;> rfl
  · rename_i o hpc
    cases hs
    have hthreads : ∀ v, s.wakeOwner.threads v = s.threads v := congrFun wakeOwner_threads
    refine h.quiet hinv (fun u => ?_) wakeOwner_panics hdone fun hd => ?_
    · rw [← hthreads u]
      refine keeps_setThread ?_ u
      exact .of_pc ((congrArg ScopedThread.pc (hthreads t)).trans hpc) (by simp) (by simp) rfl rfl
        rfl
    · have hawake : s.owner ≠ .asleep := by
        rw [hd]
        simp
      show s.wakeOwner.bodyPanicked = _ ∧ s.wakeOwner.resumed = _
      rw [wakeOwner, if_neg hawake]
      exact ⟨rfl, rfl⟩
  · rename_i o hpc
    cases hs
    refine h.quiet hinv (fun u => ?_) rfl hdone fun _ => ⟨rfl, rfl⟩
    refine keeps_setThread ?_ u
    exact .of_pc hpc (by simp) (by simp) rfl rfl rfl
  · rename_i o hpc
    cases hs
    refine h.quiet hinv (fun u => ?_) rfl hdone fun _ => ⟨rfl, rfl⟩
    refine keeps_setThread ?_ u
    exact .of_pc hpc (by simp) (by simp) rfl rfl rfl
  · rename_i o hpc
    cases hs
    refine h.quiet hinv (fun u => ?_) rfl hdone fun _ => ⟨rfl, rfl⟩
    refine keeps_setThread ?_ u
    exact .of_pc hpc (by simp) (by simp) rfl rfl rfl
  · cases hs
  · cases hs
  · cases hs
  · cases hs
  · cases hs

/-- A thread that has returned a value is joined. -/
theorem joinReturned (h : PanicInv s) (hpc : (s.threads t).pc = .exited .returned)
    (hbody : s.owner = .body) (hrpc : r.pc = (s.threads t).pc) (hres : r.result = some .ok)
    (hlost : r.lost = (s.threads t).lost) (hinv : Inv (s.setThread t r)) :
    PanicInv (s.setThread t r) := by
  have hself : (s.setThread t r).threads t = r := Function.update_self ..
  have hother : ∀ u, u ≠ t → (s.setThread t r).threads u = s.threads u :=
    fun u hu => Function.update_of_ne hu ..
  have hnot : ¬ (s.threads t).Reported := fun hrep => by
    have houtcome := hrep.1
    rw [hpc] at houtcome
    cases houtcome
  have hnot' : ¬ r.Reported := fun hrep => hnot ⟨hrpc ▸ hrep.1, hrpc ▸ hrep.2⟩
  refine ⟨hinv, fun u hu => ?_, fun u hu => ?_, fun ho u hu hul hur => ?_, fun u result hur => ?_,
    fun hd => ?_⟩
  · by_cases hut : u = t
    · rw [hut, hself, hlost] at hu
      exact absurd (h.lost t hu) hnot
    · rw [hother u hut] at hu ⊢
      exact h.lost u hu
  · have hold := h.cell u hu
    have hut : u ≠ t := fun heq => hnot (heq ▸ hold.1)
    rw [hother u hut]
    exact hold
  · by_cases hut : u = t
    · rw [hut, hself] at hu
      exact absurd hu hnot'
    · rw [hother u hut] at hu hul hur
      exact h.kept ho u hu hul hur
  · by_cases hut : u = t
    · rw [hut, hself] at hur ⊢
      rw [hrpc, hpc]
      exact .inl ⟨rfl, Option.some.inj (hur.symm.trans hres)⟩
    · rw [hother u hut] at hur ⊢
      exact h.joins u result hur
  · exact absurd (hbody.symm.trans hd) (by simp)

/-- A thread that has panicked is joined, and its payload is the one in the cell. -/
theorem joinPanicked (h : PanicInv s) (hpc : (s.threads t).pc = .exited .panicked)
    (hbody : s.owner = .body) (hunjoined : (s.threads t).result = none)
    (hunlost : (s.threads t).lost = false) (hrpc : r.pc = (s.threads t).pc)
    (hres : r.result = some (.err s.panics)) (hlost : r.lost = (s.threads t).lost)
    (hinv : Inv { s.setThread t r with panics := none }) :
    PanicInv { s.setThread t r with panics := none } := by
  have hself : (s.setThread t r).threads t = r := Function.update_self ..
  have hother : ∀ u, u ≠ t → (s.setThread t r).threads u = s.threads u :=
    fun u hu => Function.update_of_ne hu ..
  have hopen : s.owner ≠ .done := by
    rw [hbody]
    simp
  have hrep : (s.threads t).Reported := by
    unfold ScopedThread.Reported
    rw [hpc]
    exact ⟨rfl, by simp⟩
  have hown : s.panics = some t := h.kept hopen t hrep hunlost hunjoined
  refine ⟨hinv, fun u hu => ?_, fun u hu => ?_, fun _ u hu hul hur => ?_, fun u result hur => ?_,
    fun hd => absurd hd hopen⟩
  · change ((s.setThread t r).threads u).lost = true at hu
    show ((s.setThread t r).threads u).Reported
    by_cases hut : u = t
    · rw [hut, hself, hlost, hunlost] at hu
      cases hu
    · rw [hother u hut] at hu ⊢
      exact h.lost u hu
  · cases hu
  · change ((s.setThread t r).threads u).Reported at hu
    change ((s.setThread t r).threads u).lost = false at hul
    change ((s.setThread t r).threads u).result = none at hur
    by_cases hut : u = t
    · rw [hut, hself, hres] at hur
      cases hur
    · rw [hother u hut] at hu hul hur
      have hother' := h.kept hopen u hu hul hur
      exact absurd (Option.some.inj (hother'.symm.trans hown)) hut
  · change ((s.setThread t r).threads u).result = some result at hur
    show ((s.setThread t r).threads u).pc.outcome = _ ∧ _ ∨
      ((s.setThread t r).threads u).pc.outcome = _ ∧ _
    by_cases hut : u = t
    · rw [hut, hself] at hur ⊢
      rw [hrpc, hpc]
      exact .inr ⟨rfl, by rw [← Option.some.inj (hres.symm.trans hur), hown]⟩
    · rw [hother u hut] at hur ⊢
      exact h.joins u result hur

theorem join (h : PanicInv s) (hbody : s.owner = .body) (hunlost : (s.threads t).lost = false)
    (hs : s.join t = some s') : PanicInv s' := by
  have hinv := h.inv.join hs
  unfold ThreadScope.join at hs
  simp only at hs
  split at hs
  · rename_i o hpc
    obtain ⟨⟨hheld, _⟩, hs⟩ := Option.ite_none_right_eq_some.mp hs
    have hgone : (s.threads t).Gone o := h.inv.okAt hpc
    cases o with
    | returned =>
        cases hs
        exact h.joinReturned hpc hbody rfl rfl rfl hinv
    | panicked =>
        cases hs
        exact h.joinPanicked hpc hbody (hgone.held hheld).2 hunlost rfl rfl rfl hinv
  · cases hs

/-- The owner takes a step after the body. -/
theorem stepOwner (h : PanicInv s)
    (hlost : s.owner = .pop → (∃ t, (s.threads t).lost = true) → s.panics ≠ none)
    (hs : s.stepOwner = some s') : PanicInv s' := by
  have hinv := h.inv.stepOwner hs
  unfold ThreadScope.stepOwner at hs
  split at hs
  · rename_i hload
    cases hs
    have hopen : s.owner ≠ .done := by
      rw [hload]
      simp
    by_cases hends : s.numRunning = 0 ∧ s.bodyPanicked = true
    · -- the body has panicked, and the scope does not look into the cell
      refine ⟨hinv, h.lost, h.cell, fun _ => h.kept hopen, h.joins, fun _ => ?_⟩
      exact iff_of_true (.inl hends.2) (.inl hends.2)
    · refine h.quiet hinv (fun u => .same) rfl (iff_of_false ?_ hopen) fun _ => ⟨rfl, rfl⟩
      show ¬ (if s.numRunning = 0 then if s.bodyPanicked then OwnerPc.done else .pop
        else .wait s.numRunning) = .done
      by_cases hzero : s.numRunning = 0
      · rw [if_pos hzero, if_neg fun hb => hends ⟨hzero, hb⟩]
        simp
      · rw [if_neg hzero]
        simp
  · rename_i val hwait
    cases hs
    refine h.quiet hinv (fun u => .same) rfl ?_ fun _ => ⟨rfl, rfl⟩
    rw [hwait]
    refine iff_of_false ?_ (by simp)
    show ¬ (if s.numRunning = val then OwnerPc.asleep else .load) = .done
    split <;> simp
  · rename_i hpop
    cases hs
    have hopen : s.owner ≠ .done := by
      rw [hpop]
      simp
    refine ⟨hinv, h.lost, fun t ht => (by cases ht), fun hne => absurd rfl hne, h.joins,
      fun _ => or_congr_right ⟨fun hresumed => ?_, ?_⟩⟩
    · obtain ⟨t, ht⟩ := Option.ne_none_iff_exists'.mp hresumed
      obtain ⟨hrep, hres, _⟩ := h.cell t ht
      exact ⟨t, hrep, hres⟩
    · rintro ⟨t, hrep, hres⟩
      show s.panics ≠ none
      cases htl : (s.threads t).lost with
      | true => exact hlost hpop ⟨t, htl⟩
      | false =>
          rw [h.kept hopen t hrep htl hres]
          simp
  · cases hs
  · cases hs
  · cases hs
  · cases hs

theorem step (h : PanicInv s) (hcare : s.KeepsPayloads e) (hs : ScopeStep s e s') :
    PanicInv s' := by
  have hinv := h.inv.step hcare.1 hs
  unfold ScopeStep at hs
  cases e with
  | spawn t =>
      obtain ⟨hbody, hs⟩ := Option.ite_none_right_eq_some.mp hs
      obtain ⟨hfresh, hs⟩ := Option.ite_none_right_eq_some.mp hs
      cases hs
      refine h.quiet hinv (fun u => keeps_setThread ?_ u) rfl (by rw [hbody]; simp)
        fun _ => ⟨rfl, rfl⟩
      exact .of_running (by rw [hfresh]; rfl) (fun hrep => by cases hrep.1) rfl rfl
  | create =>
      simp only [ThreadScope.step] at hs
      split at hs
      · rename_i t hspawn
        cases hs
        have hpc := (h.inv.spawning t).mpr hspawn
        refine h.quiet hinv (fun u => keeps_setThread ?_ u) rfl (by rw [hspawn]; simp)
          fun _ => ⟨rfl, rfl⟩
        exact .of_running (by rw [hpc]; rfl) (fun hrep => by cases hrep.1) rfl rfl
      · cases hs
  | createFail =>
      simp only [ThreadScope.step] at hs
      split at hs
      · rename_i t hspawn
        cases hs
        have hpc := (h.inv.spawning t).mpr hspawn
        refine h.quiet hinv (fun u => keeps_setThread ?_ u) rfl (by rw [hspawn]; simp)
          fun _ => ⟨rfl, rfl⟩
        exact .of_running (by rw [hpc]; rfl) (fun hrep => by cases hrep.1) rfl rfl
      · cases hs
  | join t =>
      obtain ⟨hbody, hs⟩ := Option.ite_none_right_eq_some.mp hs
      exact h.join hbody hcare.2 hs
  | dropHandle t =>
      obtain ⟨hbody, hs⟩ := Option.ite_none_right_eq_some.mp hs
      obtain ⟨_, hs⟩ := Option.ite_none_right_eq_some.mp hs
      cases hs
      refine h.quiet hinv (fun u => keeps_setThread ?_ u) rfl Iff.rfl fun _ => ⟨rfl, rfl⟩
      exact ⟨Iff.rfl, rfl, rfl, fun _ => rfl⟩
  | bodyReturn | bodyPanic =>
      obtain ⟨hbody, hs⟩ := Option.ite_none_right_eq_some.mp hs
      cases hs
      refine h.quiet hinv (fun u => .same) rfl (by rw [hbody]; simp) fun hd => ?_
      exact absurd (hbody.symm.trans hd) (by simp)
  | owner => exact h.stepOwner hcare.2 hs
  | interrupt =>
      obtain ⟨hasleep, hs⟩ := Option.ite_none_right_eq_some.mp hs
      cases hs
      exact h.quiet hinv (fun u => .same) rfl (by rw [hasleep]; simp) fun _ => ⟨rfl, rfl⟩
  | finish t o =>
      obtain ⟨hpc, hs⟩ := Option.ite_none_right_eq_some.mp hs
      cases hs
      refine h.quiet hinv (fun u => keeps_setThread ?_ u) rfl Iff.rfl fun _ => ⟨rfl, rfl⟩
      refine .of_running (by rw [hpc]; rfl) (fun hrep => ?_) rfl rfl
      cases o with
      | returned => cases hrep.1
      | panicked => exact hrep.2 rfl
  | advance t => exact h.advance hs

theorem reportsPanics (h : PanicInv s) : s.ReportsPanics := by
  refine ⟨h.joins, fun hdone => (h.resumes hdone).trans (or_congr_right (exists_congr fun t => ?_))⟩
  refine and_congr_left fun _ => ⟨fun hrep => hrep.1, fun houtcome => ⟨houtcome, fun hpc => ?_⟩⟩
  have hcounts := h.inv.drained (.inr hdone) t
  unfold ScopedThread.counts at hcounts
  rw [hpc] at hcounts
  cases hcounts

end PanicInv

/-- **Runs in which a scope reports its panics faithfully.**  In every run of a scope with any
number of threads of which any panic, in any order of their steps and of the joins, in which the
counter has room for every thread, no thread is joined whose payload found the cell occupied, and
the cell is not empty at the end if there was such a payload: `join` returns what became of its own
thread, and the scope resumes a panic exactly if the body has panicked or a thread that was not
joined. -/
theorem scope_reports_panics (s : ThreadScope)
    (hrun : Run ScopeStep KeepsPayloads (fun s => s = new) s) : s.ReportsPanics := by
  have hinv : PanicInv s := by
    refine Run.invariant (fun s hnew => ?_) (fun s e s' h hcare hs => ?_) hrun
    · rw [hnew]
      exact PanicInv.new
    · exact h.step hcare hs
  exact hinv.reportsPanics

/-- The counter has room, the owner is not waiting, and nobody is joined whose payload is lost. -/
def payloadKept (s : ThreadScope) (e : ScopeEvent) : Bool :=
  s.roomy e &&
    match e with
    | .join t => !(s.threads t).lost
    | _ => true

theorem keepsPayloads_of_kept (h : s.payloadKept e = true) : s.KeepsPayloads e := by
  obtain ⟨hroomy, hjoin⟩ := (Bool.and_eq_true ..).mp h
  refine ⟨(leavesLast_of_roomy hroomy).1, ?_⟩
  cases e with
  | join t => exact Bool.not_eq_true' _ |>.mp hjoin
  | owner => exact absurd hroomy (by simp [roomy])
  | spawn | create | createFail | dropHandle | bodyReturn | bodyPanic | interrupt | finish
  | advance => trivial

/-- A thread panics and is joined, and after that another one panics whose handle is dropped. -/
def panicAndJoin : List ScopeEvent :=
  [.spawn 0, .create, .finish 0 .panicked, .advance 0, .advance 0, .advance 0, .advance 0,
    .advance 0, .advance 0, .join 0, .spawn 1, .create, .dropHandle 1, .finish 1 .panicked,
    .advance 1, .advance 1, .bodyReturn]

def bothPanicked : ThreadScope := (replay step payloadKept new panicAndJoin).get (by decide +kernel)

theorem bothPanicked_reported :
    ∃ s : ThreadScope, s.owner = .done ∧ (s.threads 0).result = some (.err (some 0)) ∧
      s.resumed = some 1 ∧ s.ReportsPanics := by
  have hstart : Run ScopeStep KeepsPayloads (fun s => s = new) new := .start rfl
  have hreplay : replay step payloadKept new panicAndJoin = some bothPanicked :=
    (Option.some_get _).symm
  have hrun := hstart.replay (fun _ _ _ hs => hs) (fun _ _ => keepsPayloads_of_kept) hreplay
  have hload := hrun.next ScopeEvent.owner
    ⟨trivial, fun hpop => absurd hpop (by decide +kernel)⟩ rfl
  have hpop := hload.next ScopeEvent.owner ⟨trivial, fun _ _ => by decide +kernel⟩ rfl
  exact ⟨_, rfl, by decide +kernel, by decide +kernel, scope_reports_panics _ hpop⟩

/-- Two threads panic, and the one is joined whose payload found the cell occupied. -/
def joinSecond : List ScopeEvent :=
  [.spawn 0, .create, .spawn 1, .create, .finish 0 .panicked, .advance 0, .finish 1 .panicked,
    .advance 1, .advance 1, .advance 1, .advance 1, .advance 1, .join 1]

def wrongPayload : ThreadScope :=
  (replay step (fun _ _ => true) new joinSecond).get (by decide +kernel)

/-- The second thread is reported with the payload of the first. -/
theorem panics_mixed_up :
    ¬ ∀ s : ThreadScope, Run ScopeStep Always (fun s => s = new) s → s.ReportsPanics := by
  intro hall
  have hstart : Run ScopeStep Always (fun s => s = new) new := .start rfl
  have hreplay : replay step (fun _ _ => true) new joinSecond = some wrongPayload :=
    (Option.some_get _).symm
  have hrun := hstart.replay (fun _ _ _ hs => hs) (fun _ _ _ => trivial) hreplay
  have hjoined := (hall wrongPayload hrun).joins 1 (.err (some 0)) (by decide +kernel)
  exact absurd hjoined (by decide +kernel)

end ThreadScope

end Veloq.Blocking
