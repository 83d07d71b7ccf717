import Veloq.Runtime.RoutedCell
set_option autoImplicit false

/-!
# Runtime: when the cell of a routed job is dropped once

Until the closure drops the cell it holds the guard, so the scope cannot end, and the spawner
sees no failed outcome unless the closure has given the cell up by panicking.  What goes wrong
is a failure of the closure after it has dropped the cell, seen by the spawner.
-/

namespace Veloq.Runtime.RoutedCell

open Foundation Scope

/-- The closure is going to drop the cell. -/
def JobPc.holdsCell : JobPc → Bool
  | queued | lookCancel | dropCancelled | take | call | drop => true
  | _ => false

/-- The closure has not been routed. -/
def SpawnerPc.early : SpawnerPc → Bool
  | validate | newGuard | alloc | dispatch => true
  | check | dropCell | returned => false

/-- The closure has the guard, armed, and has not panicked. -/
def JobPc.armed : JobPc → Bool
  | failCancelled | failTake | lookAgain | install | failNode | settle | handoff => true
  | pc => pc.holdsCell

/-- Whoever goes on from the first place to the second takes up neither the cell nor the
guard. -/
def JobPc.leadsTo (pc pc' : JobPc) : Bool :=
  pc != .absent && (!pc'.holdsCell || pc.holdsCell) && (!pc'.armed || pc.armed)

namespace Control

variable {c c' : Control}

section Outcome

variable (c : Control) (o : Outcome)

@[simp, grind =] theorem setOutcome_spawner : (c.setOutcome o).spawner = c.spawner := by
  unfold setOutcome; split <;> rfl

@[simp, grind =] theorem setOutcome_cancelRequested :
    (c.setOutcome o).cancelRequested = c.cancelRequested := by
  unfold setOutcome; split <;> rfl

@[simp, grind =] theorem setOutcome_obligation : (c.setOutcome o).obligation = c.obligation := by
  unfold setOutcome; split <;> rfl

@[simp, grind =] theorem setOutcome_job : (c.setOutcome o).job = c.job := by
  unfold setOutcome; split <;> rfl

@[grind =] theorem setOutcome_outcome :
    (c.setOutcome o).outcome = if c.outcome = .none then o else c.outcome := by
  unfold setOutcome; split <;> rfl

@[simp, grind =] theorem settle_spawner : c.settle.spawner = c.spawner := by
  unfold settle; split <;> rfl

@[simp, grind =] theorem settle_cancelRequested : c.settle.cancelRequested = c.cancelRequested := by
  unfold settle; split <;> rfl

@[simp, grind =] theorem settle_job : c.settle.job = c.job := by
  unfold settle; split <;> rfl

@[grind! .] theorem settle_obligation : c.settle.obligation ≠ .guard := by
  unfold settle
  split
  · exact Obligation.noConfusion
  · assumption

end Outcome

/-- What holds of both sides; `spent`: the cell has been dropped. -/
structure Inv (c : Control) (spent : Bool) : Prop where
  early : c.spawner.early = true → c.job = .absent ∧ c.outcome = .none ∧ spent = false
  guarded : c.spawner = .alloc ∨ c.spawner = .dispatch → c.obligation = .guard
  cancelled : c.cancelRequested = true → c.spawner = .returned
  holds : c.job.holdsCell = true → spent = false ∧
    (c.spawner = .check ∧ c.outcome = .none ∨ c.spawner = .returned)
  armed : c.job.armed = true → c.obligation = .guard
  failed : c.spawner = .check → c.outcome.failed = true → spent = false ∧ c.job.holdsCell = false
  cleaning : c.spawner = .dropCell → spent = false ∧ c.job.holdsCell = false

namespace Inv

variable {spent : Bool} {pc : JobPc} {effect : Effect}

theorem start : Inv start false := by
  constructor <;> simp [Control.start, JobPc.holdsCell, JobPc.armed]

/-- The closure is under way, so the spawner has routed it. -/
theorem routed (h : Inv c spent) (hjob : c.job ≠ .absent) : c.spawner.early = false := by
  cases hearly : c.spawner.early with
  | false => rfl
  | true => exact absurd (h.early hearly).1 hjob

/-- The closure goes on. -/
theorem goto (h : Inv c spent) (hpc : c.job.leadsTo pc = true) :
    Inv { c with job := pc } spent := by
  simp only [JobPc.leadsTo, Bool.and_eq_true, bne_iff_ne, Bool.or_eq_true, Bool.not_eq_true'] at hpc
  obtain ⟨⟨hjob, hholds⟩, harmed⟩ := hpc
  have hrouted := h.routed hjob
  have hnot : c.job.holdsCell = false → pc.holdsCell = false := fun hc =>
    hholds.resolve_right (by rw [hc]; decide)
  have himp : ∀ {a b : Bool}, a = false ∨ b = true → a = true → b = true := fun hab ha =>
    hab.resolve_left (by rw [ha]; decide)
  exact ⟨fun hearly => absurd hearly (by rw [hrouted]; decide), h.guarded, h.cancelled,
    fun hpc => h.holds (himp hholds hpc), fun hpc => h.armed (himp harmed hpc),
    fun hcheck hfailed => (h.failed hcheck hfailed).imp_right hnot,
    fun hclean => (h.cleaning hclean).imp_right hnot⟩

/-- An outcome is stored, by a closure that has given the cell up. -/
theorem outcome (h : Inv c spent) {o : Outcome} (hjob : c.job ≠ .absent)
    (hholds : c.job.holdsCell = false)
    (hlate : o.failed = true → spent = true → c.spawner ≠ .check) :
    Inv (c.setOutcome o) spent := by
  have hrouted := h.routed hjob
  refine ⟨fun hearly => ?_, ?_, ?_, fun hpc => ?_, ?_, fun hcheck hfailed => ?_, ?_⟩
  · rw [setOutcome_spawner, hrouted] at hearly
    exact absurd hearly (by decide)
  · simpa using h.guarded
  · simpa using h.cancelled
  · rw [setOutcome_job, hholds] at hpc
    exact absurd hpc (by decide)
  · simpa using h.armed
  · rw [setOutcome_spawner] at hcheck
    rw [setOutcome_job]
    rw [setOutcome_outcome] at hfailed
    split at hfailed
    · cases hspent : spent with
      | false => exact ⟨rfl, hholds⟩
      | true => exact absurd hcheck (hlate hfailed hspent)
    · exact h.failed hcheck hfailed
  · simpa using h.cleaning

/-- The obligation changes hands, in a closure that goes on without the guard. -/
theorem handOn (h : Inv c spent) (hjob : c.job ≠ .absent) (hholds : pc.holdsCell = false)
    (harmed : pc.armed = false) (obligation : Obligation) :
    Inv { c with job := pc, obligation := obligation } spent := by
  have hrouted := h.routed hjob
  refine ⟨fun hearly => absurd hearly (by rw [hrouted]; decide), fun hspawner => ?_, h.cancelled,
    fun hpc => absurd hpc (by rw [hholds]; decide), fun hpc => absurd hpc (by rw [harmed]; decide),
    fun hcheck hfailed => ⟨(h.failed hcheck hfailed).1, hholds⟩,
    fun hclean => ⟨(h.cleaning hclean).1, hholds⟩⟩
  rcases hspawner with hspawner | hspawner
  · exact absurd hrouted (by rw [hspawner]; decide)
  · exact absurd hrouted (by rw [hspawner]; decide)

theorem settle (h : Inv c spent) (hjob : c.job ≠ .absent) (hholds : pc.holdsCell = false)
    (harmed : pc.armed = false) : Inv { c.settle with job := pc } spent := by
  unfold Control.settle
  split
  · exact h.handOn hjob hholds harmed .settled
  · exact h.handOn hjob hholds harmed c.obligation

/-- The closure drops the cell. -/
theorem dropped (h : Inv c spent) (hjob : c.job.holdsCell = true) (hpc : pc.holdsCell = false) :
    Inv { c with job := pc } true := by
  have hne : c.job ≠ .absent := fun heq => absurd hjob (by rw [heq]; decide)
  have hrouted := h.routed hne
  have hguard : c.obligation = .guard := h.armed (by
    cases hc : c.job <;> rw [hc] at hjob <;> first | rfl | exact absurd hjob (by decide))
  obtain ⟨-, hspawner⟩ := h.holds hjob
  refine ⟨fun hearly => absurd hearly (by rw [hrouted]; decide), h.guarded, h.cancelled,
    fun hpc' => absurd hpc' (by rw [hpc]; decide), fun _ => hguard, fun hcheck hfailed => ?_,
    fun hclean => ?_⟩
  · rcases hspawner with ⟨-, hnone⟩ | hreturned
    · change c.outcome.failed = true at hfailed
      rw [hnone] at hfailed
      exact absurd hfailed (by decide)
    · exact absurd (hreturned.symm.trans hcheck) (by decide)
  · rcases hspawner with ⟨hcheck, -⟩ | hreturned
    · exact absurd (hcheck.symm.trans hclean) (by decide)
    · exact absurd (hreturned.symm.trans hclean) (by decide)

theorem holdsCell_of_jobStep (hs : c.jobStep = some (c', .dropCell)) :
    c.job.holdsCell = true := by
  unfold Control.jobStep at hs
  cases hpc : c.job <;> rw [hpc] at hs <;> try rfl
  all_goals
    simp only at hs
    try split at hs
    all_goals cases hs

/-- The closure goes on; if it stores a failed outcome, it does so late enough. -/
theorem jobStep (h : Inv c spent)
    (hlate : c.job.fails = true → spent = true → c.spawner ≠ .check)
    (hs : c.jobStep = some (c', effect)) : Inv c' (spent || effect == .dropCell) := by
  have hquiet : ∀ {d : Control}, Inv d spent → some (d, Effect.quiet) = some (c', effect) →
      Inv c' (spent || effect == .dropCell) := by
    intro d hd heq
    cases heq
    rw [show (Effect.quiet == Effect.dropCell) = false from rfl, Bool.or_false]
    exact hd
  have hdrop : ∀ {pc : JobPc}, c.job.holdsCell = true → pc.holdsCell = false →
      some ({ c with job := pc }, Effect.dropCell) = some (c', effect) →
      Inv c' (spent || effect == .dropCell) := by
    intro pc hjob hpc heq
    cases heq
    rw [show (Effect.dropCell == Effect.dropCell) = true from rfl, Bool.or_true]
    exact h.dropped hjob hpc
  have hstore : ∀ {o : Outcome} {pc : JobPc}, (o.failed = true → c.job.fails = true) →
      c.job.holdsCell = false → c.job.leadsTo pc = true →
      Inv { c.setOutcome o with job := pc } spent := by
    intro o pc hfails hholds hpc
    have hjob : c.job ≠ .absent := by
      rintro heq
      rw [heq] at hpc
      exact absurd hpc (by cases pc <;> decide)
    have hstored := h.outcome hjob hholds fun ho => hlate (hfails ho)
    exact hstored.goto (by rw [setOutcome_job]; exact hpc)
  unfold Control.jobStep at hs
  cases hpc : c.job <;> rw [hpc] at hs hlate hdrop hstore <;> simp only at hs
  case lookCancel =>
    refine hquiet (h.goto ?_) hs
    rw [hpc]
    split <;> rfl
  case dropCancelled | drop => exact hdrop rfl rfl hs
  case failCancelled | failTake | failNode | failEnqueue | failPanic =>
    exact hquiet (hstore (fun _ => rfl) rfl rfl) hs
  case setReady => exact hquiet (hstore (fun ho => absurd ho (by decide)) rfl rfl) hs
  case take =>
    split at hs
    · have htaken : Inv { c with hasJob := false } spent :=
        ⟨h.early, h.guarded, h.cancelled, h.holds, h.armed, h.failed, h.cleaning⟩
      have hcall : c.job.leadsTo .call = true := by rw [hpc]; rfl
      exact hquiet (htaken.goto hcall) hs
    · exact hquiet (h.goto (by rw [hpc]; rfl)) hs
  case lookAgain =>
    refine hquiet (h.goto ?_) hs
    rw [hpc]
    split <;> rfl
  case call | dropNode | closing => exact hquiet (h.goto (by rw [hpc]; rfl)) hs
  case settle | settlePanic =>
    exact hquiet (h.settle (by rw [hpc]; exact JobPc.noConfusion) rfl rfl) hs
  case handoff | callerSettle =>
    exact hquiet (h.handOn (by rw [hpc]; exact JobPc.noConfusion) rfl rfl _) hs
  case absent | queued | install | enqueue | done => cases hs

/-- One step, of which a failed outcome comes late enough. -/
theorem next {e : Event} (h : Inv c spent)
    (hlate : e = .job → c.job.fails = true → spent = true → c.spawner ≠ .check)
    (hs : c.next e = some (c', effect)) : Inv c' (spent || effect == .dropCell) := by
  have hquiet : (spent || Effect.quiet == Effect.dropCell) = spent := Bool.or_false spent
  cases e with
  | job => exact h.jobStep (hlate rfl) hs
  | other e => cases hs
  | enqueue outcome =>
    simp only [Control.next] at hs
    split_ifs at hs with hpc
    cases hs
    rw [hquiet]
    refine h.goto ?_
    rw [hpc]
    cases outcome <;> rfl
  | _ =>
    -- one side looks at one thing, or changes it
    obtain ⟨early, guarded, cancelled, holds, armed, failed, cleaning⟩ := h
    simp only [Control.next] at hs
    split_ifs at hs <;> cases hs <;> constructor <;>
      grind -linarith [SpawnerPc.early, JobPc.holdsCell, JobPc.armed, JobPc.running,
        Outcome.failed]

/-- Whoever drops the cell is the first to do so, and the scope cannot have ended. -/
theorem dropping {e : Event} (h : Inv c spent) (hs : c.next e = some (c', .dropCell)) :
    spent = false ∧ (c.spawner = .returned → c.obligation = .guard) := by
  cases e with
  | job =>
    have hholds := holdsCell_of_jobStep hs
    refine ⟨(h.holds hholds).1, fun _ => h.armed ?_⟩
    unfold JobPc.armed
    split <;> first | rfl | exact hholds
  | dropCell =>
    simp only [Control.next] at hs
    split_ifs at hs with hpc
    exact ⟨(h.cleaning hpc).1, fun hreturned => absurd (hreturned.symm.trans hpc) (by decide)⟩
  | other e => cases hs
  | _ =>
    simp only [Control.next] at hs
    split_ifs at hs <;> cases hs

end Inv

/-- The scope may end, as far as this spawn is concerned. -/
def Over (c : Control) : Prop := c.spawner = .returned ∧ c.obligation ≠ .guard

/-- Nobody takes a guard after the spawner has returned. -/
theorem Over.next {e : Event} {effect : Effect} (h : Over c)
    (hs : c.next e = some (c', effect)) : Over c' := by
  obtain ⟨hreturned, hguard⟩ := h
  unfold Over
  cases e with
  | job =>
    simp only [Control.next, Control.jobStep] at hs
    split at hs
    all_goals
      try split_ifs at hs
      all_goals cases hs
    all_goals grind
  | other e => cases hs
  | _ =>
    simp only [Control.next] at hs
    split_ifs at hs <;> cases hs <;> grind

end Control

/-! ## With the arena -/

/-- A step that does not drop the arena keeps the objects that it does not drop. -/
theorem mem_live_of_step {node : NodeLayout} {t t' : Tenants} {e : ArenaEvent} {o : Object}
    (hs : ArenaStep node t e t') (hne : e ≠ .drop) (ho : o ∈ t.live)
    (hother : ∀ layout, e ≠ .dropObject o.ptr layout) : o ∈ t'.live := by
  cases hs with
  | refused => exact ho
  | alloc => exact List.mem_cons_of_mem _ ho
  | @dropObject before after o' a ran _ hlive _ _ =>
    rw [hlive] at ho
    rcases List.mem_append.mp ho with ho | ho
    · exact List.mem_append_left _ ho
    · rcases List.mem_cons.mp ho with rfl | ho
      · exact absurd rfl (hother o.layout)
      · exact List.mem_append_right _ ho
  | write => exact ho
  | drop => exact absurd rfl hne

theorem ended_of_step {node : NodeLayout} {t t' : Tenants} {e : ArenaEvent}
    (hs : ArenaStep node t e t') (hne : e ≠ .drop) : t'.ended = t.ended := by
  cases hs with
  | drop => exact absurd rfl hne
  | _ => rfl

namespace RoutedSpawn

variable {node : NodeLayout} {s s' : RoutedSpawn} {e : Event}

/-- The arena has the cell until it is dropped, which happens once and before the end of the
scope. -/
structure Inv (node : NodeLayout) (s : RoutedSpawn) : Prop where
  control : s.control.Inv (!s.drops.isEmpty)
  once : s.DroppedOnce
  reached : ∃ nodes, Run (ArenaStep node) (Provided node) (fun t => t = Tenants.new nodes) s.tenants
  destructor : ∀ o, s.cell = some o → o.dropFn ≠ none
  kept : ∀ o, s.cell = some o → s.drops = [] → s.tenants.ended = false → o ∈ s.tenants.live
  finished : s.tenants.ended = true → s.control.Over

theorem Init.inv (h : s.Init node) : Inv node s := by
  obtain ⟨hcontrol, hcell, hdrops, hended, hreached⟩ := h
  refine ⟨?_, .inl hdrops, hreached, fun o ho => ?_, fun o ho => ?_, fun hend => ?_⟩
  · rw [hcontrol, hdrops]
    exact Control.Inv.start
  · exact absurd (hcell.symm.trans ho) (Option.some_ne_none o).symm
  · exact absurd (hcell.symm.trans ho) (Option.some_ne_none o).symm
  · exact absurd (hended.symm.trans hend) (by decide)

/-- Whoever drops the cell finds it in the arena. -/
theorem Inv.dropping (h : Inv node s) {control : Control}
    (hs : s.control.next e = some (control, .dropCell)) :
    s.drops = [] ∧ s.tenants.ended = false := by
  obtain ⟨hspent, hguard⟩ := h.control.dropping hs
  refine ⟨?_, ?_⟩
  · cases hdrops : s.drops with
    | nil => rfl
    | cons b bs =>
      rw [hdrops] at hspent
      exact Bool.noConfusion hspent
  · cases hended : s.tenants.ended with
    | false => rfl
    | true => exact absurd (hguard (h.finished hended).1) (h.finished hended).2

theorem Inv.step (h : Inv node s) (hlate : s.Late e) (hs : Step node s e s') : Inv node s' := by
  have hcontrol : ∀ {control : Control} {effect : Effect},
      s.control.next e = some (control, effect) →
      control.Inv (!s.drops.isEmpty || effect == .dropCell) := by
    refine fun hnext => h.control.next (fun he hfails hspent => hlate he hfails ?_) hnext
    rintro hdrops
    rw [hdrops] at hspent
    exact absurd hspent (by decide)
  cases hs with
  | quiet hnext =>
    have hinv := hcontrol hnext
    rw [show (Effect.quiet == Effect.dropCell) = false from rfl, Bool.or_false] at hinv
    exact ⟨hinv, h.once, h.reached, h.destructor, h.kept, fun hend => (h.finished hend).next hnext⟩
  | @allocCell layout dropFn ptr c p chunk control a hnext hopen hprovided halloc =>
    have hinv := hcontrol hnext
    rw [show (Effect.allocCell == Effect.dropCell) = false from rfl, Bool.or_false] at hinv
    obtain ⟨nodes, hrun⟩ := h.reached
    refine ⟨hinv, h.once, ⟨nodes, hrun.next _ hprovided (.alloc hopen halloc)⟩, ?_, ?_,
      fun hend => absurd (hopen.symm.trans hend) (by decide)⟩
    · rintro _ ⟨⟩
      exact Option.some_ne_none dropFn
    · rintro _ ⟨⟩ - -
      exact List.mem_cons_self
  | @dropCell _ control before after o a ran hnext hcell hlive hdrop =>
    obtain ⟨hdrops, hopen⟩ := h.dropping hnext
    have hinv := hcontrol hnext
    rw [show (Effect.dropCell == Effect.dropCell) = true from rfl, Bool.or_true] at hinv
    obtain ⟨nodes, hrun⟩ := h.reached
    refine ⟨?_, .inr ?_, ⟨nodes, hrun.next (.dropObject o.ptr o.layout) trivial
      (.dropObject hopen hlive (h.destructor o hcell) hdrop)⟩, h.destructor, fun _ _ hnone => ?_,
      fun hend => absurd (hopen.symm.trans hend) (by decide)⟩
    · rw [hdrops]
      exact hinv
    · rw [hdrops]
      rfl
    · exact absurd hnone (List.append_ne_nil_of_right_ne_nil _ (List.cons_ne_nil _ _))
  | misdrop hnext hcell hgone =>
    obtain ⟨hdrops, hopen⟩ := h.dropping hnext
    exact absurd (h.kept _ hcell hdrops hopen) hgone
  | endScope hnext hdrop =>
    have hinv := hcontrol hnext
    rw [show (Effect.endScope == Effect.dropCell) = false from rfl, Bool.or_false] at hinv
    have hover : s.control.Over := by
      simp only [Control.next] at hnext
      split_ifs at hnext with hpc
      exact ⟨hpc.1, hpc.2.1⟩
    obtain ⟨nodes, hrun⟩ := h.reached
    refine ⟨hinv, h.once, ⟨nodes, hrun.next .drop trivial hdrop⟩, h.destructor, ?_,
      fun _ => hover.next hnext⟩
    cases hdrop with
    | drop => exact fun _ _ _ hopen => Bool.noConfusion hopen
  | @other e t hother hne hprovided hstep =>
    obtain ⟨nodes, hrun⟩ := h.reached
    refine ⟨h.control, h.once, ⟨nodes, hrun.next _ hprovided hstep⟩, h.destructor, ?_, ?_⟩
    · intro o hcell hdrops hopen
      rw [ended_of_step hstep hne] at hopen
      exact mem_live_of_step hstep hne (h.kept o hcell hdrops hopen) fun layout =>
        hother o layout hcell
    · intro hend
      rw [ended_of_step hstep hne] at hend
      exact h.finished hend

/-- **The cell is dropped at most once.**  In every run in which the closure, once it has
dropped the cell, stores a failed outcome only after the spawner has looked for one, there is
at most one call of `drop_object_raw` for the cell, and it finds the cell in the arena.  Until
then, and until the scope ends, the chunk of the cell has not been freed. -/
theorem cell_dropped_once (h : Run (Step node) Late (Init node) s) :
    s.DroppedOnce ∧ ∀ o, s.cell = some o → s.drops = [] → s.tenants.ended = false →
      o ∈ s.tenants.live ∧ ∃ chunk, s.tenants.arena.boxes o.chunk = some chunk := by
  have hinv : Inv node s :=
    h.invariant (fun _ hinit => hinit.inv) fun _ _ _ hinv hlate hs => hinv.step hlate hs
  refine ⟨hinv.once, fun o hcell hdrops hopen => ?_⟩
  have hlive := hinv.kept o hcell hdrops hopen
  obtain ⟨nodes, hrun⟩ := hinv.reached
  obtain ⟨-, -, chunk, hchunk, -⟩ := ((arena_sound hrun).1 hopen).placed o hlive
  exact ⟨hlive, chunk, hchunk⟩

/-- A cell at 4152 in the only chunk of an arena, about to be routed.  The arena holds a
reference to the chunk, its active one, besides that of the cell; a second drop of the cell
frees it. -/
theorem about_to_dispatch : ∃ (node : NodeLayout) (s : RoutedSpawn) (o : Object) (a b : Arena)
    (r r' : Option (Nat × Nat)), Run (Step node) Late (Init node) s ∧
      s.control = ⟨.dispatch, .absent, .none, false, true, .guard⟩ ∧ s.cell = some o ∧
      s.drops = [] ∧ s.tenants.live = [o] ∧
      s.tenants.arena.dropObject node o.ptr o.layout = some (a, r) ∧
      a.dropObject node o.ptr o.layout = some (b, r') ∧ b.boxes o.chunk = none ∧
      b.activeChunk = some o.chunk := by
  let node : NodeLayout := ⟨⟨56, 8, ⟨3, by decide, rfl⟩, by decide⟩, by decide⟩
  let layout : Layout := ⟨24, 8, ⟨3, by decide, rfl⟩, by decide⟩
  let fresh := Tenants.new fun _ => DropNode.garbage
  have hstart : Run (Step node) Late (Init node) ⟨.start, fresh, none, []⟩ :=
    .start ⟨rfl, rfl, rfl, rfl, _, .start rfl⟩
  have hsize : (node.toLayout.extend layout).map (fun r => Arena.chunkSize r.1) = some 8192 := by
    decide +kernel
  have hprovided : Provided node fresh (.alloc layout (some 7) 4096 1) := by
    refine ⟨by decide, rfl, fun total htotal => ?_⟩
    obtain ⟨⟨total', offset⟩, hfound, htotal⟩ := Option.map_eq_some_iff.mp htotal
    obtain rfl : total' = total := htotal
    rw [hfound] at hsize
    have hchunk : Arena.chunkSize total' = 8192 := Option.some.inj hsize
    rw [hchunk]
    exact ⟨by decide, by decide, by decide,
      fun c chunk hc => absurd hc.symm (Option.some_ne_none _)⟩
  have hresult : ((fresh.arena.alloc node layout (some 7) 4096 1).bind fun r =>
      (r.1.dropObject node 4152 layout).bind fun q =>
        (q.1.dropObject node 4152 layout).map fun z =>
          (r.2, (z.1.boxes 1).isNone, z.1.activeChunk)) =
      some (some (4152, 1), true, some 1) := by
    decide +kernel
  obtain ⟨⟨arena, found⟩, halloc, hresult⟩ := Option.bind_eq_some_iff.mp hresult
  obtain ⟨⟨a, r⟩, hfirst, hresult⟩ := Option.bind_eq_some_iff.mp hresult
  obtain ⟨⟨b, r'⟩, hsecond, hresult⟩ := Option.map_eq_some_iff.mp hresult
  obtain ⟨hfound, hfreed, hactive⟩ :
      found = some (4152, 1) ∧ (b.boxes 1).isNone = true ∧ b.activeChunk = some 1 := by
    simpa only [Prod.mk.injEq] using hresult
  rw [hfound] at halloc
  have hquiet : ∀ e, e ≠ Event.job → ∀ t, Late t e := fun e he t heq => absurd heq he
  have hrun := ((hstart.next (.validate true) (hquiet _ Event.noConfusion _) (.quiet rfl)).next
    .newGuard (hquiet _ Event.noConfusion _) (.quiet rfl)).next (.allocCell layout 7 4096 1)
    (hquiet _ Event.noConfusion _) (.allocCell rfl rfl hprovided halloc)
  exact ⟨node, _, ⟨4152, layout, some 7, 1⟩, a, b, r, r', hrun, rfl, rfl, rfl, rfl, hfirst, hsecond,
    Option.isNone_iff_eq_none.mp hfreed, hactive⟩

/-- The steps that touch nothing but the two sides, one after the other. -/
def quietly (c : Control) : List Event → Option Control
  | [] => some c
  | e :: es =>
      match c.next e with
      | some (c, .quiet) => quietly c es
      | _ => none

theorem run_quietly {allowed : RoutedSpawn → Event → Prop} (es : List Event) {c : Control}
    (h : Run (Step node) allowed (Init node) s) (hallowed : ∀ e ∈ es, ∀ t, allowed t e)
    (hes : quietly s.control es = some c) :
    Run (Step node) allowed (Init node) { s with control := c } := by
  induction es generalizing s with
  | nil =>
    cases hes
    exact h
  | cons e es ih =>
    unfold quietly at hes
    split at hes
    · rename_i c₁ hnext
      have h₁ := h.next e (hallowed e List.mem_cons_self s) (.quiet hnext)
      exact ih (s := { s with control := c₁ }) h₁
        (fun e he => hallowed e (List.mem_cons_of_mem _ he)) hes
    · cases hes

/-- A closure that is not delivered: the spawner drops the cell. -/
theorem cell_dropped_once_unrouted : ∃ (node : NodeLayout) (s : RoutedSpawn),
    Run (Step node) Late (Init node) s ∧ s.drops = [true] ∧ s.DroppedOnce := by
  obtain ⟨node, s, o, a, b, r, r', hrun, hcontrol, hcell, hdrops, hlive, hdrop, -⟩ :=
    about_to_dispatch
  have hchecked := run_quietly [.dispatch false, .check] hrun
    (fun e he t heq => absurd heq (by rintro rfl; simp at he)) (by rw [hcontrol]; rfl)
  have hdropped := hchecked.next .dropCell (fun heq => Event.noConfusion heq)
    (.dropCell rfl hcell (hlive.trans (List.nil_append [o]).symm) hdrop)
  refine ⟨node, _, hdropped, ?_, (cell_dropped_once hdropped).1⟩
  show s.drops ++ [true] = [true]
  rw [hdrops]
  rfl

/-- The worker takes the job, drops its cell and finds its queue full; the spawner then sees
the failed outcome and drops the cell again.  This frees the active chunk of the arena. -/
theorem cell_dropped_twice : ∃ (node : NodeLayout) (s : RoutedSpawn) (o : Object),
    Run (Step node) Always (Init node) s ∧ s.drops = [true, false] ∧ ¬ s.DroppedOnce ∧
      s.cell = some o ∧ s.tenants.arena.boxes o.chunk = none ∧
      s.tenants.arena.activeChunk = some o.chunk := by
  obtain ⟨node, s, o, a, b, r, r', hrun, hcontrol, hcell, hdrops, hlive, hdrop, hagain, hfreed,
    hactive⟩ := about_to_dispatch
  have htaken := run_quietly [.dispatch true, .run, .job, .job, .job]
    (hrun.mono fun _ _ _ => trivial) (fun _ _ _ => trivial) (by rw [hcontrol]; rfl)
  have hdropped := htaken.next .job trivial
    (.dropCell rfl hcell (hlive.trans (List.nil_append [o]).symm) hdrop)
  have hfailed := run_quietly
    [.job, .allocNode true, .job, .enqueue .abortedAcknowledged, .job, .job, .check]
    hdropped (fun _ _ _ => trivial) rfl
  have htwice := hfailed.next .dropCell trivial (.misdrop rfl hcell List.not_mem_nil)
  have hdrops' : s.drops ++ [true] ++ [false] = [true, false] := by
    rw [hdrops]
    rfl
  have harena : (misdrop node { s.tenants with
      arena := a, live := [] ++ [], ran := r.toList ++ s.tenants.ran } o).arena = b := by
    unfold misdrop
    simp only [hagain]
  refine ⟨node, _, o, htwice, hdrops', ?_, hcell, ?_, ?_⟩
  · unfold DroppedOnce
    show ¬ (s.drops ++ [true] ++ [false] = [] ∨ s.drops ++ [true] ++ [false] = [true])
    rw [hdrops']
    decide
  · exact (congrArg (fun arena => arena.boxes o.chunk) harena).trans hfreed
  · exact (congrArg Arena.activeChunk harena).trans hactive

end RoutedSpawn

end Veloq.Runtime.RoutedCell
