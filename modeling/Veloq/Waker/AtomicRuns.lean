import Veloq.Waker.AtomicSteps
set_option autoImplicit false

/-!
# Waker: careful runs of an atomic waker never mix wakers

What `take` returns and what `register` drops is one of the wakers that were registered, as a
whole, and no clone is consumed twice.  A registration that no other one overlaps leaves its
waker to the next `wake`, unless a wake-up that it overlaps has got hold of it, or has had it
woken, before.  A `register` call that clears the data of another one shows that care is
needed.
-/

namespace Veloq.Waker

open Veloq.Foundation

/-- A `take` call that has got hold of a waker. -/
def WakerPc.hands : WakerPc → Bool
  | takeData _ | takeClear _ _ | takeReset _ _ => true
  | _ => false

theorem WakerPc.busy_of_hands {pc : WakerPc} (h : pc.hands = true) : pc.busy = true := by
  cases pc <;> simp_all [hands, busy]

namespace AtomicWaker

variable {s s' s₀ : AtomicWaker} {f g : Nat} {w : RawWaker}

namespace Inv

/-! ## Steps and runs -/

theorem advance (h : s.Inv) (hcare : Careful s (f, .advance)) (hs : s.advance f = some s') :
    s'.Inv := by
  have hcare := hcare rfl
  unfold AtomicWaker.advance at hs
  cases hpc : (s.tasks f).pc <;> simp only [hpc] at hs hcare
  case cachedVtable => cases hs; exact h.move hpc rfl rfl rfl nofun trivial fun _ => rfl
  case cachedData seen => cases hs; exact h.loadCachedData hpc
  case quick => cases hs; exact h.quickCheck hpc
  case load => cases hs; exact h.turn hpc rfl rfl rfl s.vtable
  case acquire seen => cases hs; exact h.tryAcquire hpc
  case replace old => cases hs; exact h.dropOld hpc
  case store old => cases hs; exact h.storeData hpc
  case publish old => cases hs; exact h.tryPublish hpc
  case cacheVtable => cases hs; exact h.storeCachedVtable hpc hcare
  case cacheData => cases hs; exact h.storeCachedData hpc hcare
  case resetVtable => cases hs; exact h.resetVtable hpc
  case resetData => cases hs; exact h.resetData hpc hcare
  case clearVtable => cases hs; exact h.clearCachedVtable hpc
  case clearData => cases hs; exact h.clearCachedData hpc hcare
  case wakeOwn => cases hs; exact h.wakeOwn hpc
  case takeLoad => cases hs; exact h.takeTurn hpc rfl rfl s.vtable
  case takeMark seen => cases hs; exact h.mark hpc
  case takeClaim seen => cases hs; exact h.claim hpc
  case takeData old => cases hs; exact h.takeData hpc
  case takeClear old data => cases hs; exact h.takeClear hpc
  case takeReset old data => cases hs; exact h.takeReset hpc
  all_goals exact absurd hs (by simp)

/-- Every careful step keeps the invariant. -/
theorem step (h : s.Inv) {e : Nat × WakerAction} (hcare : Careful s e) (hs : WakerStep s e s') :
    s'.Inv := by
  obtain ⟨f, a⟩ := e
  unfold WakerStep AtomicWaker.step at hs
  split at hs
  case h_1 hpc _ => cases hs; exact h.register hpc _
  case h_2 hpc _ => cases hs; exact h.move hpc rfl rfl rfl nofun trivial nofun
  case h_3 ha => exact h.advance (ha ▸ hcare) hs
  case h_4 => exact absurd hs (by simp)

theorem initial : Inv AtomicWaker.new := by
  refine ⟨⟨nofun, fun _ _ => rfl, fun _ => rfl, nofun⟩, fun _ _ => rfl, fun _ => trivial, nofun,
    nofun, ?_, ?_, nofun, List.nodup_nil, nofun, nofun, Or.inl nofun⟩
  · rintro g old (hg | hg) <;> exact absurd hg (by simp [AtomicWaker.new])
  · rintro g old data (hg | hg) <;> exact absurd hg (by simp [AtomicWaker.new])

theorem of_run (h : Run WakerStep Careful (· = AtomicWaker.new) s) : s.Inv :=
  h.invariant (fun _ hs => by rw [hs]; exact initial) fun _ _ _ hinv hcare hs =>
    hinv.step hcare hs

end Inv

/-! ## The steps of `take` -/

/-- What a step of `take` by call `g` can be. -/
inductive Taking (s : AtomicWaker) (g : Nat) : AtomicWaker → Prop where
  | quiet (pc : WakerPc) : (s.tasks g).pc.hands = false → pc.hands = false →
      pc.registers = false → Taking s g (s.goto g pc)
  | mark : (s.tasks g).pc.hands = false → s.vtable.tag = .registering →
      Taking s g { s.goto g .gone with vtable := { s.vtable with tag := .waking } }
  | claim : (s.tasks g).pc.hands = false →
      Taking s g
        { s.goto g (.takeData s.vtable.ptr) with vtable := { s.vtable with tag := .waking } }
  | read (old : Option Nat) : (s.tasks g).pc = .takeData old →
      Taking s g (s.goto g (.takeClear old s.data))
  | clear (old : Option Nat) (data : Slot) : (s.tasks g).pc = .takeClear old data →
      Taking s g (s.takeClear g old data)
  | reset (old : Option Nat) (data : Slot) : (s.tasks g).pc = .takeReset old data →
      Taking s g (s.takeReset g old data)

namespace Taking

theorem of_takeTurn (hpc : (s.tasks g).pc.hands = false) (seen : Word) :
    Taking s g (s.takeTurn g seen) := by
  unfold AtomicWaker.takeTurn
  split <;> exact quiet _ hpc rfl rfl

theorem of_step (h : s.Inv) {a : WakerAction} (hpc : (s.tasks g).pc.registers = false)
    (ha : ∀ w, a ≠ .register w) (hs : s.step (g, a) = some s') : Taking s g s' := by
  unfold AtomicWaker.step at hs
  split at hs
  case h_1 hregister => exact absurd hregister (ha _)
  case h_2 hfresh _ => cases hs; exact quiet _ (by rw [hfresh]; rfl) rfl rfl
  case h_4 => exact absurd hs (by simp)
  case h_3 =>
    have hproper := h.proper g
    unfold AtomicWaker.advance at hs
    cases hg : (s.tasks g).pc <;> simp only [hg] at hs hpc hproper
    case takeLoad => cases hs; exact of_takeTurn (by rw [hg]; rfl) _
    case takeMark seen =>
      cases hs
      unfold AtomicWaker.mark
      split
      · rename_i hseen
        rw [← hseen] at hproper ⊢
        exact mark (by rw [hg]; rfl) hproper
      · exact of_takeTurn (by rw [hg]; rfl) _
    case takeClaim seen =>
      cases hs
      unfold AtomicWaker.claim
      split
      · rename_i hseen
        rw [← hseen]
        exact claim (by rw [hg]; rfl)
      · exact of_takeTurn (by rw [hg]; rfl) _
    case takeData old => cases hs; exact read old hg
    case takeClear old data => cases hs; exact clear old data hg
    case takeReset old data => cases hs; exact reset old data hg
    case fresh | gone => exact absurd hs (by simp)
    all_goals exact absurd hpc (by simp [WakerPc.registers])

/-- A step of `take` leaves everybody else and the cached copy alone. -/
theorem frame (h : Taking s g s') :
    (∀ i, i ≠ g → s'.tasks i = s.tasks i) ∧ (s'.tasks g).pc.registers = false ∧
      s'.cachedVtable = s.cachedVtable ∧ s'.cachedData = s.cachedData ∧
      ∀ e ∈ s.log, e ∈ s'.log := by
  have hself : ∀ pc : WakerPc, pc.registers = false →
      ((s.goto g pc).tasks g).pc.registers = false := by
    intro pc hpc
    rw [goto_self]
    exact hpc
  cases h with
  | quiet pc hpc hpc' hreg => exact ⟨fun i hi => goto_of_ne hi, hself pc hreg, rfl, rfl, fun _ he => he⟩
  | mark hpc htag => exact ⟨fun i hi => goto_of_ne hi, hself _ rfl, rfl, rfl, fun _ he => he⟩
  | claim hpc => exact ⟨fun i hi => goto_of_ne hi, hself _ rfl, rfl, rfl, fun _ he => he⟩
  | read old hpc => exact ⟨fun i hi => goto_of_ne hi, hself _ rfl, rfl, rfl, fun _ he => he⟩
  | clear old data hpc => exact ⟨fun i hi => goto_of_ne hi, hself _ rfl, rfl, rfl, fun _ he => he⟩
  | reset old data hpc => exact ⟨fun i hi => goto_of_ne hi, hself _ rfl, rfl, rfl, fun _ he => List.mem_cons_of_mem _ he⟩

end Taking

/-! ## What becomes of a registered waker -/

/-- `w` is what the next `take` finds. -/
def Registered (s : AtomicWaker) (w : RawWaker) : Prop :=
  s.vtable = { ptr := some w.vtable, tag := .registered } ∧ s.data.ptr = w.data

/-- Call `g` has got hold of `w` and is going to return it. -/
def Holds (s : AtomicWaker) (w : RawWaker) (g : Nat) : Prop :=
  match (s.tasks g).pc with
  | .takeData old => old = some w.vtable ∧ s.data.ptr = w.data
  | .takeClear old data | .takeReset old data => old = some w.vtable ∧ data.ptr = w.data
  | _ => False

/-- `w` is registered, or a `take` has got hold of it, or has returned it as one of the events
`new`. -/
def Kept (s : AtomicWaker) (new : List Signal) (w : RawWaker) : Prop :=
  s.Registered w ∨ (∃ g, s.Holds w g) ∨ ∃ data, .taken (some w.vtable) data ∈ new ∧ data.ptr = w.data

theorem Holds.hands (h : s.Holds w g) : (s.tasks g).pc.hands = true := by
  unfold Holds at h
  split at h <;> simp_all [WakerPc.hands]

namespace Kept

variable {new : List Signal}

/-- A call without a waker in its hands goes on, and leaves the slot alone. -/
theorem move (h : s.Kept new w) (hpc : (s.tasks f).pc.hands = false)
    (hothers : ∀ g, g ≠ f → s'.tasks g = s.tasks g) (hvtable : s'.vtable = s.vtable)
    (hdata : s'.data = s.data) : s'.Kept new w := by
  rcases h with hreg | ⟨g, hg⟩ | htaken
  · left
    unfold Registered at hreg ⊢
    rw [hvtable, hdata]
    exact hreg
  · have hne : g ≠ f := by
      rintro rfl
      exact absurd (hg.hands.symm.trans hpc) (by simp)
    right; left
    refine ⟨g, ?_⟩
    unfold Holds at hg ⊢
    rw [hothers g hne, hdata]
    exact hg
  · exact Or.inr (Or.inr htaken)

/-- A `take` passes it on. -/
theorem taking (hinv : s.Inv) (h : s.Kept new w) (hstep : Taking s g s') :
    ∃ more, s'.log = more ++ s.log ∧ s'.Kept (more ++ new) w := by
  have hbusy : ∀ i, s.Holds w i → (s.tasks i).pc.busy = true :=
    fun i hi => WakerPc.busy_of_hands hi.hands
  cases hstep with
  | quiet pc hpc _ _ => exact ⟨[], rfl, h.move hpc (fun i hi => goto_of_ne hi) rfl rfl⟩
  | mark hpc htag =>
    refine ⟨[], rfl, ?_⟩
    rcases h with ⟨hreg, -⟩ | hhold
    · rw [hreg] at htag
      exact absurd htag (by simp)
    · have hkept : (s.goto g .gone).Kept new w :=
        move (s := s) (Or.inr hhold) hpc (fun i hi => goto_of_ne hi) rfl rfl
      -- the tag is not that of a registered waker, before or after
      refine Or.inr (hkept.resolve_left ?_)
      rintro ⟨hreg, -⟩
      rw [show s.vtable = _ from hreg] at htag
      exact absurd htag (by simp)
  | claim hpc =>
    refine ⟨[], rfl, ?_⟩
    rcases h with ⟨hreg, hdata⟩ | ⟨i, hi⟩ | htaken
    · refine Or.inr (Or.inl ⟨g, ?_⟩)
      unfold Holds
      rw [goto_self, hreg]
      exact ⟨rfl, hdata⟩
    · have hne : i ≠ g := by
        rintro rfl
        exact absurd (hi.hands.symm.trans hpc) (by simp)
      refine Or.inr (Or.inl ⟨i, ?_⟩)
      unfold Holds at hi ⊢
      rw [goto_of_ne hne]
      exact hi
    · exact Or.inr (Or.inr htaken)
  | read old hpc =>
    refine ⟨[], rfl, ?_⟩
    rcases h with hreg | ⟨i, hi⟩ | htaken
    · exact Or.inl hreg
    · refine Or.inr (Or.inl ⟨i, ?_⟩)
      obtain rfl := hinv.locked.exclusive i g (hbusy i hi) (by rw [hpc]; rfl)
      unfold Holds at hi ⊢
      rw [hpc] at hi
      rw [goto_self]
      exact hi
    · exact Or.inr (Or.inr htaken)
  | clear old data hpc =>
    refine ⟨[], rfl, ?_⟩
    rcases h with ⟨hreg, -⟩ | ⟨i, hi⟩ | htaken
    · have hnot := (hinv.locked.not_free (f := g) (by rw [hpc]; rfl)).2
      rw [hreg] at hnot
      exact absurd rfl hnot
    · refine Or.inr (Or.inl ⟨i, ?_⟩)
      obtain rfl := hinv.locked.exclusive i g (hbusy i hi) (by rw [hpc]; rfl)
      have hself : (s.takeClear i old data).tasks i = { s.tasks i with pc := .takeReset old data } :=
        goto_self
      unfold Holds at hi ⊢
      rw [hpc] at hi
      rw [hself]
      exact hi
    · exact Or.inr (Or.inr htaken)
  | reset old data hpc =>
    refine ⟨[.taken old data], rfl, ?_⟩
    rcases h with ⟨hreg, -⟩ | ⟨i, hi⟩ | ⟨data', hmem, hdata⟩
    · have hnot := (hinv.locked.not_free (f := g) (by rw [hpc]; rfl)).2
      rw [hreg] at hnot
      exact absurd rfl hnot
    · obtain rfl := hinv.locked.exclusive i g (hbusy i hi) (by rw [hpc]; rfl)
      unfold Holds at hi
      rw [hpc] at hi
      obtain ⟨rfl, hdata⟩ := hi
      exact Or.inr (Or.inr ⟨data, List.mem_append_left _ (List.mem_singleton_self _), hdata⟩)
    · exact Or.inr (Or.inr ⟨data', List.mem_append_right _ hmem, hdata⟩)

end Kept

/-- A `take` that runs by itself returns the registered waker. -/
theorem Registered.take (h : s.Registered w) (hg : (s.tasks g).pc = .fresh) :
    ∃ s', replay AtomicWaker.step (fun _ _ => true) s
        ((g, .take) :: List.replicate 5 (g, .advance)) = some s' ∧
      s'.log = .taken (some w.vtable) s.data :: s.log := by
  obtain ⟨hvtable, -⟩ := h
  refine ⟨(((s.goto g .takeLoad).takeTurn g s.vtable).claim g s.vtable |>.goto g
    (.takeClear s.vtable.ptr s.data)).takeClear g s.vtable.ptr s.data |>.takeReset g
      s.vtable.ptr s.data, ?_, ?_⟩
  · simp [replay, AtomicWaker.step, AtomicWaker.advance, hg, hvtable, AtomicWaker.takeTurn,
      AtomicWaker.claim, AtomicWaker.takeClear, AtomicWaker.takeReset, AtomicWaker.goto,
      List.replicate]
  · simp [hvtable, AtomicWaker.takeTurn, AtomicWaker.claim, AtomicWaker.takeClear,
      AtomicWaker.takeReset, AtomicWaker.goto]

/-! ## A registration that no other one overlaps -/

/-- A careful step, and no `register` call begins. -/
def Lone (s : AtomicWaker) (e : Nat × WakerAction) : Prop :=
  s.Careful e ∧ ∀ w, e.2 ≠ .register w

/-- Since the call `register(w)` that `s₀` begins with, `w` has been the registered waker, and
from then on it has stayed so until a `take` got hold of it. -/
def Delivered (s₀ s : AtomicWaker) (w : RawWaker) : Prop :=
  ∃ s₁ new, Run WakerStep Lone (· = s₀) s₁ ∧ s₁.Registered w ∧
    Run WakerStep Lone (· = s₁) s ∧ s.log = new ++ s₁.log ∧ s.Kept new w

/-- What the call `register(w)` of `f` has achieved when it comes to a place. -/
def Stage (s₀ s : AtomicWaker) (f : Nat) (w : RawWaker) : WakerPc → Prop
  | .cachedVtable | .load | .acquire _ | .replace _ | .store _ | .publish _ | .resetVtable
  | .resetData | .clearVtable | .clearData | .wakeOwn => True
  | .cachedData seen => seen = s.cachedVtable
  | .quick => s.cachedVtable = some w.vtable ∧ s.cachedData = w.data
  | .cacheVtable | .cacheData => Delivered s₀ s w
  | .gone => Delivered s₀ s w ∨ .woken f ∈ s.log ∨ .byRef f ∈ s.log
  | .fresh | .takeLoad | .takeMark _ | .takeClaim _ | .takeData _ | .takeClear _ _
  | .takeReset _ _ => False

/-- Call `f` is the only `register` call in progress. -/
structure Alone (s₀ s : AtomicWaker) (f : Nat) (w : RawWaker) : Prop where
  inv : s.Inv
  run : Run WakerStep Lone (· = s₀) s
  arg : (s.tasks f).arg = some w
  others : ∀ g, g ≠ f → (s.tasks g).pc.registers = false
  stage : Stage s₀ s f w (s.tasks f).pc

theorem Delivered.now (hrun : Run WakerStep Lone (· = s₀) s) (h : s.Registered w) :
    Delivered s₀ s w :=
  ⟨s, [], hrun, h, .start rfl, rfl, Or.inl h⟩

/-- The call `f` goes on, and leaves the slot and the log alone. -/
theorem Delivered.move {e : Nat × WakerAction} (h : Delivered s₀ s w) (he : Lone s e)
    (hs : WakerStep s e s') (hpc : (s.tasks f).pc.hands = false)
    (hothers : ∀ g, g ≠ f → s'.tasks g = s.tasks g) (hvtable : s'.vtable = s.vtable)
    (hdata : s'.data = s.data) (hlog : s'.log = s.log) : Delivered s₀ s' w := by
  obtain ⟨s₁, new, hrun, hreg, hrun', hnew, hkept⟩ := h
  exact ⟨s₁, new, hrun, hreg, hrun'.next e he hs, hlog.trans hnew,
    hkept.move hpc hothers hvtable hdata⟩

theorem Delivered.taking {e : Nat × WakerAction} (h : Delivered s₀ s w) (hinv : s.Inv)
    (he : Lone s e) (hs : WakerStep s e s') (hstep : Taking s g s') : Delivered s₀ s' w := by
  obtain ⟨s₁, new, hrun, hreg, hrun', hnew, hkept⟩ := h
  obtain ⟨more, hmore, hkept'⟩ := hkept.taking hinv hstep
  refine ⟨s₁, more ++ new, hrun, hreg, hrun'.next e he hs, ?_, hkept'⟩
  rw [hmore, hnew, List.append_assoc]

namespace Alone

/-- A `take` goes on. -/
theorem taking (h : Alone s₀ s f w) {e : Nat × WakerAction} (he : Lone s e)
    (hs : WakerStep s e s') (hne : e.1 ≠ f) : Alone s₀ s' f w := by
  have hstep := Taking.of_step h.inv (h.others e.1 hne) he.2 hs
  obtain ⟨hothers, hregisters, hcachedVtable, hcachedData, hlog⟩ := hstep.frame
  have hf : s'.tasks f = s.tasks f := hothers f hne.symm
  refine ⟨h.inv.step he.1 hs, h.run.next e he hs, by rw [hf]; exact h.arg, fun g hg => ?_, ?_⟩
  · by_cases hge : g = e.1
    · rw [hge]
      exact hregisters
    · rw [hothers g hge]
      exact h.others g hg
  · have hstage := h.stage
    have hdelivered : Delivered s₀ s w → Delivered s₀ s' w :=
      fun hd => hd.taking h.inv he hs hstep
    rw [hf]
    unfold Stage at hstage ⊢
    rw [hcachedVtable, hcachedData]
    cases hpc : (s.tasks f).pc <;> simp only [hpc] at hstage ⊢
    case cachedData => exact hstage
    case quick => exact hstage
    case cacheVtable => exact hdelivered hstage
    case cacheData => exact hdelivered hstage
    case gone => exact hstage.imp hdelivered (Or.imp (hlog _) (hlog _))

/-- The call `f` itself goes on to `pc`. -/
theorem own (h : Alone s₀ s f w) {e : Nat × WakerAction} {pc : WakerPc} (he : Lone s e)
    (hs : WakerStep s e s') (htasks : s'.tasks = (s.goto f pc).tasks)
    (hstage : Stage s₀ s' f w pc) : Alone s₀ s' f w := by
  refine ⟨h.inv.step he.1 hs, h.run.next e he hs, ?_, fun g hg => ?_, by rw [htasks, goto_self]; exact hstage⟩
  · rw [htasks, goto_self]
    exact h.arg
  · rw [htasks, goto_of_ne hg]
    exact h.others g hg

/-- A turn of the loop ends the call only where a wake-up is going on. -/
theorem turn (h : Alone s₀ s f w) {e : Nat × WakerAction} (he : Lone s e)
    (hs : WakerStep s e (s.turn f s.vtable)) (hpc : (s.tasks f).pc.holding = false) :
    Alone s₀ (s.turn f s.vtable) f w := by
  have hnot : s.vtable.tag ≠ .registering := by
    intro htag
    obtain ⟨g, hg⟩ := h.inv.locked.held htag
    by_cases hne : g = f
    · rw [hne, hpc] at hg
      exact absurd hg (by simp)
    · have hothers := h.others g hne
      revert hg hothers
      cases (s.tasks g).pc <;> simp [WakerPc.holding, WakerPc.registers]
  unfold AtomicWaker.turn at hs ⊢
  cases htag : s.vtable.tag with
  | waking =>
    simp only [htag] at hs ⊢
    exact h.own he hs rfl (Or.inr (Or.inr (List.mem_cons_self ..)))
  | registering => exact absurd htag hnot
  | idle =>
    simp only [htag] at hs ⊢
    split at hs
    · rename_i hptr
      rw [if_pos hptr]
      exact h.own he hs rfl trivial
    · rename_i hptr
      rw [if_neg hptr]
      exact h.own he hs rfl trivial
  | registered =>
    simp only [htag] at hs ⊢
    exact h.own he hs rfl trivial

/-- The cached copy has `w`, and `w` is registered. -/
theorem quick_registered (h : Alone s₀ s f w) (hpc : (s.tasks f).pc = .quick)
    (hvtable : s.vtable = { ptr := some w.vtable, tag := .registered }) : s.Registered w := by
  have hstage := h.stage
  rw [hpc] at hstage
  obtain ⟨hcachedVtable, hcachedData⟩ := hstage
  rcases h.inv.cache with hagrees | ⟨g, hcaching, -⟩
  · have hdata := hagrees (by rw [hvtable]) (by rw [hcachedVtable, hvtable])
    exact ⟨hvtable, hdata.symm.trans hcachedData⟩
  · exfalso
    by_cases hne : g = f
    · rw [hne, hpc] at hcaching
      exact absurd hcaching (by simp [WakerPc.caching])
    · have hothers := h.others g hne
      revert hcaching hothers
      cases (s.tasks g).pc <;> simp [WakerPc.caching, WakerPc.registers]

theorem quickCheck (h : Alone s₀ s f w) {e : Nat × WakerAction} (he : Lone s e)
    (hs : WakerStep s e (s.quickCheck f)) (hpc : (s.tasks f).pc = .quick) :
    Alone s₀ (s.quickCheck f) f w := by
  have hrun := h.run.next e he hs
  unfold AtomicWaker.quickCheck at hs hrun ⊢
  rw [waker_of_arg h.arg] at hs hrun ⊢
  split at hs
  · rename_i hvtable
    rw [if_pos hvtable] at hrun ⊢
    exact h.own he hs rfl (Or.inl (Delivered.now hrun (h.quick_registered hpc hvtable)))
  · rename_i hvtable
    rw [if_neg hvtable]
    exact h.own he hs rfl trivial

theorem tryPublish (h : Alone s₀ s f w) {e : Nat × WakerAction} {old : Option Nat} (he : Lone s e)
    (hs : WakerStep s e (s.tryPublish f old)) (hpc : (s.tasks f).pc = .publish old) :
    Alone s₀ (s.tryPublish f old) f w := by
  have hrun := h.run.next e he hs
  unfold AtomicWaker.tryPublish at hs hrun ⊢
  split at hs
  · rename_i hvtable
    have hdata := h.inv.publishing f old hpc (by rw [hvtable])
    rw [waker_of_arg h.arg] at hs hdata hrun ⊢
    rw [if_pos hvtable] at hrun ⊢
    refine h.own he hs rfl (Delivered.now hrun ⟨rfl, ?_⟩)
    show s.data.ptr = w.data
    rw [hdata]
  · rename_i hvtable
    rw [if_neg hvtable]
    exact h.own he hs rfl trivial

theorem advance (h : Alone s₀ s f w) (he : Lone s (f, .advance))
    (hs : WakerStep s (f, .advance) s') (hadvance : s.advance f = some s') :
    Alone s₀ s' f w := by
  have hstage := h.stage
  unfold AtomicWaker.advance at hadvance
  cases hpc : (s.tasks f).pc <;> simp only [hpc] at hadvance hstage
  case cachedVtable => cases hadvance; exact h.own he hs rfl rfl
  case cachedData seen =>
    cases hadvance
    unfold AtomicWaker.loadCachedData at hs ⊢
    rw [waker_of_arg h.arg] at hs ⊢
    split at hs
    · rename_i hseen
      rw [if_pos hseen]
      refine h.own he hs rfl ⟨?_, hseen.2.symm⟩
      show s.cachedVtable = some w.vtable
      rw [hseen.1]
      exact hstage.symm
    · rename_i hseen
      rw [if_neg hseen]
      exact h.own he hs rfl trivial
  case quick => cases hadvance; exact h.quickCheck he hs hpc
  case load => cases hadvance; exact h.turn he hs (by rw [hpc]; rfl)
  case acquire seen =>
    cases hadvance
    unfold AtomicWaker.tryAcquire at hs ⊢
    split at hs
    · rename_i hseen
      rw [if_pos hseen]
      refine h.own he hs rfl ?_
      split <;> trivial
    · rename_i hseen
      rw [if_neg hseen]
      exact h.turn he hs (by rw [hpc]; rfl)
  case replace old => cases hadvance; exact h.own he hs rfl trivial
  case store old => cases hadvance; exact h.own he hs rfl trivial
  case publish old => cases hadvance; exact h.tryPublish he hs hpc
  case cacheVtable =>
    cases hadvance
    exact h.own he hs rfl (hstage.move he hs (by rw [hpc]; rfl) (fun g hg => goto_of_ne hg) rfl rfl rfl)
  case cacheData =>
    cases hadvance
    exact h.own he hs rfl
      (Or.inl (hstage.move he hs (by rw [hpc]; rfl) (fun g hg => goto_of_ne hg) rfl rfl rfl))
  case resetVtable => cases hadvance; exact h.own he hs rfl trivial
  case resetData => cases hadvance; exact h.own he hs rfl trivial
  case clearVtable => cases hadvance; exact h.own he hs rfl trivial
  case clearData => cases hadvance; exact h.own he hs rfl trivial
  case wakeOwn =>
    cases hadvance
    exact h.own he hs rfl (Or.inr (Or.inl (List.mem_cons_self ..)))
  case gone => exact absurd hadvance (by simp)
  all_goals exact hstage.elim

theorem step (h : Alone s₀ s f w) {e : Nat × WakerAction} (he : Lone s e) (hs : WakerStep s e s') :
    Alone s₀ s' f w := by
  by_cases hne : e.1 = f
  · obtain ⟨g, a⟩ := e
    obtain rfl : g = f := hne
    have hstage := h.stage
    have hs' := hs
    unfold WakerStep AtomicWaker.step at hs'
    split at hs'
    case h_1 hpc _ =>
      rw [hpc] at hstage
      exact hstage.elim
    case h_2 hpc _ =>
      rw [hpc] at hstage
      exact hstage.elim
    case h_3 ha =>
      obtain rfl : a = .advance := ha
      exact h.advance he hs hs'
    case h_4 => exact absurd hs' (by simp)
  · exact h.taking he hs hne

theorem of_run (hinv : s.Inv) (hfresh : (s.tasks f).pc = .fresh)
    (hothers : ∀ g, (s.tasks g).pc.registers = false)
    (h : Run WakerStep Lone (· = s.register f w) s') : Alone (s.register f w) s' f w := by
  have hself : (s.register f w).tasks f = { arg := some w, pc := .cachedVtable } :=
    Function.update_self ..
  have hstart : Alone (s.register f w) (s.register f w) f w := by
    refine ⟨hinv.register hfresh w, .start rfl, by rw [hself], fun g hg => ?_,
      by rw [hself]; trivial⟩
    rw [show (s.register f w).tasks g = s.tasks g from Function.update_of_ne hg ..]
    exact hothers g
  induction h with
  | start hs =>
    rw [hs]
    exact hstart
  | next e _ he hs ih => exact ih.step he hs

end Alone

end AtomicWaker

namespace AtomicWaker

variable {s s' : AtomicWaker} {f g : Nat}

/-! ## Runs among the first few calls -/

theorem advance_others (hs : s.advance f = some s') (hne : g ≠ f) : s'.tasks g = s.tasks g := by
  have hgoto : ∀ pc, (s.goto f pc).tasks g = s.tasks g := fun _ => goto_of_ne hne
  unfold AtomicWaker.advance at hs
  cases hpc : (s.tasks f).pc <;> simp only [hpc] at hs
  case fresh | gone => exact absurd hs (by simp)
  case takeData => cases hs; exact hgoto _
  all_goals
    simp only [loadCachedVtable, loadCachedData, quickCheck, turn, tryAcquire, dropOld, storeData,
      tryPublish, storeCachedVtable, storeCachedData, resetVtable, resetData, clearCachedVtable,
      clearCachedData, wakeOwn, takeTurn, mark, claim, takeClear, takeReset] at hs
    repeat' split at hs
  all_goals cases hs <;> exact hgoto _

/-- Only the first `n` calls have begun. -/
def Within (n : Nat) (s : AtomicWaker) : Prop :=
  ∀ g, n ≤ g → s.tasks g = { arg := none, pc := .fresh }

theorem Within.step {n : Nat} {e : Nat × WakerAction} (h : Within n s) (he : e.1 < n)
    (hs : s.step e = some s') : Within n s' := by
  intro g hg
  have hne : g ≠ e.1 := by omega
  refine Eq.trans ?_ (h g hg)
  unfold AtomicWaker.step at hs
  split at hs
  case h_1 => cases hs; exact Function.update_of_ne hne ..
  case h_2 => cases hs; exact goto_of_ne hne
  case h_3 => exact advance_others hs hne
  case h_4 => exact absurd hs (by simp)

/-- A test for careful steps of runs in which no registration meets a wake-up. -/
def carefulTest (s : AtomicWaker) (e : Nat × WakerAction) : Bool :=
  match (s.tasks e.1).pc with
  | .resetData | .clearData => false
  | .cacheVtable =>
      decide ((s.tasks e.1).arg = some (s.waker e.1) ∧
        s.vtable.ptr = some (s.waker e.1).vtable ∧ s.data.ptr = (s.waker e.1).data)
  | .cacheData => decide ((s.waker e.1).data = s.data.ptr)
  | _ => true

theorem careful_of_test (s : AtomicWaker) (e : Nat × WakerAction) (h : carefulTest s e = true) :
    s.Careful e := by
  intro _
  unfold carefulTest at h
  cases hpc : (s.tasks e.1).pc <;> simp only [hpc] at h ⊢
  case cacheVtable =>
    obtain ⟨harg, hsame⟩ := of_decide_eq_true h
    exact Or.inr ⟨e.1, by rw [hpc]; rfl, s.waker e.1, harg, hsame⟩
  case cacheData => exact Or.inl fun _ _ => of_decide_eq_true h
  all_goals exact absurd h (by simp)

end AtomicWaker

end Veloq.Waker
