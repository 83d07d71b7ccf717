import Veloq.Waker.Atomic
set_option autoImplicit false

/-!
# Waker: who may touch the slot of an atomic waker

The tag of the vtable is a lock: the call that has set it to `REGISTERING` or `WAKING` is
alone with the data.  What is registered is a whole waker, cloned by one call and not
consumed yet, and so is what a call that holds the lock has found there.  The cached copy is
that of the registered waker, or somebody who has registered it is about to write it.
-/

namespace Veloq.Waker

namespace WakerPc

/-- A `register` call that holds the lock. -/
def holding : WakerPc → Bool
  | replace _ | store _ | publish _ | resetVtable => true
  | _ => false

/-- A call that holds the lock. -/
def busy : WakerPc → Bool
  | replace _ | store _ | publish _ | resetVtable | takeData _ | takeClear _ _ | takeReset _ _ => true
  | _ => false

/-- A `register` call in progress. -/
def registers : WakerPc → Bool
  | cachedVtable | cachedData _ | quick | load | acquire _ | replace _ | store _ | publish _
  | cacheVtable | cacheData | resetVtable | resetData | clearVtable | clearData | wakeOwn => true
  | _ => false

/-- A `register` call whose clone is not in its hands any more. -/
def published : WakerPc → Bool
  | cacheVtable | cacheData | gone => true
  | _ => false

/-- A `register` call that has yet to write the cached data of the waker it has registered. -/
def caching : WakerPc → Bool
  | cacheVtable | cacheData => true
  | _ => false

/-- What a call has seen fits what it is going to do. -/
def Proper : WakerPc → Prop
  | acquire seen => seen.tag = .idle ∨ seen.tag = .registered
  | takeMark seen => seen.tag = .registering
  | takeClaim seen => seen.tag = .registered
  | _ => True

theorem busy_of_holding {pc : WakerPc} (h : pc.holding = true) : pc.busy = true := by
  cases pc <;> simp_all [holding, busy]

end WakerPc

/-! ## The lock -/

/-- The calls that hold the lock, given the tagged pointer. -/
structure Locked (word : Word) (pcs : Nat → WakerPc) : Prop where
  exclusive : ∀ g g', (pcs g).busy = true → (pcs g').busy = true → g = g'
  free : word.tag = .idle ∨ word.tag = .registered → ∀ g, (pcs g).busy = false
  noop : word.tag = .idle → word.ptr = none
  held : word.tag = .registering → ∃ g, (pcs g).holding = true

namespace Locked

variable {word word' : Word} {pcs pcs' : Nat → WakerPc} {f g : Nat}

/-- Whoever is busy keeps everybody else out. -/
theorem alone (h : Locked word pcs) (hf : (pcs f).busy = true) (hne : g ≠ f) :
    (pcs g).busy = false := by
  rw [Bool.eq_false_iff]
  exact fun hg => hne (h.exclusive g f hg hf)

theorem not_free (h : Locked word pcs) (hf : (pcs f).busy = true) :
    word.tag ≠ .idle ∧ word.tag ≠ .registered := by
  constructor <;> intro htag
  · rw [h.free (Or.inl htag) f] at hf
    exact absurd hf (by simp)
  · rw [h.free (Or.inr htag) f] at hf
    exact absurd hf (by simp)

/-- A step by which nobody begins or ceases to hold the lock. -/
theorem keep (h : Locked word pcs) (hothers : ∀ g, g ≠ f → pcs' g = pcs g)
    (hbusy : (pcs' f).busy = (pcs f).busy) (hholding : (pcs f).holding = true →
      (pcs' f).holding = true) : Locked word pcs' := by
  have hsame : ∀ g, (pcs' g).busy = (pcs g).busy := by
    intro g
    by_cases hne : g = f
    · rw [hne, hbusy]
    · rw [hothers g hne]
  refine ⟨fun g g' hg hg' => ?_, fun htag g => ?_, h.noop, fun htag => ?_⟩
  · rw [hsame] at hg hg'
    exact h.exclusive g g' hg hg'
  · rw [hsame]
    exact h.free htag g
  · obtain ⟨g, hg⟩ := h.held htag
    refine ⟨g, ?_⟩
    by_cases hne : g = f
    · rw [hne] at hg ⊢
      exact hholding hg
    · rw [hothers g hne]
      exact hg

/-- `f` takes the lock. -/
theorem lock (h : Locked word pcs) (hfree : word.tag = .idle ∨ word.tag = .registered)
    (hothers : ∀ g, g ≠ f → pcs' g = pcs g)
    (hword : word'.tag = .waking ∨ word'.tag = .registering ∧ (pcs' f).holding = true) :
    Locked word' pcs' := by
  have hnone : ∀ g, (pcs' g).busy = true → g = f := by
    intro g hg
    by_contra hne
    rw [hothers g hne, h.free hfree g] at hg
    exact absurd hg (by simp)
  refine ⟨fun g g' hg hg' => (hnone g hg).trans (hnone g' hg').symm, fun htag => ?_, fun htag => ?_,
    fun htag => ?_⟩
  · rcases hword with hw | ⟨hw, -⟩ <;> rw [hw] at htag <;> exact absurd htag (by simp)
  · rcases hword with hw | ⟨hw, -⟩ <;> rw [hw] at htag <;> exact absurd htag (by simp)
  · rcases hword with hw | ⟨-, hf⟩
    · rw [hw] at htag
      exact absurd htag (by simp)
    · exact ⟨f, hf⟩

/-- `f` gives the lock back. -/
theorem unlock (h : Locked word pcs) (hf : (pcs f).busy = true)
    (hothers : ∀ g, g ≠ f → pcs' g = pcs g) (hf' : (pcs' f).busy = false)
    (hword : word' = .noop ∨ word'.tag = .registered) : Locked word' pcs' := by
  have hnone : ∀ g, (pcs' g).busy = false := by
    intro g
    by_cases hne : g = f
    · rw [hne]
      exact hf'
    · rw [hothers g hne]
      exact h.alone hf hne
  refine ⟨fun g g' hg => absurd hg (by simp [hnone g]), fun _ => hnone, fun htag => ?_,
    fun htag => ?_⟩
  · rcases hword with rfl | hw
    · rfl
    · rw [hw] at htag
      exact absurd htag (by simp)
  · rcases hword with rfl | hw
    · exact absurd htag (by simp [Word.noop])
    · rw [hw] at htag
      exact absurd htag (by simp)

/-- A wake-up falls into a registration. -/
theorem mark (h : Locked word pcs) (hword : word'.tag = .waking) : Locked word' pcs :=
  ⟨h.exclusive, fun htag => by rw [hword] at htag; simp at htag,
    fun htag => by rw [hword] at htag; simp at htag,
    fun htag => by rw [hword] at htag; simp at htag⟩

end Locked

/-! ## The clones -/

namespace Signal

/-- The clone that was consumed, if the event is such. -/
def consumes : Signal → Option (Option Nat)
  | taken _ data => some data.clone
  | dropped _ data => some data.clone
  | woken g => some (some g)
  | byRef _ => none

end Signal

namespace AtomicWaker

variable (s : AtomicWaker)

/-- The clones that were consumed. -/
def consumed : List (Option Nat) := s.log.filterMap Signal.consumes

/-- The waker `w` was passed to `register`. -/
def Passed (w : RawWaker) : Prop := ∃ g, (s.tasks g).arg = some w

/-- The vtable and the data make up a waker that was passed to `register`. -/
def Whole (vtable : Option Nat) (data : Nat) : Prop :=
  ∃ w, s.Passed w ∧ vtable = some w.vtable ∧ data = w.data

/-- The vtable and the data are a clone of call `g` that was not consumed yet. -/
def Valid (vtable : Option Nat) (data : Slot) : Prop :=
  ∃ g w, data.clone = some g ∧ (s.tasks g).arg = some w ∧ vtable = some w.vtable ∧
    data.ptr = w.data ∧ (s.tasks g).pc.published = true ∧ some g ∉ s.consumed

/-- The waker that an event is about is whole. -/
def Sound : Signal → Prop
  | .taken vtable data => s.Whole vtable data.ptr
  | .dropped vtable data => s.Whole vtable data.ptr
  | .woken _ => True
  | .byRef _ => True

/-- Call `g` is about to write the cached data of the waker that is registered. -/
def Caches (g : Nat) : Prop :=
  (s.tasks g).pc.caching = true ∧
    ∃ w, (s.tasks g).arg = some w ∧ s.vtable.ptr = some w.vtable ∧ s.data.ptr = w.data

/-- A cached copy that does not lead `register` astray. -/
def Agrees (cachedVtable : Option Nat) (cachedData : Nat) : Prop :=
  s.vtable.tag = .registered → cachedVtable = s.vtable.ptr → cachedData = s.data.ptr

structure Inv : Prop where
  locked : Locked s.vtable fun g => (s.tasks g).pc
  unused : ∀ g, (s.tasks g).pc = .fresh → (s.tasks g).arg = none
  proper : ∀ g, (s.tasks g).pc.Proper
  args : ∀ g, (s.tasks g).pc.registers = true → ∃ w, (s.tasks g).arg = some w
  registered : s.vtable.tag = .registered → s.Valid s.vtable.ptr s.data
  reading : ∀ g old, (s.tasks g).pc = .replace old ∨ (s.tasks g).pc = .takeData old →
    s.Valid old s.data
  carrying : ∀ g old data,
    (s.tasks g).pc = .takeClear old data ∨ (s.tasks g).pc = .takeReset old data → s.Valid old data
  publishing : ∀ g old, (s.tasks g).pc = .publish old → s.vtable.tag = .registering →
    s.data = { ptr := (s.waker g).data, clone := some g }
  nodup : s.consumed.Nodup
  given : ∀ c ∈ s.consumed, ∃ g, c = some g ∧ (s.tasks g).pc.published = true
  sound : ∀ e ∈ s.log, s.Sound e
  cache : s.Agrees s.cachedVtable s.cachedData ∨ ∃ g, s.Caches g

/-! ## Frames -/

variable {s} {s' : AtomicWaker} {f g : Nat} {pc : WakerPc} {vtable : Option Nat} {data : Slot}

theorem goto_self : (s.goto f pc).tasks f = { s.tasks f with pc := pc } :=
  Function.update_self ..

theorem goto_of_ne (h : g ≠ f) : (s.goto f pc).tasks g = s.tasks g := Function.update_of_ne h ..

/-- What a step of call `f` leaves alone. -/
structure Frame (s s' : AtomicWaker) (f : Nat) : Prop where
  others : ∀ g, g ≠ f → s'.tasks g = s.tasks g
  arg : ∀ w, (s.tasks f).arg = some w → (s'.tasks f).arg = some w
  published : (s.tasks f).pc.published = true → (s'.tasks f).pc.published = true

namespace Frame

theorem args (h : Frame s s' f) {w : RawWaker} (hg : (s.tasks g).arg = some w) :
    (s'.tasks g).arg = some w := by
  by_cases hne : g = f
  · rw [hne] at hg ⊢
    exact h.arg w hg
  · rw [h.others g hne]
    exact hg

theorem publishes (h : Frame s s' f) (hg : (s.tasks g).pc.published = true) :
    (s'.tasks g).pc.published = true := by
  by_cases hne : g = f
  · rw [hne] at hg ⊢
    exact h.published hg
  · rw [h.others g hne]
    exact hg

theorem whole (h : Frame s s' f) {d : Nat} (hw : s.Whole vtable d) : s'.Whole vtable d := by
  obtain ⟨w, ⟨g, hg⟩, heq⟩ := hw
  exact ⟨w, ⟨g, h.args hg⟩, heq⟩

theorem sound (h : Frame s s' f) {e : Signal} (he : s.Sound e) : s'.Sound e := by
  cases e with
  | taken vtable data => exact h.whole he
  | dropped vtable data => exact h.whole he
  | woken g => trivial
  | byRef g => trivial

/-- A clone that the step does not consume. -/
theorem valid (h : Frame s s' f) (hv : s.Valid vtable data)
    (hconsumed : data.clone ∈ s'.consumed → data.clone ∈ s.consumed) : s'.Valid vtable data := by
  obtain ⟨g, w, hclone, harg, hvtable, hdata, hpub, hnot⟩ := hv
  refine ⟨g, w, hclone, h.args harg, hvtable, hdata, h.publishes hpub, fun hmem => ?_⟩
  rw [hclone] at hconsumed
  exact hnot (hconsumed hmem)

theorem given (h : Frame s s' f)
    (hg : ∀ c ∈ s.consumed, ∃ g, c = some g ∧ (s.tasks g).pc.published = true) :
    ∀ c ∈ s.consumed, ∃ g, c = some g ∧ (s'.tasks g).pc.published = true := by
  intro c hc
  obtain ⟨g, rfl, hpub⟩ := hg c hc
  exact ⟨g, rfl, h.publishes hpub⟩

end Frame

theorem waker_of_arg {w : RawWaker} (h : (s.tasks g).arg = some w) : s.waker g = w := by
  unfold waker
  rw [h]
  rfl

theorem Valid.whole (h : s.Valid vtable data) : s.Whole vtable data.ptr := by
  obtain ⟨g, w, -, harg, hvtable, hdata, -⟩ := h
  exact ⟨w, ⟨g, harg⟩, hvtable, hdata⟩

end AtomicWaker

end Veloq.Waker
