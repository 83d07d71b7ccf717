import Veloq.Foundation.Run
import Mathlib.Logic.ExistsUnique
import Mathlib.Logic.Function.Basic
set_option autoImplicit false

/-!
# Foundation: things that have one holder while they are in use

A place may acquire a thing that is not in use, and retires what it holds.  The ledger counts
how often each thing was acquired and retired.
-/

namespace Veloq.Foundation

/-- What each place holds, what is in use, and the counts. -/
structure Tenancy (ι κ : Type) where
  held : ι → Option κ
  active : κ → Bool
  acquired : κ → Nat
  retired : κ → Nat

inductive TenancyEvent (ι κ : Type) where
  | acquire (i : ι) (x : κ)
  | retire (i : ι) (x : κ)

namespace Tenancy

variable {ι κ : Type}

def empty : Tenancy ι κ :=
  { held := fun _ => none, active := fun _ => false, acquired := fun _ => 0, retired := fun _ => 0 }

section

variable [DecidableEq ι] [DecidableEq κ]

def acquire (s : Tenancy ι κ) (i : ι) (x : κ) : Tenancy ι κ where
  held := Function.update s.held i (some x)
  active := Function.update s.active x true
  acquired := Function.update s.acquired x (s.acquired x + 1)
  retired := s.retired

def retire (s : Tenancy ι κ) (i : ι) (x : κ) : Tenancy ι κ where
  held := Function.update s.held i none
  active := Function.update s.active x false
  acquired := s.acquired
  retired := Function.update s.retired x (s.retired x + 1)

/-- The place is free and the thing not in use; the place holds the thing that it retires. -/
inductive Step : Tenancy ι κ → TenancyEvent ι κ → Tenancy ι κ → Prop where
  | acquire {s : Tenancy ι κ} {i : ι} {x : κ} :
      s.held i = none → s.active x = false → Step s (.acquire i x) (s.acquire i x)
  | retire {s : Tenancy ι κ} {i : ι} {x : κ} :
      s.held i = some x → Step s (.retire i x) (s.retire i x)

/-- From `s` by any number of steps. -/
def Moves (s : Tenancy ι κ) : Tenancy ι κ → Prop := Run Step Always (fun t => t = s)

end

/-- Each thing in use has one holder, and was acquired once more than it was retired. -/
structure Sound (s : Tenancy ι κ) : Prop where
  apart : ∀ i j x, s.held i = some x → s.held j = some x → i = j
  active : ∀ x, s.active x = true ↔ ∃ i, s.held i = some x
  balance : ∀ x, s.acquired x = s.retired x + (s.active x).toNat

variable {s s' s'' : Tenancy ι κ} {i : ι} {x : κ}

theorem Sound.empty : (Tenancy.empty : Tenancy ι κ).Sound := by
  refine ⟨fun i j x hi => absurd hi.symm (Option.some_ne_none x), fun x => ⟨nofun, ?_⟩, fun _ => rfl⟩
  rintro ⟨i, hi⟩
  exact absurd hi.symm (Option.some_ne_none x)

variable [DecidableEq ι] [DecidableEq κ]

theorem Sound.acquire (h : s.Sound) (hi : s.held i = none) (hx : s.active x = false) :
    (s.acquire i x).Sound := by
  have hfresh : ∀ j, s.held j ≠ some x := fun j hj =>
    Bool.false_ne_true (hx.symm.trans ((h.active x).mpr ⟨j, hj⟩))
  have hback : ∀ j y, Function.update s.held i (some x) j = some y →
      j = i ∧ y = x ∨ j ≠ i ∧ s.held j = some y := by
    intro j y hj
    rcases Classical.em (j = i) with rfl | hne
    · rw [Function.update_self] at hj
      exact .inl ⟨rfl, (Option.some.inj hj).symm⟩
    · rw [Function.update_of_ne hne] at hj
      exact .inr ⟨hne, hj⟩
  refine ⟨fun j k y hj hk => ?_, fun y => ?_, fun y => ?_⟩
  · rcases hback j y hj with ⟨hji, hy⟩ | ⟨-, hj'⟩
    · rcases hback k y hk with ⟨hki, -⟩ | ⟨-, hk'⟩
      · rw [hji, hki]
      · rw [hy] at hk'
        exact absurd hk' (hfresh k)
    · rcases hback k y hk with ⟨-, hy⟩ | ⟨-, hk'⟩
      · rw [hy] at hj'
        exact absurd hj' (hfresh j)
      · exact h.apart j k y hj' hk'
  · show Function.update s.active x true y = true ↔ _
    rcases Classical.em (y = x) with rfl | hne
    · rw [Function.update_self]
      exact ⟨fun _ => ⟨i, Function.update_self ..⟩, fun _ => rfl⟩
    · rw [Function.update_of_ne hne, h.active]
      constructor
      · rintro ⟨j, hj⟩
        refine ⟨j, (Function.update_of_ne ?_ ..).trans hj⟩
        rintro rfl
        exact absurd (hi.symm.trans hj).symm (Option.some_ne_none y)
      · rintro ⟨j, hj⟩
        rcases hback j y hj with ⟨-, hy⟩ | ⟨-, hj⟩
        · exact absurd hy hne
        · exact ⟨j, hj⟩
  · show Function.update s.acquired x (s.acquired x + 1) y =
      s.retired y + (Function.update s.active x true y).toNat
    have hbalance := h.balance y
    rcases Classical.em (y = x) with rfl | hne
    · rw [hx] at hbalance
      rw [Function.update_self, Function.update_self, hbalance]
      rfl
    · rw [Function.update_of_ne hne, Function.update_of_ne hne]
      exact hbalance

theorem Sound.retire (h : s.Sound) (hi : s.held i = some x) : (s.retire i x).Sound := by
  have hback : ∀ j y, Function.update s.held i none j = some y → j ≠ i ∧ s.held j = some y := by
    intro j y hj
    rcases Classical.em (j = i) with rfl | hne
    · rw [Function.update_self] at hj
      exact absurd hj.symm (Option.some_ne_none y)
    · rw [Function.update_of_ne hne] at hj
      exact ⟨hne, hj⟩
  refine ⟨fun j k y hj hk => h.apart j k y (hback j y hj).2 (hback k y hk).2, fun y => ?_,
    fun y => ?_⟩
  · show Function.update s.active x false y = true ↔ _
    rcases Classical.em (y = x) with rfl | hne
    · rw [Function.update_self]
      refine ⟨nofun, ?_⟩
      rintro ⟨j, hj⟩
      obtain ⟨hji, hj⟩ := hback j y hj
      exact absurd (h.apart j i y hj hi) hji
    · rw [Function.update_of_ne hne, h.active]
      constructor
      · rintro ⟨j, hj⟩
        refine ⟨j, (Function.update_of_ne ?_ ..).trans hj⟩
        rintro rfl
        exact hne (Option.some.inj (hj.symm.trans hi))
      · rintro ⟨j, hj⟩
        exact ⟨j, (hback j y hj).2⟩
  · show s.acquired y = Function.update s.retired x (s.retired x + 1) y +
      (Function.update s.active x false y).toNat
    have hbalance := h.balance y
    rcases Classical.em (y = x) with rfl | hne
    · rw [(h.active y).mpr ⟨i, hi⟩] at hbalance
      rw [Function.update_self, Function.update_self, hbalance]
      rfl
    · rw [Function.update_of_ne hne, Function.update_of_ne hne]
      exact hbalance

theorem Sound.step {e : TenancyEvent ι κ} (h : s.Sound) (hs : Step s e s') : s'.Sound := by
  cases hs with
  | acquire hi hx => exact h.acquire hi hx
  | retire hi => exact h.retire hi

theorem Sound.moves (h : s.Sound) (hs : s.Moves s') : s'.Sound := by
  refine Run.invariant (fun t ht => ?_) (fun _ _ _ ht _ hstep => ht.step hstep) hs
  rw [ht]
  exact h

theorem Moves.refl (s : Tenancy ι κ) : s.Moves s := Run.start rfl

theorem Moves.trans (h : s.Moves s') (h' : s'.Moves s'') : s.Moves s'' := Run.trans h h'

theorem Moves.of_acquire (hi : s.held i = none) (hx : s.active x = false) :
    s.Moves (s.acquire i x) :=
  (Moves.refl s).next _ trivial (.acquire hi hx)

theorem Moves.of_retire (hi : s.held i = some x) : s.Moves (s.retire i x) :=
  (Moves.refl s).next _ trivial (.retire hi)

end Tenancy

end Veloq.Foundation
