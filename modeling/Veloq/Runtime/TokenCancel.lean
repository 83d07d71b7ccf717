import Veloq.Runtime.Token
set_option autoImplicit false

/-!
# Runtime: what a cancellation visits

`cancel_internal` sets the flags of the tokens that the lists of children lead to, and calls
everybody who waits for one of them.  A nested call has one flag less to set than the call
it is made from, so there is fuel for all of them.
-/

namespace Veloq.Runtime

open Relation

namespace TokenTree

variable {s s' s'' : TokenTree} {t y : Nat} {d d' : Set Nat}

theorem set_self {token : Token} : (s.set t token).token t = token := Function.update_self ..

theorem set_of_ne {token : Token} (h : y ≠ t) : (s.set t token).token y = s.token y :=
  Function.update_of_ne h ..

/-- The lists of children lead from `t` to `y`. -/
def Reaches (s : TokenTree) (t y : Nat) : Prop :=
  ReflTransGen (fun a b => b ∈ (s.token a).children) t y

/-- `s'` is `s` after the tokens of `d` were cancelled. -/
structure Visits (s s' : TokenTree) (d : Set Nat) : Prop where
  fresh : ∀ y ∈ d, s.flag y = false
  flag : ∀ y, s'.flag y = true ↔ s.flag y = true ∨ y ∈ d
  emptied : ∀ y ∈ d, (s'.token y).children = []
  children : ∀ y, y ∉ d → (s'.token y).children = (s.token y).children
  wakers : ∀ y, y ∉ d → (s'.token y).wakers = (s.token y).wakers
  crossParent : ∀ y, (s'.token y).crossParent = (s.token y).crossParent
  waiting : ∀ e, e ∈ s'.waiting ↔ e ∈ s.waiting ∧ ∀ y ∈ d, e.2 ∉ (s.token y).wakers
  count : s'.count = s.count
  scopes : s'.scopes = s.scopes
  links : s'.links = s.links

namespace Visits

theorem refl (s : TokenTree) : Visits s s ∅ :=
  ⟨nofun, fun _ => by simp, nofun, fun _ _ => rfl, fun _ _ => rfl, fun _ => rfl,
    fun _ => by simp, rfl, rfl, rfl⟩

theorem trans (h : Visits s s' d) (h' : Visits s' s'' d') : Visits s s'' (d ∪ d') := by
  have hapart : ∀ y ∈ d', y ∉ d := by
    intro y hy hd
    have hflag := (h.flag y).mpr (Or.inr hd)
    rw [h'.fresh y hy] at hflag
    exact absurd hflag (by simp)
  refine ⟨?_, fun y => ?_, ?_, fun y hy => ?_, fun y hy => ?_, fun y => ?_, fun e => ?_,
    h'.count.trans h.count, h'.scopes.trans h.scopes, h'.links.trans h.links⟩
  · rintro y (hy | hy)
    · exact h.fresh y hy
    · rw [Bool.eq_false_iff]
      intro hflag
      have hflag' := (h.flag y).mpr (Or.inl hflag)
      rw [h'.fresh y hy] at hflag'
      exact absurd hflag' (by simp)
  · rw [h'.flag, h.flag, Set.mem_union, or_assoc]
  · intro y hy
    by_cases hd : y ∈ d'
    · exact h'.emptied y hd
    · rw [h'.children y hd]
      exact h.emptied y (hy.resolve_right hd)
  · rw [Set.mem_union, not_or] at hy
    rw [h'.children y hy.2, h.children y hy.1]
  · rw [Set.mem_union, not_or] at hy
    rw [h'.wakers y hy.2, h.wakers y hy.1]
  · rw [h'.crossParent, h.crossParent]
  · rw [h'.waiting, h.waiting]
    constructor
    · rintro ⟨⟨he, hd⟩, hd'⟩
      refine ⟨he, ?_⟩
      rintro y (hy | hy)
      · exact hd y hy
      · rw [← h.wakers y (hapart y hy)]
        exact hd' y hy
    · rintro ⟨he, hall⟩
      refine ⟨⟨he, fun y hy => hall y (Or.inl hy)⟩, fun y hy => ?_⟩
      rw [h.wakers y (hapart y hy)]
      exact hall y (Or.inr hy)

/-- A cancellation leaves no way that was not there before. -/
theorem reaches (h : Visits s s' d) (hr : s'.Reaches t y) : s.Reaches t y := by
  refine ReflTransGen.mono (fun a b hb => ?_) _ _ hr
  by_cases ha : a ∈ d
  · rw [h.emptied a ha] at hb
    exact absurd hb List.not_mem_nil
  · rw [h.children a ha] at hb
    exact hb

theorem mark (h : s.flag t = false) : Visits s (s.mark t) {t} := by
  have hself : (s.mark t).token t =
      { s.token t with cancelled := true, wakers := [], children := [] } := set_self
  have hother : ∀ y, y ∉ ({t} : Set Nat) → (s.mark t).token y = s.token y :=
    fun y hy => set_of_ne hy
  refine ⟨?_, fun y => ?_, ?_, fun y hy => by rw [hother y hy], fun y hy => by rw [hother y hy],
    fun y => ?_, fun e => ?_, rfl, rfl, rfl⟩
  · rintro y rfl
    exact h
  · by_cases hy : y = t
    · simp [TokenTree.flag, hy, hself]
    · simp [TokenTree.flag, hother y hy, hy]
  · rintro y rfl
    rw [hself]
  · by_cases hy : y = t
    · rw [hy, hself]
    · rw [hother y hy]
  · show e ∈ s.waiting.filter _ ↔ _
    simp

theorem unlink (s : TokenTree) (t : Nat) : Visits s (s.unlink t) ∅ := by
  have htoken : ∀ y, ((s.unlink t).token y).cancelled = (s.token y).cancelled ∧
      ((s.unlink t).token y).wakers = (s.token y).wakers ∧
      ((s.unlink t).token y).children = (s.token y).children ∧
      ((s.unlink t).token y).crossParent = (s.token y).crossParent := by
    intro y
    by_cases hy : y = t
    · rw [hy, show (s.unlink t).token t = { s.token t with linked := false } from set_self]
      exact ⟨rfl, rfl, rfl, rfl⟩
    · rw [show (s.unlink t).token y = s.token y from set_of_ne hy]
      exact ⟨rfl, rfl, rfl, rfl⟩
  refine ⟨nofun, fun y => ?_, nofun, fun y _ => (htoken y).2.2.1, fun y _ => (htoken y).2.1,
    fun y => (htoken y).2.2.2, fun e => ?_, rfl, rfl, rfl⟩
  · unfold TokenTree.flag
    rw [(htoken y).1]
    simp
  · show e ∈ s.waiting ↔ _
    simp

end Visits

/-! ## `cancel_internal` -/

/-- How many flags are still to be set. -/
def unflagged (s : TokenTree) : Nat := ((Finset.range s.count).filter fun y => s.flag y = false).card

/-- The lists of children have existing tokens only. -/
def Bounded (s : TokenTree) : Prop := ∀ y, ∀ z ∈ (s.token y).children, z < s.count

theorem Visits.bounded (h : Visits s s' d) (hb : s.Bounded) : s'.Bounded := by
  intro y z hz
  rw [h.count]
  by_cases hy : y ∈ d
  · rw [h.emptied y hy] at hz
    exact absurd hz List.not_mem_nil
  · rw [h.children y hy] at hz
    exact hb y z hz

theorem Visits.unflagged_le (h : Visits s s' d) : s'.unflagged ≤ s.unflagged := by
  unfold unflagged
  rw [h.count]
  refine Finset.card_le_card fun y hy => ?_
  rw [Finset.mem_filter] at hy ⊢
  refine ⟨hy.1, ?_⟩
  rw [Bool.eq_false_iff]
  intro hflag
  have hflag' := (h.flag y).mpr (Or.inl hflag)
  rw [hy.2] at hflag'
  exact absurd hflag' (by simp)

theorem Visits.unflagged_lt (h : Visits s s' d) (ht : t ∈ d) (hlt : t < s.count) :
    s'.unflagged < s.unflagged := by
  unfold unflagged
  rw [h.count]
  refine Finset.card_lt_card ⟨fun y hy => ?_, fun hsub => ?_⟩
  · rw [Finset.mem_filter] at hy ⊢
    refine ⟨hy.1, ?_⟩
    rw [Bool.eq_false_iff]
    intro hflag
    have hflag' := (h.flag y).mpr (Or.inl hflag)
    rw [hy.2] at hflag'
    exact absurd hflag' (by simp)
  · have hmem := hsub (Finset.mem_filter.mpr ⟨Finset.mem_range.mpr hlt, h.fresh t ht⟩)
    rw [Finset.mem_filter, (h.flag t).mpr (Or.inr ht)] at hmem
    exact absurd hmem.2 (by simp)

/-- The tokens of `roots` and everything below them are cancelled: each visited token is below
one of them, and has no child left out. -/
structure Swept (s s' : TokenTree) (roots : List Nat) (d : Set Nat) : Prop where
  visits : Visits s s' d
  reached : ∀ t ∈ roots, s'.flag t = true
  below : ∀ y ∈ d, ∃ t ∈ roots, s.Reaches t y
  closed : ∀ y ∈ d, ∀ z ∈ (s.token y).children, s'.flag z = true

theorem Visits.flag_mono (h : Visits s s' d) (hy : s.flag y = true) : s'.flag y = true :=
  (h.flag y).mpr (Or.inl hy)

namespace Swept

/-- One sweep after another. -/
theorem trans {roots roots' : List Nat} (h : Swept s s' roots d) (h' : Swept s' s'' roots' d') :
    Swept s s'' (roots ++ roots') (d ∪ d') := by
  refine ⟨h.visits.trans h'.visits, fun t ht => ?_, ?_, ?_⟩
  · rcases List.mem_append.mp ht with ht | ht
    · exact h'.visits.flag_mono (h.reached t ht)
    · exact h'.reached t ht
  · rintro y (hy | hy)
    · obtain ⟨t, ht, hr⟩ := h.below y hy
      exact ⟨t, List.mem_append_left _ ht, hr⟩
    · obtain ⟨t, ht, hr⟩ := h'.below y hy
      exact ⟨t, List.mem_append_right _ ht, h.visits.reaches hr⟩
  · rintro y (hy | hy) z hz
    · exact h'.visits.flag_mono (h.closed y hy z hz)
    · by_cases hd : y ∈ d
      · exact h'.visits.flag_mono (h.closed y hd z hz)
      · rw [← h.visits.children y hd] at hz
        exact h'.closed y hy z hz

theorem unlink (s : TokenTree) (t : Nat) : Swept s (s.unlink t) [] ∅ :=
  ⟨Visits.unlink s t, nofun, nofun, nofun⟩

end Swept

/-- The loop over the children, given what a call for one of them does. -/
theorem swept_foldl {fuel : Nat} (ih : ∀ s t, Bounded s → t < s.count → s.unflagged ≤ fuel →
      ∃ d, Swept s (cancelInternal fuel s t) [t] d)
    (roots : List Nat) (hb : s.Bounded) (hroots : ∀ t ∈ roots, t < s.count)
    (hfuel : s.unflagged ≤ fuel) :
    ∃ d, Swept s (roots.foldl (fun s child => cancelInternal fuel (s.unlink child) child) s)
      roots d := by
  induction roots generalizing s with
  | nil => exact ⟨∅, Visits.refl s, nofun, nofun, nofun⟩
  | cons t roots ihroots =>
    have hunlink := Swept.unlink s t
    have hfuel' := Nat.le_trans hunlink.visits.unflagged_le hfuel
    obtain ⟨d, hd⟩ := ih (s.unlink t) t (hunlink.visits.bounded hb)
      (hroots t (List.mem_cons_self ..)) hfuel'
    have hcount := hd.visits.count
    obtain ⟨d', hd'⟩ := ihroots (hd.visits.bounded (hunlink.visits.bounded hb))
      (fun t' ht' => by rw [hcount]; exact hroots t' (List.mem_cons_of_mem t ht'))
      (Nat.le_trans hd.visits.unflagged_le hfuel')
    exact ⟨_, (hunlink.trans hd).trans hd'⟩

theorem swept_cancelInternal (fuel : Nat) : ∀ s t, Bounded s → t < s.count → s.unflagged ≤ fuel →
    ∃ d, Swept s (cancelInternal fuel s t) [t] d := by
  induction fuel with
  | zero =>
    intro s t hb ht hfuel
    refine ⟨∅, Visits.refl s, fun y hy => ?_, nofun, nofun⟩
    obtain rfl := List.mem_singleton.mp hy
    rw [← Bool.not_eq_false]
    intro hflag
    have hmem := Finset.card_eq_zero.mp (Nat.le_zero.mp hfuel)
    rw [Finset.filter_eq_empty_iff] at hmem
    exact hmem (Finset.mem_range.mpr ht) hflag
  | succ fuel ih =>
    intro s t hb ht hfuel
    unfold cancelInternal
    split
    · rename_i hflag
      refine ⟨∅, Visits.refl s, fun y hy => ?_, nofun, nofun⟩
      obtain rfl := List.mem_singleton.mp hy
      exact hflag
    · rename_i hflag
      have hmark := Visits.mark (Bool.eq_false_iff.mpr hflag)
      have hlt := hmark.unflagged_lt rfl ht
      obtain ⟨d, hd⟩ := swept_foldl ih (s.token t).children (hmark.bounded hb)
        (fun z hz => hb t z hz) (by omega)
      refine ⟨{t} ∪ d, hmark.trans hd.visits, fun y hy => ?_, ?_, ?_⟩
      · obtain rfl := List.mem_singleton.mp hy
        exact hd.visits.flag_mono ((hmark.flag y).mpr (Or.inr rfl))
      · rintro y (rfl | hy)
        · exact ⟨y, List.mem_singleton_self y, ReflTransGen.refl⟩
        · obtain ⟨z, hz, hr⟩ := hd.below y hy
          exact ⟨t, List.mem_singleton_self t, (hmark.reaches hr).head hz⟩
      · rintro y (rfl | hy) z hz
        · exact hd.reached z hz
        · by_cases hyt : y = t
          · rw [hyt] at hz
            exact hd.reached z hz
          · rw [← hmark.children y hyt] at hz
            exact hd.closed y hy z hz

/-! ## `cancel` -/

/-- `cancel` sets exactly the flags of the tokens that the lists of children lead to. -/
theorem visits_cancel (hb : s.Bounded) (ht : t < s.count)
    (hempty : ∀ y, s.flag y = true → (s.token y).children = []) :
    Visits s (s.cancel t) {y | s.flag y = false ∧ s.Reaches t y} := by
  have hfuel : s.unflagged ≤ s.count := by
    refine Nat.le_trans (Finset.card_filter_le _ _) ?_
    rw [Finset.card_range]
  obtain ⟨d, hd⟩ := swept_cancelInternal s.count s t hb ht hfuel
  have hflag : ∀ y, s.Reaches t y → (s.cancel t).flag y = true := by
    intro y hr
    induction hr with
    | refl => exact hd.reached t (List.mem_singleton_self t)
    | tail _ hz ih =>
      rcases (hd.visits.flag _).mp ih with hold | hnew
      · rw [hempty _ hold] at hz
        exact absurd hz List.not_mem_nil
      · exact hd.closed _ hnew _ hz
  have hsame : {y | s.flag y = false ∧ s.Reaches t y} = d := by
    ext y
    constructor
    · rintro ⟨hfresh, hr⟩
      refine ((hd.visits.flag y).mp (hflag y hr)).resolve_left fun hold => ?_
      rw [hfresh] at hold
      exact absurd hold (by simp)
    · intro hy
      obtain ⟨t', ht', hr⟩ := hd.below y hy
      obtain rfl := List.mem_singleton.mp ht'
      exact ⟨hd.visits.fresh y hy, hr⟩
  rw [hsame]
  exact hd.visits

end TokenTree

end Veloq.Runtime
