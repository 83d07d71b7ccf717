import Mathlib.Data.List.Nodup
set_option autoImplicit false

/-!
# Foundation: things that are made once, kept in one place and spent once

`Custody held made spent`: everything that was made is in exactly one of the places or on
the list of what was spent, which has it once.
-/

namespace Veloq.Foundation

variable {ι κ : Type}

structure Custody (held : ι → Option κ) (made : κ → Prop) (spent : List κ) : Prop where
  apart : ∀ i j x, held i = some x → held j = some x → i = j
  live : ∀ i x, held i = some x → made x ∧ x ∉ spent
  known : ∀ x ∈ spent, made x
  nodup : spent.Nodup
  found : ∀ x, made x → x ∈ spent ∨ ∃ i, held i = some x

namespace Custody

variable {held held' : ι → Option κ} {made made' : κ → Prop} {spent : List κ} {i j : ι} {x : κ}

theorem congr (h : Custody held made spent) (hheld : ∀ k, held' k = held k) :
    Custody held' made spent := by
  rw [show held' = held from funext hheld]
  exact h

/-- A thing goes from one place to another. -/
theorem move (h : Custody held made spent) (hi : held i = some x) (hi' : held' i = none)
    (hj : held j = none) (hj' : held' j = some x)
    (hothers : ∀ k, k ≠ i → k ≠ j → held' k = held k) : Custody held' made spent := by
  have hback : ∀ k y, held' k = some y → k = j ∧ y = x ∨ k ≠ i ∧ k ≠ j ∧ held k = some y := by
    intro k y hk
    rcases Classical.em (k = j) with rfl | hkj
    · rw [hj'] at hk
      exact .inl ⟨rfl, (Option.some.inj hk).symm⟩
    · rcases Classical.em (k = i) with rfl | hki
      · rw [hi'] at hk
        exact absurd hk.symm (Option.some_ne_none _)
      · exact .inr ⟨hki, hkj, hothers k hki hkj ▸ hk⟩
  refine ⟨fun k l y hk hl => ?_, fun k y hk => ?_, h.known, h.nodup, fun y hy => ?_⟩
  · rcases hback k y hk with ⟨rfl, rfl⟩ | ⟨hki, -, hk⟩
    · rcases hback l y hl with ⟨rfl, -⟩ | ⟨hli, -, hl⟩
      · rfl
      · exact absurd (h.apart l i y hl hi) hli
    · rcases hback l y hl with ⟨rfl, rfl⟩ | ⟨-, -, hl⟩
      · exact absurd (h.apart k i y hk hi) hki
      · exact h.apart k l y hk hl
  · rcases hback k y hk with ⟨-, rfl⟩ | ⟨-, -, hk⟩
    · exact h.live i y hi
    · exact h.live k y hk
  · rcases h.found y hy with hspent | ⟨k, hk⟩
    · exact .inl hspent
    · rcases Classical.em (k = i) with rfl | hki
      · exact .inr ⟨j, hj'.trans (hi.symm.trans hk)⟩
      · rcases Classical.em (k = j) with rfl | hkj
        · rw [hj] at hk
          exact absurd hk.symm (Option.some_ne_none _)
        · exact .inr ⟨k, hothers k hki hkj ▸ hk⟩

/-- A thing is spent. -/
theorem spend (h : Custody held made spent) (hi : held i = some x) (hi' : held' i = none)
    (hothers : ∀ k, k ≠ i → held' k = held k) : Custody held' made (x :: spent) := by
  have hback : ∀ k y, held' k = some y → k ≠ i ∧ held k = some y := by
    intro k y hk
    rcases Classical.em (k = i) with rfl | hki
    · rw [hi'] at hk
      exact absurd hk.symm (Option.some_ne_none _)
    · exact ⟨hki, hothers k hki ▸ hk⟩
  refine ⟨fun k l y hk hl => h.apart k l y (hback k y hk).2 (hback l y hl).2, fun k y hk => ?_,
    fun y hy => ?_, List.nodup_cons.mpr ⟨(h.live i x hi).2, h.nodup⟩, fun y hy => ?_⟩
  · obtain ⟨hki, hk⟩ := hback k y hk
    refine ⟨(h.live k y hk).1, fun hmem => ?_⟩
    rcases List.mem_cons.mp hmem with rfl | hmem
    · exact hki (h.apart k i y hk hi)
    · exact (h.live k y hk).2 hmem
  · rcases List.mem_cons.mp hy with rfl | hy
    · exact (h.live i y hi).1
    · exact h.known y hy
  · rcases h.found y hy with hspent | ⟨k, hk⟩
    · exact .inl (List.mem_cons_of_mem x hspent)
    · rcases Classical.em (k = i) with rfl | hki
      · exact .inl (List.mem_cons.mpr (.inl (Option.some.inj (hk.symm.trans hi))))
      · exact .inr ⟨k, hothers k hki ▸ hk⟩

/-- A new thing is made. -/
theorem make (h : Custody held made spent) (hx : ¬ made x) (hi : held i = none)
    (hi' : held' i = some x) (hothers : ∀ k, k ≠ i → held' k = held k)
    (hmade : ∀ y, made' y ↔ y = x ∨ made y) : Custody held' made' spent := by
  have hback : ∀ k y, held' k = some y → k = i ∧ y = x ∨ held k = some y := by
    intro k y hk
    rcases Classical.em (k = i) with rfl | hki
    · exact .inl ⟨rfl, Option.some.inj (hk.symm.trans hi')⟩
    · exact .inr (hothers k hki ▸ hk)
  refine ⟨fun k l y hk hl => ?_, fun k y hk => ?_, fun y hy => (hmade y).mpr (.inr (h.known y hy)),
    h.nodup, fun y hy => ?_⟩
  · rcases hback k y hk with ⟨rfl, rfl⟩ | hk
    · rcases hback l y hl with ⟨rfl, -⟩ | hl
      · rfl
      · exact absurd (h.live l y hl).1 hx
    · rcases hback l y hl with ⟨rfl, rfl⟩ | hl
      · exact absurd (h.live k y hk).1 hx
      · exact h.apart k l y hk hl
  · rcases hback k y hk with ⟨-, rfl⟩ | hk
    · exact ⟨(hmade y).mpr (.inl rfl), fun hmem => hx (h.known y hmem)⟩
    · exact ⟨(hmade y).mpr (.inr (h.live k y hk).1), (h.live k y hk).2⟩
  · rcases (hmade y).mp hy with rfl | hy
    · exact .inr ⟨i, hi'⟩
    · rcases h.found y hy with hspent | ⟨k, hk⟩
      · exact .inl hspent
      · rcases Classical.em (k = i) with rfl | hki
        · rw [hi] at hk
          exact absurd hk.symm (Option.some_ne_none _)
        · exact .inr ⟨k, hothers k hki ▸ hk⟩

/-- Where nothing is kept any more, everything that was made is spent once. -/
theorem count_eq_one [DecidableEq κ] (h : Custody held made spent) (hnone : ∀ i, held i = none)
    (hx : made x) : spent.count x = 1 := by
  rcases h.found x hx with hspent | ⟨i, hi⟩
  · exact List.count_eq_one_of_mem h.nodup hspent
  · rw [hnone i] at hi
    exact absurd hi.symm (Option.some_ne_none _)

end Custody

end Veloq.Foundation
