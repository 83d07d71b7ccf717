import Mathlib.Data.List.DropRight
import Mathlib.Data.List.Nodup
set_option autoImplicit false

/-!
# Foundation: a table of slots that is cut off behind the last one in use

Slots that are not in use are reused from a list of their indices, unless they are at the end of
the table, which is cut off.
-/

namespace Veloq.Foundation.Slab

variable {α : Type} {vacant : α → Bool} {slots : List α} {free : List Nat} {i j : Nat} {x y : α}

/-! ## The table without its vacant end -/

/-- A slot in use is not cut off. -/
theorem getElem?_compact (hx : vacant x = false) :
    (slots.rdropWhile vacant)[i]? = some x ↔ slots[i]? = some x := by
  have happend : slots.rdropWhile vacant ++ slots.rtakeWhile vacant = slots :=
    List.rdropWhile_append_rtakeWhile ..
  constructor
  · intro h
    rw [← happend]
    exact List.getElem?_append_left (List.getElem?_eq_some_iff.mp h).1 |>.trans h
  · intro h
    rw [← happend] at h
    rcases Nat.lt_or_ge i (slots.rdropWhile vacant).length with hi | hi
    · rwa [List.getElem?_append_left hi] at h
    · rw [List.getElem?_append_right hi] at h
      have hmem : x ∈ slots.rtakeWhile vacant := List.mem_of_getElem? h
      exact absurd (hx.symm.trans (List.mem_rtakeWhile_imp hmem)) (by decide)

/-- What is left of the table is as it was. -/
theorem getElem?_of_compact (h : (slots.rdropWhile vacant)[i]? = some x) : slots[i]? = some x := by
  obtain ⟨tail, happend⟩ : slots.rdropWhile vacant <+: slots := List.rdropWhile_prefix ..
  rw [← happend]
  exact (List.getElem?_append_left (List.getElem?_eq_some_iff.mp h).1).trans h

theorem getElem?_compact_of_lt (hi : i < (slots.rdropWhile vacant).length) :
    (slots.rdropWhile vacant)[i]? = slots[i]? :=
  (getElem?_of_compact (List.getElem?_eq_getElem hi)).symm ▸ List.getElem?_eq_getElem hi

/-- What is cut off is vacant. -/
theorem countP_compact (p : α → Bool) (hp : ∀ x, p x = true → vacant x = false) :
    (slots.rdropWhile vacant).countP p = slots.countP p := by
  have hcut : (slots.rtakeWhile vacant).countP p = 0 := by
    rw [List.countP_eq_zero]
    intro x hx hpx
    exact absurd ((hp x hpx).symm.trans (List.mem_rtakeWhile_imp hx)) (by decide)
  have hcount : (slots.rdropWhile vacant ++ slots.rtakeWhile vacant).countP p = slots.countP p :=
    congrArg _ (List.rdropWhile_append_rtakeWhile ..)
  rw [List.countP_append, hcut] at hcount
  exact hcount

/-! ## The list of the vacant slots -/

/-- The list has the vacant slots, each one once. -/
structure Free (vacant : α → Bool) (slots : List α) (free : List Nat) : Prop where
  nodup : free.Nodup
  mem_iff : ∀ i, i ∈ free ↔ ∃ x, slots[i]? = some x ∧ vacant x = true

theorem Free.nil : Free vacant [] [] :=
  ⟨List.nodup_nil, fun i => ⟨fun h => absurd h List.not_mem_nil, fun ⟨_, h, _⟩ => by cases h⟩⟩

theorem modify_eq_set (f : α → α) (hi : slots[i]? = some x) :
    slots.modify i f = slots.set i (f x) := by
  refine List.ext_getElem? fun j => ?_
  by_cases hj : i = j
  · subst hj
    rw [List.getElem?_modify_eq, hi, List.getElem?_set_self (List.getElem?_eq_some_iff.mp hi).1]
    rfl
  · rw [List.getElem?_modify_ne _ _ hj, List.getElem?_set_ne hj]

/-- What a changed slot adds to a count, and what it takes away. -/
theorem countP_set_add (p : α → Bool) (hi : slots[i]? = some x) :
    (slots.set i y).countP p + (p x).toNat = slots.countP p + (p y).toNat := by
  obtain ⟨hlt, hget⟩ := List.getElem?_eq_some_iff.mp hi
  have hle : (if p slots[i] then 1 else 0) ≤ slots.countP p :=
    List.boole_getElem_le_countP hlt
  rw [List.countP_set hlt]
  rw [hget] at hle ⊢
  cases hx : p x <;> cases p y <;> rw [hx] at hle <;>
    simp only [Bool.false_eq_true, if_true, if_false, Bool.toNat_true, Bool.toNat_false]
      at hle ⊢ <;> omega

theorem getElem?_set_iff (hi : slots[i]? = some x) :
    (slots.set i y)[j]? = some y ∧ j = i ∨ j ≠ i ∧ (slots.set i y)[j]? = slots[j]? := by
  by_cases hj : j = i
  · subst hj
    exact .inl ⟨List.getElem?_set_self (List.getElem?_eq_some_iff.mp hi).1, rfl⟩
  · exact .inr ⟨hj, List.getElem?_set_ne (Ne.symm hj)⟩

/-- A slot of the list is filled. -/
theorem Free.fill (h : Free vacant slots (i :: free)) (hi : slots[i]? = some x)
    (hy : vacant y = false) : Free vacant (slots.set i y) free := by
  obtain ⟨hnotmem, hnodup⟩ := List.nodup_cons.mp h.nodup
  refine ⟨hnodup, fun j => ?_⟩
  rcases getElem?_set_iff (y := y) (j := j) hi with ⟨hset, rfl⟩ | ⟨hj, hset⟩
  · rw [hset]
    refine ⟨fun hf => absurd hf hnotmem, ?_⟩
    rintro ⟨z, hz, hvacant⟩
    cases hz
    exact absurd (hy.symm.trans hvacant) (by decide)
  · rw [hset, ← h.mem_iff j, List.mem_cons]
    exact ⟨.inr, fun hf => hf.resolve_left hj⟩

/-- A slot in use is added at the end. -/
theorem Free.push (h : Free vacant slots free) (hy : vacant y = false) :
    Free vacant (slots ++ [y]) free := by
  refine ⟨h.nodup, fun j => ?_⟩
  rw [h.mem_iff j]
  constructor
  · rintro ⟨x, hx, hvacant⟩
    exact ⟨x, (List.getElem?_append_left (List.getElem?_eq_some_iff.mp hx).1).trans hx, hvacant⟩
  · rintro ⟨x, hx, hvacant⟩
    rcases Nat.lt_or_ge j slots.length with hj | hj
    · rw [List.getElem?_append_left hj] at hx
      exact ⟨x, hx, hvacant⟩
    · rw [List.getElem?_append_right hj] at hx
      obtain rfl := List.mem_singleton.mp (List.mem_of_getElem? hx)
      exact absurd (hy.symm.trans hvacant) (by decide)

/-- A vacant slot is added at the end. -/
theorem Free.grow (h : Free vacant slots free) (hy : vacant y = true) :
    Free vacant (slots ++ [y]) (slots.length :: free) := by
  have hlt : ∀ j ∈ free, j < slots.length := by
    intro j hj
    obtain ⟨x, hx, -⟩ := (h.mem_iff j).mp hj
    exact (List.getElem?_eq_some_iff.mp hx).1
  refine ⟨List.nodup_cons.mpr ⟨fun hmem => Nat.lt_irrefl _ (hlt _ hmem), h.nodup⟩, fun j => ?_⟩
  rw [List.mem_cons]
  constructor
  · rintro (rfl | hj)
    · exact ⟨y, List.getElem?_concat_length .., hy⟩
    · obtain ⟨x, hx, hvacant⟩ := (h.mem_iff j).mp hj
      exact ⟨x, (List.getElem?_append_left (hlt j hj)).trans hx, hvacant⟩
  · rintro ⟨x, hx, hvacant⟩
    rcases Nat.lt_trichotomy j slots.length with hj | hj | hj
    · rw [List.getElem?_append_left hj] at hx
      exact .inr ((h.mem_iff j).mpr ⟨x, hx, hvacant⟩)
    · exact .inl hj
    · rw [List.getElem?_eq_none (List.length_append.trans_le hj)] at hx
      cases hx

/-- A slot is not in use any more. -/
theorem Free.vacate (h : Free vacant slots free) (hi : slots[i]? = some x)
    (hx : vacant x = false) (hy : vacant y = true) : Free vacant (slots.set i y) (i :: free) := by
  have hnotmem : i ∉ free := by
    intro hmem
    obtain ⟨z, hz, hvacant⟩ := (h.mem_iff i).mp hmem
    cases hi.symm.trans hz
    exact absurd (hx.symm.trans hvacant) (by decide)
  refine ⟨List.nodup_cons.mpr ⟨hnotmem, h.nodup⟩, fun j => ?_⟩
  rcases getElem?_set_iff (y := y) (j := j) hi with ⟨hset, rfl⟩ | ⟨hj, hset⟩
  · rw [hset]
    exact ⟨fun _ => ⟨y, rfl, hy⟩, fun _ => List.mem_cons_self ..⟩
  · rw [hset, ← h.mem_iff j, List.mem_cons]
    exact ⟨fun hf => hf.resolve_left hj, .inr⟩

/-- The end of the table is cut off, with the indices of its slots. -/
theorem Free.compact (h : Free vacant slots free) :
    Free vacant (slots.rdropWhile vacant)
      (free.filter fun i => decide (i < (slots.rdropWhile vacant).length)) := by
  refine ⟨h.nodup.filter _, fun j => ?_⟩
  rw [List.mem_filter, decide_eq_true_eq, h.mem_iff j]
  constructor
  · rintro ⟨hx, hj⟩
    rwa [getElem?_compact_of_lt hj]
  · rintro ⟨x, hx, hvacant⟩
    exact ⟨⟨x, getElem?_of_compact hx, hvacant⟩, (List.getElem?_eq_some_iff.mp hx).1⟩

/-- Where nothing is cut off, the list stays. -/
theorem Free.compact_self (h : Free vacant slots free)
    (hlength : (slots.rdropWhile vacant).length = slots.length) :
    Free vacant (slots.rdropWhile vacant) free := by
  have heq : slots.rdropWhile vacant = slots :=
    (List.rdropWhile_prefix ..).eq_of_length hlength
  rwa [heq]

end Veloq.Foundation.Slab
