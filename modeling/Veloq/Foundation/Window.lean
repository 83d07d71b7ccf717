import Mathlib.Data.List.Basic
import Mathlib.Data.Nat.ModEq
import Mathlib.Logic.Function.Basic
set_option autoImplicit false

/-!
# Foundation: a list stored in a window of circular cells

`Window m cells start items` says that `items` lie in consecutive cells of a
circular buffer of `m` cells, the first one in cell `start % m`.  An empty cell is
`none`.  The three rules say how the window moves: it grows by one cell at its
end, shrinks by one cell at its start, and survives being copied to the front of
another buffer.
-/

namespace Veloq.Foundation

variable {α : Type}

/-- `items` occupy the cells `start, start + 1, …` of a circular buffer of `m`
cells. -/
structure Window (m : Nat) (cells : Nat → Option α) (start : Nat) (items : List α) : Prop where
  fits : items.length ≤ m
  holds : ∀ (i : Nat) (hi : i < items.length), cells ((start + i) % m) = some items[i]

namespace Window

variable {m start : Nat} {cells : Nat → Option α} {items : List α}

theorem nil (m : Nat) (cells : Nat → Option α) (start : Nat) : Window m cells start [] :=
  ⟨Nat.zero_le _, fun _ hi => absurd hi (Nat.not_lt_zero _)⟩

/-- The cells of a window are pairwise different. -/
theorem cell_ne {i j : Nat} (hi : i < m) (hj : j < m) (hij : i ≠ j) :
    (start + i) % m ≠ (start + j) % m := by
  intro h
  have h' : (i + start) % m = (j + start) % m := by
    rw [Nat.add_comm i, Nat.add_comm j]; exact h
  have hmod : i % m = j % m := Nat.ModEq.add_right_cancel' start h'
  rw [Nat.mod_eq_of_lt hi, Nat.mod_eq_of_lt hj] at hmod
  exact hij hmod

/-- Writing the cell after the last one appends to the list. -/
theorem push (h : Window m cells start items) (hroom : items.length < m) (item : α) :
    Window m (Function.update cells ((start + items.length) % m) (some item)) start
      (items ++ [item]) := by
  refine ⟨by simpa using Nat.succ_le_of_lt hroom, ?_⟩
  intro i hi
  by_cases hlast : i = items.length
  · subst hlast
    simp
  · have hlt : i < items.length := by
      simp only [List.length_append, List.length_cons, List.length_nil] at hi
      omega
    rw [Function.update_of_ne (cell_ne (by omega) hroom hlast), h.holds i hlt,
      List.getElem_append_left hlt]

/-- The first cell holds the first item. -/
theorem head {item : α} {rest : List α} (h : Window m cells start (item :: rest)) :
    cells (start % m) = some item := by
  have hfirst := h.holds 0 (by simp)
  rwa [Nat.add_zero, List.getElem_cons_zero] at hfirst

/-- Emptying the first cell drops the first item. -/
theorem pop {item : α} {rest : List α} (h : Window m cells start (item :: rest)) :
    Window m (Function.update cells (start % m) none) (start + 1) rest := by
  have hfits : rest.length < m := h.fits
  refine ⟨Nat.le_of_lt hfits, ?_⟩
  intro i hi
  have hcell : (start + (i + 1)) % m ≠ start % m :=
    cell_ne (j := 0) (by omega) (by omega) (by omega)
  have hnext := h.holds (i + 1) (by simpa using hi)
  rw [show start + 1 + i = start + (i + 1) by omega, Function.update_of_ne hcell, hnext,
    List.getElem_cons_succ]

/-- The window depends on the start only up to a full turn. -/
theorem congr_start {start' : Nat} (h : Window m cells start items)
    (hstart : start' % m = start % m) : Window m cells start' items := by
  refine ⟨h.fits, fun i hi => ?_⟩
  have hcell : (start' + i) % m = (start + i) % m := Nat.ModEq.add_right i hstart
  rw [hcell, h.holds i hi]

/-- Copying the items, in order, to the front of a buffer with room for them. -/
theorem rebase {m' : Nat} {cells' : Nat → Option α} (h : Window m cells start items)
    (hfits : items.length ≤ m')
    (hcopy : ∀ i, i < items.length → cells' i = cells ((start + i) % m)) :
    Window m' cells' 0 items := by
  refine ⟨hfits, fun i hi => ?_⟩
  rw [Nat.zero_add, Nat.mod_eq_of_lt (by omega), hcopy i hi, h.holds i hi]

end Window

end Veloq.Foundation
