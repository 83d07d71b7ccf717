import Mathlib.Algebra.Order.Ring.Nat
import Mathlib.Data.List.Nodup
import Mathlib.Data.List.Perm.Subperm
import Mathlib.Data.Nat.Bitwise
import Mathlib.Data.Nat.ModEq
import Mathlib.Data.Nat.Prime.Basic
set_option autoImplicit false

/-!
# Foundation: probe sequences

A probe sequence starts somewhere in a table of `n` entries and goes on by a fixed
stride, around the end of the table.  When the stride has no factor in common with `n`,
the first `n` probes are a permutation of the table.
-/

namespace Veloq.Foundation

/-- The first `n` probes of a table of `n` entries. -/
def probes (n start stride : Nat) : List Nat :=
  (List.range n).map fun i => (start + i * stride) % n

namespace Probes

variable {n start stride : Nat}

theorem length : (probes n start stride).length = n := by
  simp only [probes, List.length_map, List.length_range]

theorem lt_of_mem {p : Nat} (h : p ∈ probes n start stride) : p < n := by
  obtain ⟨i, hi, rfl⟩ := List.mem_map.mp h
  exact Nat.mod_lt _ (Nat.zero_lt_of_lt (List.mem_range.mp hi))

/-- No entry is probed twice. -/
theorem nodup (hstride : Nat.Coprime n stride) : (probes n start stride).Nodup := by
  refine List.Nodup.map_on ?_ List.nodup_range
  intro i hi j hj hsame
  have hmod : start + i * stride ≡ start + j * stride [MOD n] := hsame
  have hij : i ≡ j [MOD n] :=
    Nat.ModEq.cancel_right_of_coprime hstride (Nat.ModEq.add_left_cancel' start hmod)
  exact hij.eq_of_lt_of_lt (List.mem_range.mp hi) (List.mem_range.mp hj)

/-- Every entry is probed exactly once. -/
theorem perm (hstride : Nat.Coprime n stride) : (probes n start stride).Perm (List.range n) := by
  have hsub : (probes n start stride).Subperm (List.range n) :=
    List.subperm_of_subset (nodup hstride) fun _ hp => List.mem_range.mpr (lt_of_mem hp)
  refine hsub.perm_of_length_le ?_
  rw [length, List.length_range]

end Probes

/-- An odd number has no factor in common with a power of two. -/
theorem coprime_two_pow_of_odd {stride : Nat} (h : stride % 2 = 1) (k : Nat) :
    Nat.Coprime (2 ^ k) stride :=
  Nat.Coprime.pow_left k (Nat.coprime_two_left.mpr (Nat.odd_iff.mpr h))

/-- Wrapping at a power of two beyond the table's changes nothing: a mask of `k` bits
takes the remainder by `2 ^ k`. -/
theorem wrapped_probe {k w : Nat} (h : k ≤ w) (start step : Nat) :
    (start + step % 2 ^ w) % 2 ^ w &&& (2 ^ k - 1) = (start + step) % 2 ^ k := by
  rw [Nat.and_two_pow_sub_one_eq_mod, Nat.add_mod_mod, Nat.mod_mod_of_dvd _ (Nat.pow_dvd_pow 2 h)]

end Veloq.Foundation
