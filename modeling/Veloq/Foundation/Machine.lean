import Mathlib.Data.Nat.Log
import Mathlib.Data.Nat.ModEq
set_option autoImplicit false

/-!
# Foundation: 64-bit machine arithmetic

Index arithmetic of the crates runs on `usize` and `u64`, both 64 bits wide on
every supported target.  Values are modelled as `Nat`; the operations that the
source writes with `wrapping_*` reduce modulo `2 ^ 64` here.  They are irreducible
so that no proof evaluates a remainder by `2 ^ 64` on a symbolic index.
-/

namespace Veloq.Foundation

/-- `a.wrapping_add(b)` on 64-bit words. -/
@[irreducible] def wrappingAdd (a b : Nat) : Nat := (a + b) % 2 ^ 64

/-- `a.wrapping_sub(b)` on 64-bit words. -/
@[irreducible] def wrappingSub (a b : Nat) : Nat := (a + 2 ^ 64 - b) % 2 ^ 64

/-- `n as u64`: the low 64 bits. -/
@[irreducible] def asU64 (n : Nat) : Nat := n % 2 ^ 64

/-- `a.checked_add(b)`, and `a + b` where an overflow is a fault. -/
@[irreducible] def checkedAdd (a b : Nat) : Option Nat :=
  if a + b < 2 ^ 64 then some (a + b) else none

/-- `a.checked_mul(b)`, and `a * b` where an overflow is a fault. -/
@[irreducible] def checkedMul (a b : Nat) : Option Nat :=
  if a * b < 2 ^ 64 then some (a * b) else none

/-- `std::time::Duration`, in nanoseconds. -/
abbrev Duration := Nat

/-- `Duration::from_millis`. -/
def Duration.fromMillis (ms : Nat) : Duration := ms * 10 ^ 6

/-- `Duration::as_millis`, a 128-bit number. -/
def Duration.asMillis (d : Duration) : Nat := d / 10 ^ 6

/-- `n.next_power_of_two()`: the least power of two that is at least `n`. -/
def nextPowerOfTwo (n : Nat) : Nat :=
  if n ≤ 1 then 1 else 2 ^ (Nat.log2 (n - 1) + 1)

theorem wrappingAdd_lt (a b : Nat) : wrappingAdd a b < 2 ^ 64 := by
  unfold wrappingAdd
  omega

theorem wrappingAdd_of_lt {a b : Nat} (h : a + b < 2 ^ 64) : wrappingAdd a b = a + b := by
  unfold wrappingAdd
  omega

theorem asU64_of_lt {n : Nat} (h : n < 2 ^ 64) : asU64 n = n := by
  unfold asU64
  omega

theorem checkedAdd_eq_some {a b c : Nat} (h : checkedAdd a b = some c) : c = a + b := by
  unfold checkedAdd at h
  split at h
  · exact (Option.some.inj h).symm
  · exact absurd h (by simp)

theorem checkedAdd_of_lt {a b : Nat} (h : a + b < 2 ^ 64) : checkedAdd a b = some (a + b) := by
  unfold checkedAdd
  rw [if_pos h]

theorem lt_of_checkedAdd {a b c : Nat} (h : checkedAdd a b = some c) : a + b < 2 ^ 64 := by
  unfold checkedAdd at h
  split at h
  · assumption
  · exact absurd h (by simp)

theorem checkedMul_eq_some {a b c : Nat} (h : checkedMul a b = some c) : c = a * b := by
  unfold checkedMul at h
  split at h
  · exact (Option.some.inj h).symm
  · exact absurd h (by simp)

theorem wrappingSub_of_le {a b : Nat} (ha : a < 2 ^ 64) (h : b ≤ a) :
    wrappingSub a b = a - b := by
  unfold wrappingSub
  omega

/-- The distance back to the start of an addition that did not wrap twice. -/
theorem wrappingSub_wrappingAdd {a b : Nat} (ha : a < 2 ^ 64) (hb : b < 2 ^ 64) :
    wrappingSub (wrappingAdd a b) a = b := by
  unfold wrappingSub wrappingAdd
  omega

/-- Wrapping does not disturb remainders by a power of two below the word size. -/
theorem wrappingAdd_mod_two_pow {k : Nat} (hk : k ≤ 64) (a b : Nat) :
    wrappingAdd a b % 2 ^ k = (a + b) % 2 ^ k := by
  unfold wrappingAdd
  exact Nat.mod_mod_of_dvd _ (Nat.pow_dvd_pow 2 hk)

/-- Numbers less than one rotation apart with the same remainder are equal. -/
theorem eq_of_mod_eq {a b n : Nat} (h : a % n = b % n) (hle : b ≤ a) (hlt : a < b + n) :
    a = b := by
  have hzero : (a - b) % n = 0 := Nat.sub_mod_eq_zero_of_mod_eq h
  rw [Nat.mod_eq_of_lt (by omega)] at hzero
  omega

/-- The distance between two slots of a circle of `2 ^ b` slots. -/
theorem wrappingSub_mod_two_pow {a b i : Nat} (hb : b ≤ 64) (hi : i < 2 ^ b) (ha : a < 2 ^ 64) :
    wrappingSub ((a + i) % 2 ^ b) a % 2 ^ b = i := by
  unfold wrappingSub
  rw [Nat.mod_mod_of_dvd _ (Nat.pow_dvd_pow 2 hb)]
  have hsum : (a + i) % 2 ^ b + 2 ^ 64 - a + a = (a + i) % 2 ^ b + 2 ^ 64 := by omega
  have hzero : 2 ^ 64 ≡ 0 [MOD 2 ^ b] :=
    (Nat.modEq_zero_iff_dvd).mpr (Nat.pow_dvd_pow 2 hb)
  have hmod : (a + i) % 2 ^ b + 2 ^ 64 - a + a ≡ i + a [MOD 2 ^ b] := by
    rw [hsum]
    calc (a + i) % 2 ^ b + 2 ^ 64 ≡ (a + i) + 0 [MOD 2 ^ b] :=
          (Nat.mod_modEq _ _).add hzero
      _ = i + a := by omega
  exact Eq.trans (Nat.ModEq.add_right_cancel' a hmod) (Nat.mod_eq_of_lt hi)

/-- Every slot of a circle is at some distance from every other. -/
theorem exists_offset {n r : Nat} (base : Nat) (hr : r < n) :
    ∃ j, j < n ∧ (base + j) % n = r := by
  have hlt : base % n < n := Nat.mod_lt base (by omega)
  refine ⟨(r + (n - base % n)) % n, Nat.mod_lt _ (by omega), ?_⟩
  calc (base + (r + (n - base % n)) % n) % n
      = (base % n + (r + (n - base % n))) % n := by rw [Nat.add_mod_mod, Nat.mod_add_mod]
    _ = (r + n) % n := by rw [show base % n + (r + (n - base % n)) = r + n by omega]
    _ = r := by rw [Nat.add_mod_right, Nat.mod_eq_of_lt hr]

/-- A step that does not pass a multiple of `n` ends on the next multiple or stays
before it. -/
theorem div_add_step {a step n : Nat} (hpos : 0 < step) (hstep : step ≤ n - a % n) :
    if (a + step) % n = 0 then (a + step) / n = a / n + 1 else (a + step) / n = a / n := by
  have hn : 0 < n := by omega
  have hmod : a % n < n := Nat.mod_lt a hn
  have hdiv : n * (a / n) + a % n = a := Nat.div_add_mod a n
  by_cases hend : step = n - a % n
  · have hsum : a + step = n * (a / n + 1) := by
      rw [Nat.mul_add, Nat.mul_one]
      omega
    rw [hsum, Nat.mul_mod_right, if_pos rfl, Nat.mul_div_cancel_left _ hn]
  · have hsum : a + step = n * (a / n) + (a % n + step) := by omega
    have hlt : a % n + step < n := by omega
    have hmod' : (a + step) % n = a % n + step := by
      rw [hsum, Nat.mul_add_mod, Nat.mod_eq_of_lt hlt]
    have hdiv' : (a + step) / n = a / n := by
      rw [hsum, Nat.mul_add_div hn, Nat.div_eq_of_lt hlt, Nat.add_zero]
    rw [hmod', if_neg (by omega), hdiv']

theorem exists_nextPowerOfTwo (n : Nat) : ∃ k, nextPowerOfTwo n = 2 ^ k := by
  unfold nextPowerOfTwo
  split
  · exact ⟨0, rfl⟩
  · exact ⟨_, rfl⟩

end Veloq.Foundation
