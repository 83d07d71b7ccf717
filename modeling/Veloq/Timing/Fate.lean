import Veloq.Timing.Model
set_option autoImplicit false

/-!
# Timing: what becomes of one entry

How the wheel treats an entry depends on the tick and on this entry alone: an entry of
`L0` leaves when the tick passes its slot, an entry of `L1` leaves or moves down when the
slot it is filed in has its turn.  So the runs of a wheel are compared entry by entry:
`leaps` follows one entry through the steps that `advance` takes at once, `ticks` through
as many single ticks.

The two part only where a step of several ticks passes the end of the 64 bits: the count
goes on at zero, which is a multiple of the ratio, and the step does not stop there.
-/

namespace Veloq.Timing

open Veloq.Foundation

/-- What the wheel keeps of an entry besides its place in a list. -/
structure Held (T : Type) where
  item : Option T
  deadline : Nat
  level : LevelIdx
  deriving DecidableEq, Repr

/-- The slots of the two levels, and how many ticks of `L0` make one of `L1`. -/
structure Gauge where
  l0 : Nat
  l1 : Nat
  ratio : Nat
  deriving DecidableEq, Repr

namespace Gauge

variable {T : Type} {g : Gauge} {t s n fuel : Nat} {e : Held T}

/-- Slot counts are powers of two that fit a `usize`, and the ratio is positive. -/
structure Valid (g : Gauge) : Prop where
  l0 : ∃ a, a ≤ 63 ∧ g.l0 = 2 ^ a
  l1 : ∃ a, a ≤ 63 ∧ g.l1 = 2 ^ a
  ratio : 1 ≤ g.ratio

/-- The slots of `L0` that a step of `s` ticks drains. -/
def passed (g : Gauge) (t s : Nat) : List Nat :=
  if s ≥ g.l0 then
    List.range g.l0
  else
    (List.range s).map fun i => wrappingAdd t (i + 1) % g.l0

/-- The slot of `L1` in which `deadline` is filed has its turn at `tick`. -/
def Turn (g : Gauge) (tick deadline : Nat) : Prop :=
  tick % g.ratio = 0 ∧ deadline / g.ratio % g.l1 = tick / g.ratio % g.l1

instance (g : Gauge) (tick deadline : Nat) : Decidable (g.Turn tick deadline) :=
  inferInstanceAs (Decidable (_ ∧ _))

/-- `cascade` at `tick`. -/
def cascade (g : Gauge) (tick : Nat) (e : Held T) : Option (Held T) :=
  if e.level = .l1 ∧ g.Turn tick e.deadline then
    if e.item.isNone ∨ e.deadline ≤ tick then
      none
    else
      some { e with level := if wrappingSub e.deadline tick < g.l0 then .l0 else .l1 }
  else
    some e

/-- A step of `s` ticks at once. -/
def leap (g : Gauge) (t s : Nat) (e : Held T) : Option (Held T) :=
  if e.level = .l0 ∧ e.deadline % g.l0 ∈ g.passed t s then
    none
  else
    g.cascade (wrappingAdd t s) e

/-- `n` steps of one tick. -/
def ticks (g : Gauge) (t : Nat) : Nat → Held T → Option (Held T)
  | 0, e => some e
  | n + 1, e => (g.leap t 1 e).bind (ticks g (wrappingAdd t 1) n)

/-- How far `advance` goes at once. -/
def stride (g : Gauge) (t n : Nat) : Nat := min n (g.ratio - t % g.ratio)

/-- The steps of `advance` by `n` ticks. -/
def leaps (g : Gauge) : Nat → Nat → Nat → Held T → Option (Held T)
  | _, _, 0, e => some e
  | 0, _, _ + 1, _ => none
  | fuel + 1, t, n + 1, e =>
      (g.leap t (g.stride t (n + 1)) e).bind
        (leaps g fuel (wrappingAdd t (g.stride t (n + 1))) (n + 1 - g.stride t (n + 1)))

/-! ## Arithmetic of the ticks -/

theorem wrappingAdd_zero (ht : t < 2 ^ 64) : wrappingAdd t 0 = t := wrappingAdd_of_lt ht

theorem wrappingAdd_of_eq (h : t + s = 2 ^ 64) : wrappingAdd t s = 0 := by
  unfold wrappingAdd
  omega

theorem wrappingAdd_of_le (ht : t < 2 ^ 64) (hs : s < 2 ^ 64) (h : 2 ^ 64 ≤ t + s) :
    wrappingAdd t s = t + s - 2 ^ 64 := by
  unfold wrappingAdd
  omega

theorem wrappingAdd_assoc (t s n : Nat) :
    wrappingAdd (wrappingAdd t s) n = wrappingAdd t (s + n) := by
  unfold wrappingAdd
  omega

namespace Valid

theorem l0_pos (hg : g.Valid) : 0 < g.l0 := by
  obtain ⟨a, -, ha⟩ := hg.l0
  rw [ha]
  exact Nat.two_pow_pos a

theorem l1_pos (hg : g.Valid) : 0 < g.l1 := by
  obtain ⟨a, -, ha⟩ := hg.l1
  rw [ha]
  exact Nat.two_pow_pos a

/-- The end of the 64 bits does not disturb the slots of `L0`. -/
theorem wrappingAdd_mod (hg : g.Valid) (t s : Nat) : wrappingAdd t s % g.l0 = (t + s) % g.l0 := by
  obtain ⟨a, ha, heq⟩ := hg.l0
  rw [heq]
  exact wrappingAdd_mod_two_pow (by omega) t s

/-- The slots a step drains are those of the ticks it passes. -/
theorem mem_passed (hg : g.Valid) {slot : Nat} :
    slot ∈ g.passed t s ↔ ∃ i < s, slot = (t + (i + 1)) % g.l0 := by
  unfold passed
  split
  · rename_i hs
    rw [List.mem_range]
    constructor
    · intro hslot
      obtain ⟨j, hj, heq⟩ := exists_offset (t + 1) hslot
      exact ⟨j, by omega, by rw [← heq]; congr 1; omega⟩
    · rintro ⟨i, -, rfl⟩
      exact Nat.mod_lt _ hg.l0_pos
  · rw [List.mem_map]
    constructor
    · rintro ⟨i, hi, rfl⟩
      exact ⟨i, List.mem_range.mp hi, hg.wrappingAdd_mod t (i + 1)⟩
    · rintro ⟨i, hi, rfl⟩
      exact ⟨i, List.mem_range.mpr hi, hg.wrappingAdd_mod t (i + 1)⟩

end Valid

/-- Before the next multiple of the ratio no slot of `L1` has its turn. -/
theorem not_turn_of_lt {deadline i : Nat} (hi : 0 < i) (hlt : i < g.ratio - t % g.ratio) :
    ¬ g.Turn (t + i) deadline := by
  rintro ⟨hmod, -⟩
  have hsplit : (t + i) % g.ratio = (t % g.ratio + i) % g.ratio := by rw [Nat.mod_add_mod]
  rw [hsplit, Nat.mod_eq_of_lt (by omega)] at hmod
  omega

/-- The first slot of `L1` has its turn once in a rotation of this level. -/
theorem turn_zero_iff {tick deadline : Nat} (hfirst : deadline / g.ratio % g.l1 = 0) :
    g.Turn tick deadline ↔ g.ratio * g.l1 ∣ tick := by
  unfold Turn
  rw [hfirst]
  constructor
  · rintro ⟨hratio, hl1⟩
    obtain ⟨q, rfl⟩ := Nat.dvd_of_mod_eq_zero hratio
    rcases Nat.eq_zero_or_pos g.ratio with hzero | hpos
    · rw [hzero, Nat.zero_mul, Nat.zero_mul]
    · rw [Nat.mul_div_cancel_left q hpos] at hl1
      exact Nat.mul_dvd_mul_left _ (Nat.dvd_of_mod_eq_zero hl1.symm)
  · rintro ⟨q, rfl⟩
    rw [Nat.mul_assoc]
    refine ⟨Nat.mul_mod_right _ _, ?_⟩
    rcases Nat.eq_zero_or_pos g.ratio with hzero | hpos
    · rw [hzero, Nat.zero_mul, Nat.zero_div, Nat.zero_mod]
    · rw [Nat.mul_div_cancel_left _ hpos, Nat.mul_mod_right]

/-! ## Single steps -/

theorem leap_of_l1 (hlevel : e.level = .l1) : g.leap t s e = g.cascade (wrappingAdd t s) e := by
  unfold leap
  rw [if_neg (by rw [hlevel]; simp)]

theorem cascade_of_not_turn {tick : Nat} (h : ¬ g.Turn tick e.deadline) :
    g.cascade tick e = some e := by
  unfold cascade
  rw [if_neg (fun hturn => h hturn.2)]

theorem cascade_of_turn {tick : Nat} (hlevel : e.level = .l1) (h : g.Turn tick e.deadline) :
    g.cascade tick e =
      if e.item.isNone ∨ e.deadline ≤ tick then
        none
      else
        some { e with level := if wrappingSub e.deadline tick < g.l0 then .l0 else .l1 } := by
  unfold cascade
  rw [if_pos ⟨hlevel, h⟩]

theorem cascade_of_l0 {tick : Nat} (hlevel : e.level = .l0) : g.cascade tick e = some e := by
  unfold cascade
  rw [if_neg (by rw [hlevel]; simp)]

/-- An entry of `L0` leaves when the tick passes its slot. -/
theorem leap_of_l0 (hg : g.Valid) (hlevel : e.level = .l0) :
    g.leap t s e =
      if ∃ i < s, e.deadline % g.l0 = (t + (i + 1)) % g.l0 then none else some e := by
  unfold leap
  rw [cascade_of_l0 hlevel]
  exact if_congr ((and_iff_right hlevel).trans hg.mem_passed) rfl rfl

/-! ## Several ticks -/

theorem ticks_add (ht : t < 2 ^ 64) (m n : Nat) (e : Held T) :
    g.ticks t (m + n) e = (g.ticks t m e).bind (g.ticks (wrappingAdd t m) n) := by
  induction m generalizing t e with
  | zero => rw [Nat.zero_add, ticks, Option.bind_some, wrappingAdd_zero ht]
  | succ m ih =>
    rw [Nat.succ_add, ticks, ticks, Option.bind_assoc]
    refine congrArg _ (funext fun e' => ?_)
    rw [ih (wrappingAdd_lt t 1), wrappingAdd_assoc, Nat.add_comm 1 m]

theorem ticks_split (ht : t < 2 ^ 64) (hs : s ≤ n) :
    g.ticks t n e = (g.ticks t s e).bind (g.ticks (wrappingAdd t s) (n - s)) := by
  rw [← ticks_add ht, Nat.add_sub_cancel' hs]

theorem ticks_of_l0 (hg : g.Valid) (ht : t < 2 ^ 64) (hlevel : e.level = .l0) :
    g.ticks t n e =
      if ∃ i < n, e.deadline % g.l0 = (t + (i + 1)) % g.l0 then none else some e := by
  induction n with
  | zero => simp [ticks]
  | succ n ih =>
    rw [ticks_add ht, ih]
    by_cases hgone : ∃ i < n, e.deadline % g.l0 = (t + (i + 1)) % g.l0
    · obtain ⟨i, hi, heq⟩ := hgone
      rw [if_pos ⟨i, hi, heq⟩, if_pos ⟨i, by omega, heq⟩]
      rfl
    · have hshift : (wrappingAdd t n + (0 + 1)) % g.l0 = (t + (n + 1)) % g.l0 := by
        rw [Nat.add_mod, hg.wrappingAdd_mod, ← Nat.add_mod, Nat.add_assoc]
      rw [if_neg hgone, Option.bind_some, ticks, leap_of_l0 hg hlevel]
      by_cases hlast : e.deadline % g.l0 = (t + (n + 1)) % g.l0
      · rw [if_pos ⟨0, Nat.one_pos, hlast.trans hshift.symm⟩,
          if_pos ⟨n, Nat.lt_succ_self n, hlast⟩]
        rfl
      · rw [if_neg, if_neg, Option.bind_some, ticks]
        · rintro ⟨i, hi, heq⟩
          rcases Nat.lt_succ_iff_lt_or_eq.mp hi with hlt | rfl
          · exact hgone ⟨i, hlt, heq⟩
          · exact hlast heq
        · rintro ⟨i, hi, heq⟩
          obtain rfl : i = 0 := by omega
          exact hlast (heq.trans hshift)

/-- An entry of `L1` whose slot has no turn stays where it is. -/
theorem ticks_of_not_turn (ht : t < 2 ^ 64) (hlevel : e.level = .l1)
    (h : ∀ i < n, ¬ g.Turn (wrappingAdd t (i + 1)) e.deadline) : g.ticks t n e = some e := by
  induction n with
  | zero => rfl
  | succ n ih =>
    rw [ticks_add ht, ih fun i hi => h i (by omega), Option.bind_some, ticks, leap_of_l1 hlevel,
      wrappingAdd_assoc, cascade_of_not_turn (h n (Nat.lt_succ_self n))]
    rfl

/-- An entry of `L1` up to a tick at which its slot may have its turn. -/
theorem ticks_of_l1 (ht : t < 2 ^ 64) (hlevel : e.level = .l1)
    (h : ∀ i < n, ¬ g.Turn (wrappingAdd t (i + 1)) e.deadline) :
    g.ticks t (n + 1) e = g.cascade (wrappingAdd t (n + 1)) e := by
  rw [ticks_add ht, ticks_of_not_turn ht hlevel h, Option.bind_some, ticks, leap_of_l1 hlevel,
    wrappingAdd_assoc]
  cases g.cascade (wrappingAdd t (n + 1)) e <;> rfl

/-- A step that does not pass the end of the 64 bits does what its ticks do. -/
theorem leap_eq_ticks (hg : g.Valid) (ht : t < 2 ^ 64) (hpos : 0 < s)
    (hs : s ≤ g.ratio - t % g.ratio) (hend : t + s ≤ 2 ^ 64) :
    g.leap t s e = g.ticks t s e := by
  cases hlevel : e.level with
  | l0 => rw [leap_of_l0 hg hlevel, ticks_of_l0 hg ht hlevel]
  | l1 =>
    obtain ⟨n, rfl⟩ : ∃ n, s = n + 1 := ⟨s - 1, by omega⟩
    rw [leap_of_l1 hlevel, ticks_of_l1 ht hlevel]
    intro i hi
    rw [wrappingAdd_of_lt (by omega)]
    exact not_turn_of_lt (Nat.succ_pos i) (by omega)

theorem stride_pos (hg : g.Valid) (t n : Nat) : 0 < g.stride t (n + 1) := by
  have hmod : t % g.ratio < g.ratio := Nat.mod_lt t hg.ratio
  unfold stride
  omega

theorem stride_le (g : Gauge) (t n : Nat) : g.stride t n ≤ n := Nat.min_le_left _ _

theorem stride_le_ratio (g : Gauge) (t n : Nat) : g.stride t n ≤ g.ratio - t % g.ratio :=
  Nat.min_le_right _ _

/-- The next multiple of the ratio is the first one after `t`. -/
theorem next_multiple_le (hg : g.Valid) {x : Nat} (hx : g.ratio ∣ x) (hlt : t < x) :
    t + (g.ratio - t % g.ratio) ≤ x := by
  obtain ⟨q, rfl⟩ := hx
  have hdiv : t / g.ratio + 1 ≤ q := Nat.div_lt_of_lt_mul hlt
  have hmul := Nat.mul_le_mul_left g.ratio hdiv
  have hsplit := Nat.div_add_mod t g.ratio
  have hmod : t % g.ratio < g.ratio := Nat.mod_lt t hg.ratio
  rw [Nat.mul_add, Nat.mul_one] at hmul
  omega

/-- No step of `advance` passes zero without stopping there. -/
def Inside (g : Gauge) (t n : Nat) : Prop := g.ratio ∣ 2 ^ 64 ∨ t + n ≤ 2 ^ 64

theorem Inside.stride (hg : g.Valid) (ht : t < 2 ^ 64) (h : g.Inside t n) :
    t + g.stride t n ≤ 2 ^ 64 := by
  have hle := g.stride_le t n
  have hstep := g.stride_le_ratio t n
  rcases h with hdvd | hend
  · have hnext := next_multiple_le hg hdvd ht
    omega
  · omega

theorem Inside.rest (ht : t < 2 ^ 64) (h : g.Inside t n) (hs : t + s ≤ 2 ^ 64) (hle : s ≤ n) :
    g.Inside (wrappingAdd t s) (n - s) := by
  refine h.imp_right fun hend => ?_
  rcases Nat.lt_or_eq_of_le hs with hlt | heq
  · rw [wrappingAdd_of_lt hlt]
    omega
  · rw [wrappingAdd_of_eq heq]
    omega

/-- As long as no step passes the end of the 64 bits, `advance` does what its ticks do. -/
theorem leaps_eq_ticks (hg : g.Valid) (ht : t < 2 ^ 64) (hfuel : n ≤ fuel) (h : g.Inside t n) :
    g.leaps fuel t n e = g.ticks t n e := by
  induction fuel generalizing t n e with
  | zero =>
    obtain rfl : n = 0 := Nat.le_zero.mp hfuel
    rfl
  | succ fuel ih =>
    cases n with
    | zero => rfl
    | succ n =>
      set s := g.stride t (n + 1) with hs
      have hpos : 0 < s := stride_pos hg t n
      have hle : s ≤ n + 1 := g.stride_le t (n + 1)
      have hend : t + s ≤ 2 ^ 64 := h.stride hg ht
      rw [leaps, ← hs, leap_eq_ticks hg ht hpos (g.stride_le_ratio t _) hend, ticks_split ht hle]
      refine congrArg _ (funext fun e' => ?_)
      exact ih (wrappingAdd_lt t s) (by omega) (h.rest ht hend hle)

/-! ## Past the end of the 64 bits -/

/-- After `n` ticks from `t` the entry is not where it would be had every tick been taken
by itself: zero, which a step passes, is the only turn of the first slot of `L1` since
`t`, and the entry was to leave this slot. -/
def Missed (g : Gauge) (t n : Nat) (e : Held T) : Prop :=
  (¬ g.ratio ∣ 2 ^ 64 ∧ 2 ^ 64 < t + n) ∧
    (2 ^ 64 ≤ (t / (g.ratio * g.l1) + 1) * (g.ratio * g.l1) ∧
      t + n < 2 ^ 64 + g.ratio * g.l1) ∧
    e.level = .l1 ∧ e.deadline / g.ratio % g.l1 = 0 ∧ (e.item.isNone ∨ e.deadline < g.l0)

instance (g : Gauge) (t n : Nat) (e : Held T) : Decidable (g.Missed t n e) :=
  inferInstanceAs (Decidable (_ ∧ _))

/-- Until its first turn after zero an entry of the first slot of `L1` stays there. -/
theorem ticks_zero_of_lt (hlevel : e.level = .l1) (hfirst : e.deadline / g.ratio % g.l1 = 0)
    (hn : n < 2 ^ 64) (hlt : n < g.ratio * g.l1) : g.ticks 0 n e = some e := by
  refine ticks_of_not_turn (Nat.two_pow_pos 64) hlevel fun i hi => ?_
  rw [wrappingAdd_of_lt (by omega), Nat.zero_add, turn_zero_iff hfirst]
  intro hdvd
  have hle := Nat.le_of_dvd (Nat.succ_pos i) hdvd
  omega

/-- At its first turn after zero an entry that was to leave at zero is treated as then. -/
theorem cascade_rotation (hg : g.Valid) (hlevel : e.level = .l1)
    (hfirst : e.deadline / g.ratio % g.l1 = 0) (hdead : e.deadline < 2 ^ 64)
    (hhit : e.item.isNone ∨ e.deadline < g.l0) :
    g.cascade (g.ratio * g.l1) e = (g.cascade 0 e).bind (g.ticks 0 (g.ratio * g.l1)) := by
  rw [cascade_of_turn hlevel ((turn_zero_iff hfirst).mpr (Nat.dvd_refl _)),
    cascade_of_turn hlevel ((turn_zero_iff hfirst).mpr (Nat.dvd_zero _))]
  by_cases hnone : e.item.isNone = true
  · rw [if_pos (Or.inl hnone), if_pos (Or.inl hnone)]
    rfl
  · have hnear : e.deadline < g.l0 := hhit.resolve_left hnone
    rw [wrappingSub_of_le hdead (Nat.zero_le _), Nat.sub_zero, if_pos hnear]
    by_cases hzero : e.deadline ≤ 0
    · rw [if_pos (Or.inr hzero), if_pos (Or.inr (Nat.le_trans hzero (Nat.zero_le _)))]
      rfl
    · rw [if_neg (not_or.mpr ⟨hnone, hzero⟩), Option.bind_some,
        ticks_of_l0 hg (Nat.two_pow_pos 64) rfl]
      simp only [Nat.zero_add, Nat.mod_eq_of_lt hnear]
      by_cases hlate : e.deadline ≤ g.ratio * g.l1
      · rw [if_pos (Or.inr hlate), if_pos]
        exact ⟨e.deadline - 1, by omega, by
          rw [Nat.sub_add_cancel (by omega), Nat.mod_eq_of_lt hnear]⟩
      · have hdown : wrappingSub e.deadline (g.ratio * g.l1) < g.l0 := by
          rw [wrappingSub_of_le hdead (by omega)]
          omega
        rw [if_neg (not_or.mpr ⟨hnone, hlate⟩), if_pos hdown, if_neg]
        rintro ⟨i, hi, heq⟩
        rw [Nat.mod_eq_of_lt (by omega)] at heq
        omega

/-- An entry of the first slot of `L1` that is not to leave it. -/
theorem cascade_zero_of_far (hlevel : e.level = .l1) (hdead : e.deadline < 2 ^ 64)
    (hpos : 0 < g.l0) (h : ¬ (e.item.isNone ∨ e.deadline < g.l0)) : g.cascade 0 e = some e := by
  by_cases hturn : g.Turn 0 e.deadline
  · obtain ⟨hitem, hfar⟩ := not_or.mp h
    rw [cascade_of_turn hlevel hturn, if_neg (not_or.mpr ⟨hitem, by omega⟩),
      wrappingSub_of_le hdead (Nat.zero_le _), Nat.sub_zero, if_neg hfar, ← hlevel]
  · exact cascade_of_not_turn hturn

/-- Without its turn at zero, an entry that was to leave then is in another place until
its next turn. -/
theorem ticks_zero_iff (hg : g.Valid) (hlevel : e.level = .l1)
    (hfirst : e.deadline / g.ratio % g.l1 = 0) (hdead : e.deadline < 2 ^ 64) (hn : n < 2 ^ 64) :
    g.ticks 0 n e = (g.cascade 0 e).bind (g.ticks 0 n) ↔
      ¬ (n < g.ratio * g.l1 ∧ (e.item.isNone ∨ e.deadline < g.l0)) := by
  by_cases hhit : e.item.isNone ∨ e.deadline < g.l0
  · by_cases hlt : n < g.ratio * g.l1
    · refine iff_of_false ?_ (fun h => h ⟨hlt, hhit⟩)
      rw [ticks_zero_of_lt hlevel hfirst hn hlt,
        cascade_of_turn hlevel ((turn_zero_iff hfirst).mpr (Nat.dvd_zero _))]
      split
      · exact Option.some_ne_none e
      · rename_i hstays
        have hnear : e.deadline < g.l0 := hhit.resolve_left (not_or.mp hstays).1
        rw [wrappingSub_of_le hdead (Nat.zero_le _), Nat.sub_zero, if_pos hnear, Option.bind_some,
          ticks_of_l0 hg (Nat.two_pow_pos 64) rfl]
        split
        · exact Option.some_ne_none e
        · intro heq
          have hl0 : e.level = .l0 := congrArg Held.level (Option.some.inj heq)
          rw [hlevel] at hl0
          cases hl0
    · refine iff_of_true ?_ (fun h => hlt h.1)
      have hpos : 0 < g.ratio * g.l1 := Nat.mul_pos hg.ratio hg.l1_pos
      have hle : g.ratio * g.l1 ≤ n := Nat.not_lt.mp hlt
      have hfirstTurn : g.ticks 0 (g.ratio * g.l1) e = g.cascade (g.ratio * g.l1) e := by
        obtain ⟨q, hq⟩ : ∃ q, g.ratio * g.l1 = q + 1 := ⟨g.ratio * g.l1 - 1, by omega⟩
        rw [hq, ticks_add (Nat.two_pow_pos 64),
          ticks_zero_of_lt hlevel hfirst (by omega) (by omega), Option.bind_some, ticks,
          leap_of_l1 hlevel, wrappingAdd_assoc, wrappingAdd_of_lt (by omega), Nat.zero_add]
        cases g.cascade (q + 1) e <;> rfl
      rw [ticks_split (Nat.two_pow_pos 64) hle, hfirstTurn,
        cascade_rotation hg hlevel hfirst hdead hhit, Option.bind_assoc]
      refine congrArg _ (funext fun e' => ?_)
      exact (ticks_split (Nat.two_pow_pos 64) hle).symm
  · refine iff_of_true ?_ (fun h => hhit h.2)
    rw [cascade_zero_of_far hlevel hdead hg.l0_pos hhit, Option.bind_some]

theorem lt_next_rotation (hg : g.Valid) (t : Nat) :
    t < (t / (g.ratio * g.l1) + 1) * (g.ratio * g.l1) := by
  rw [Nat.mul_comm]
  exact Nat.lt_mul_div_succ t (Nat.mul_pos hg.ratio hg.l1_pos)

/-- The step that passes zero. -/
theorem leap_overrun_iff (hg : g.Valid) (ht : t < 2 ^ 64) (hn : n < 2 ^ 64)
    (hdead : e.deadline < 2 ^ 64) (hstep : s ≤ g.ratio - t % g.ratio) (hover : 2 ^ 64 < t + s)
    (hle : s ≤ n) (hratio : ¬ g.ratio ∣ 2 ^ 64) :
    (g.leap t s e).bind (g.ticks (wrappingAdd t s) (n - s)) = g.ticks t n e ↔
      ¬ g.Missed t n e := by
  cases hlevel : e.level with
  | l0 =>
    refine iff_of_true ?_ fun hmissed => ?_
    · rw [ticks_split ht hle, leap_of_l0 hg hlevel, ticks_of_l0 hg ht hlevel]
    · have hl1 := hmissed.2.2.1
      rw [hlevel] at hl1
      cases hl1
  | l1 =>
    have hrest : wrappingAdd t s = t + s - 2 ^ 64 :=
      wrappingAdd_of_le ht (by omega) (by omega)
    have hmod : t % g.ratio < g.ratio := Nat.mod_lt t hg.ratio
    -- from zero on both are at the same tick
    have hleap : (g.leap t s e).bind (g.ticks (wrappingAdd t s) (n - s)) =
        g.ticks 0 (t + n - 2 ^ 64) e := by
      have hstay : ∀ i < t + s - 2 ^ 64, ¬ g.Turn (wrappingAdd 0 (i + 1)) e.deadline := by
        intro i hi
        rw [wrappingAdd_of_lt (by omega)]
        exact not_turn_of_lt (Nat.succ_pos i) (by rw [Nat.zero_mod]; omega)
      have hlast := hstay (t + s - 2 ^ 64 - 1) (by omega)
      rw [Nat.sub_add_cancel (by omega), wrappingAdd_of_lt (by omega), Nat.zero_add] at hlast
      rw [leap_of_l1 hlevel, hrest, cascade_of_not_turn hlast, Option.bind_some,
        ticks_split (Nat.two_pow_pos 64) (show t + s - 2 ^ 64 ≤ t + n - 2 ^ 64 by omega),
        ticks_of_not_turn (Nat.two_pow_pos 64) hlevel hstay, Option.bind_some,
        wrappingAdd_of_lt (by omega), Nat.zero_add,
        show t + n - 2 ^ 64 - (t + s - 2 ^ 64) = n - s by omega]
    have hticks : g.ticks t n e = (g.cascade 0 e).bind (g.ticks 0 (t + n - 2 ^ 64)) := by
      obtain ⟨k, hk⟩ : ∃ k, 2 ^ 64 - t = k + 1 := ⟨2 ^ 64 - t - 1, by omega⟩
      have hzero : wrappingAdd t (k + 1) = 0 := wrappingAdd_of_eq (by omega)
      rw [ticks_split ht (show k + 1 ≤ n by omega), ticks_of_l1 ht hlevel, hzero,
        show n - (k + 1) = t + n - 2 ^ 64 by omega]
      intro i hi
      rw [wrappingAdd_of_lt (by omega)]
      exact not_turn_of_lt (Nat.succ_pos i) (by omega)
    rw [hleap, hticks]
    by_cases hfirst : e.deadline / g.ratio % g.l1 = 0
    · rw [ticks_zero_iff hg hlevel hfirst hdead (by omega)]
      have hrotation : 2 ^ 64 ≤ (t / (g.ratio * g.l1) + 1) * (g.ratio * g.l1) := by
        have hnext := next_multiple_le hg (t := t)
          (Dvd.dvd.mul_left (Nat.dvd_mul_right g.ratio g.l1) _) (lt_next_rotation hg t)
        omega
      refine not_congr ⟨fun h => ?_, fun h => ?_⟩
      · exact ⟨⟨hratio, by omega⟩, ⟨hrotation, by omega⟩, hlevel, hfirst, h.2⟩
      · have hbound := h.2.1.2
        exact ⟨by omega, h.2.2.2.2⟩
    · refine iff_of_true ?_ fun hmissed => hfirst hmissed.2.2.2.1
      rw [cascade_of_not_turn, Option.bind_some]
      rintro ⟨-, hslot⟩
      rw [Nat.zero_div, Nat.zero_mod] at hslot
      exact hfirst hslot

theorem cascade_eq_some {tick : Nat} {e' : Held T} (h : g.cascade tick e = some e') :
    e'.item = e.item ∧ e'.deadline = e.deadline := by
  unfold cascade at h
  split at h
  · split at h
    · cases h
    · cases h
      exact ⟨rfl, rfl⟩
  · cases h
    exact ⟨rfl, rfl⟩

/-- A step moves an entry or takes it out, and changes nothing else about it. -/
theorem leap_eq_some {e' : Held T} (h : g.leap t s e = some e') :
    e'.item = e.item ∧ e'.deadline = e.deadline := by
  unfold leap at h
  split at h
  · cases h
  · exact cascade_eq_some h

theorem leaps_eq_some {e' : Held T} (h : g.leaps fuel t n e = some e') :
    e'.item = e.item ∧ e'.deadline = e.deadline := by
  induction fuel generalizing t n e with
  | zero =>
    cases n with
    | succ n => cases h
    | zero =>
      cases h
      exact ⟨rfl, rfl⟩
  | succ fuel ih =>
    cases n with
    | zero =>
      cases h
      exact ⟨rfl, rfl⟩
    | succ n =>
      obtain ⟨e₁, hleap, hrest⟩ := Option.bind_eq_some_iff.mp h
      obtain ⟨hitem, hdead⟩ := leap_eq_some hleap
      obtain ⟨hitem', hdead'⟩ := ih hrest
      exact ⟨hitem'.trans hitem, hdead'.trans hdead⟩

/-- Whoever stays in `L1` at its turn is not due within a rotation of `L0`. -/
theorem far_of_cascade {tick : Nat} {e' : Held T} (hdead : e.deadline < 2 ^ 64)
    (hlevel : e.level = .l1) (hturn : g.Turn tick e.deadline) (h : g.cascade tick e = some e')
    (hl1 : e'.level = .l1) : ¬ (e'.item.isNone ∨ e'.deadline < g.l0) := by
  rw [cascade_of_turn hlevel hturn] at h
  split at h
  · cases h
  · rename_i hstays
    obtain ⟨hitem, hlate⟩ := not_or.mp hstays
    cases h
    rw [wrappingSub_of_le hdead (by omega)] at hl1
    split at hl1
    · cases hl1
    · show ¬ (e.item.isNone ∨ e.deadline < g.l0)
      exact not_or.mpr ⟨hitem, by omega⟩

theorem Missed.level (h : g.Missed t n e) : e.level = .l1 := h.2.2.1

theorem Missed.first (h : g.Missed t n e) : e.deadline / g.ratio % g.l1 = 0 := h.2.2.2.1

/-- A step that ends on a multiple of the ratio below `2 ^ 64` leaves what is missed
later. -/
theorem missed_leap_iff (hg : g.Valid) (hdead : e.deadline < 2 ^ 64)
    (hs : s = g.ratio - t % g.ratio) (hend : t + s < 2 ^ 64) (hle : s ≤ n) :
    g.Missed t n e ↔ ∃ e', g.leap t s e = some e' ∧ g.Missed (t + s) (n - s) e' := by
  have hmod : t % g.ratio < g.ratio := Nat.mod_lt t hg.ratio
  have hwrap : wrappingAdd t s = t + s := wrappingAdd_of_lt hend
  cases hlevel : e.level with
  | l0 =>
    refine iff_of_false (fun hmissed => ?_) ?_
    · have hl1 := hlevel.symm.trans hmissed.level
      cases hl1
    · rintro ⟨e', hleap, hmissed⟩
      rw [leap_of_l0 hg hlevel] at hleap
      split at hleap
      · cases hleap
      · cases hleap
        have hl1 := hlevel.symm.trans hmissed.level
        cases hl1
  | l1 =>
    rw [leap_of_l1 hlevel, hwrap]
    by_cases hfirst : e.deadline / g.ratio % g.l1 = 0
    · have hnext : ∀ x, g.ratio * g.l1 ∣ x → t < x → t + s ≤ x := fun x hx hlt =>
        hs ▸ next_multiple_le hg ((Nat.dvd_mul_right _ _).trans hx) hlt
      have hrotation := hnext _ (Nat.dvd_mul_left _ _) (lt_next_rotation hg t)
      by_cases hturn : g.Turn (t + s) e.deadline
      · -- the first slot has this turn before the one at zero
        refine iff_of_false (fun hmissed => ?_) ?_
        · obtain ⟨q, hq⟩ := (turn_zero_iff hfirst).mp hturn
          have hdiv : t / (g.ratio * g.l1) + 1 ≤ q := Nat.div_lt_of_lt_mul (by omega)
          have hmul := Nat.mul_le_mul_right (g.ratio * g.l1) hdiv
          have hbound := hmissed.2.1.1
          rw [Nat.mul_comm q] at hmul
          omega
        · rintro ⟨e', hcascade, hmissed⟩
          exact far_of_cascade hdead hlevel hturn hcascade hmissed.level hmissed.2.2.2.2
      · have hsame : (t + s) / (g.ratio * g.l1) = t / (g.ratio * g.l1) := by
          refine Nat.le_antisymm (Nat.le_of_lt_succ ?_) (Nat.div_le_div_right (by omega))
          refine Nat.div_lt_of_lt_mul ?_
          rw [Nat.mul_comm]
          refine Nat.lt_of_le_of_ne hrotation fun heq => hturn ((turn_zero_iff hfirst).mpr ?_)
          rw [heq]
          exact Nat.dvd_mul_left _ _
        rw [cascade_of_not_turn hturn]
        unfold Missed
        rw [hsame, show t + s + (n - s) = t + n by omega]
        constructor
        · exact fun hmissed => ⟨e, rfl, hmissed⟩
        · rintro ⟨e', heq, hmissed⟩
          cases heq
          exact hmissed
    · refine iff_of_false (fun hmissed => hfirst hmissed.first) ?_
      rintro ⟨e', hcascade, hmissed⟩
      rw [← (cascade_eq_some hcascade).2] at hfirst
      exact hfirst hmissed.first

/-- **One entry.**  After `n` ticks an entry is where the same number of single ticks takes
it, unless its turn at zero was missed. -/
theorem leaps_eq_ticks_iff (hg : g.Valid) (ht : t < 2 ^ 64) (hn : n < 2 ^ 64)
    (hdead : e.deadline < 2 ^ 64) (hfuel : n ≤ fuel) :
    g.leaps fuel t n e = g.ticks t n e ↔ ¬ g.Missed t n e := by
  by_cases hover : ¬ g.ratio ∣ 2 ^ 64 ∧ 2 ^ 64 < t + n
  · induction fuel generalizing t n e with
    | zero =>
      obtain rfl : n = 0 := Nat.le_zero.mp hfuel
      have hlt := hover.2
      omega
    | succ fuel ih =>
      obtain ⟨hratio, hlt⟩ := hover
      obtain ⟨n, rfl⟩ : ∃ m, n = m + 1 := ⟨n - 1, by omega⟩
      set s := g.stride t (n + 1) with hs
      have hpos : 0 < s := stride_pos hg t n
      have hle : s ≤ n + 1 := Nat.min_le_left _ _
      have hstep : s ≤ g.ratio - t % g.ratio := Nat.min_le_right _ _
      rw [leaps, ← hs]
      rcases Nat.lt_trichotomy (t + s) (2 ^ 64) with hend | hend | hend
      · have hmultiple : s = g.ratio - t % g.ratio := by
          unfold stride at hs
          omega
        rw [missed_leap_iff hg hdead hmultiple hend hle, ticks_split ht hle,
          ← leap_eq_ticks hg ht hpos hstep (by omega), wrappingAdd_of_lt hend]
        cases hleap : g.leap t s e with
        | none =>
          refine iff_of_true rfl ?_
          rintro ⟨e', heq, -⟩
          cases heq
        | some e' =>
          have hdead' : e'.deadline < 2 ^ 64 := by
            rw [(leap_eq_some hleap).2]
            exact hdead
          rw [Option.bind_some, Option.bind_some,
            ih hend (by omega) hdead' (by omega) ⟨hratio, by omega⟩]
          refine not_congr ⟨fun h => ⟨e', rfl, h⟩, ?_⟩
          rintro ⟨_, heq, hmissed⟩
          cases heq
          exact hmissed
      · -- the end of the 64 bits is no multiple of the ratio
        exfalso
        have hmultiple : s = g.ratio - t % g.ratio := by
          unfold stride at hs
          omega
        refine hratio ⟨t / g.ratio + 1, ?_⟩
        have hsplit := Nat.div_add_mod t g.ratio
        have hmod : t % g.ratio < g.ratio := Nat.mod_lt t hg.ratio
        rw [Nat.mul_add, Nat.mul_one]
        omega
      · rw [← leap_overrun_iff hg ht hn hdead hstep hend hle hratio]
        have hrest : g.leaps fuel (wrappingAdd t s) (n + 1 - s) =
            g.ticks (T := T) (wrappingAdd t s) (n + 1 - s) := by
          funext e'
          refine leaps_eq_ticks hg (wrappingAdd_lt t s) (by omega) (Or.inr ?_)
          rw [wrappingAdd_of_le ht (by omega) (by omega)]
          omega
        rw [hrest]
  · refine iff_of_true (leaps_eq_ticks hg ht hfuel ?_) fun hmissed => hover hmissed.1
    by_cases hratio : g.ratio ∣ 2 ^ 64
    · exact Or.inl hratio
    · exact Or.inr (Nat.not_lt.mp fun hlt => hover ⟨hratio, hlt⟩)

end Gauge

end Veloq.Timing
