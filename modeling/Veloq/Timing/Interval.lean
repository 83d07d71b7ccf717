import Veloq.Foundation.Machine
import Veloq.Foundation.Run
import Mathlib.Algebra.Order.Ring.Nat
set_option autoImplicit false

/-!
# Timing: intervals

`time/interval.rs`.  An interval sleeps until its next tick and then schedules the one after
it, on the grid of its period if ticks that were missed are skipped.  `Interval` and
`LocalInterval` differ in the kind of their sleep only.
-/

namespace Veloq.Timing

open Foundation

/-- The largest `Instant`, in nanoseconds; its seconds are a 64-bit number. -/
structure Clock where
  last : Nat
  last_lt : last < 2 ^ 64 * 10 ^ 9

/-- `instant + duration`; `none` where it panics. -/
def Clock.add (c : Clock) (t d : Nat) : Option Nat :=
  if t + d ≤ c.last then some (t + d) else none

/-- `duration * n`; `none` where it panics. -/
def mulDuration (d n : Nat) : Option Nat :=
  if d * n < 2 ^ 64 * 10 ^ 9 then some (d * n) else none

/-- `skip + 1` of a `u32`; `none` where it overflows. -/
def succU32 (skip : Nat) : Option Nat := if skip + 1 < 2 ^ 32 then some (skip + 1) else none

/-- `MissedTickBehavior`. -/
inductive MissedTickBehavior where
  | burst
  | delay
  | skip
  deriving DecidableEq, Repr

/-- `Interval` and `LocalInterval`, with the deadline of their sleep; the period is in
nanoseconds. -/
structure Interval where
  period : Nat
  nextTick : Nat
  behavior : MissedTickBehavior
  delay : Nat
  deriving DecidableEq, Repr

namespace Interval

/-- `interval_at` and `interval_at_local`. -/
def intervalAt (start period : Nat) : Interval := ⟨period, start, .burst, start⟩

/-- `set_missed_tick_behavior`. -/
def setMissedTickBehavior (i : Interval) (behavior : MissedTickBehavior) : Interval :=
  { i with behavior }

/-- The next tick of `MissedTickBehavior::Skip`. -/
def nextSkip (c : Clock) (i : Interval) (now : Nat) : Option Nat := do
  let next ← c.add i.nextTick i.period
  if i.period = 0 then
    return now
  else if next < now then
    let skip := (now - next) / i.period % 2 ^ 32
    c.add next (← mulDuration i.period (← succU32 skip))
  else
    return next

/-- `tick`, whose sleep ends at `now`: the tick and the interval after it. -/
def tick (c : Clock) (i : Interval) (now : Nat) : Option (Nat × Interval) :=
  let next := match i.behavior with
    | .burst => c.add i.nextTick i.period
    | .delay => c.add now i.period
    | .skip => i.nextSkip c now
  next.map fun next => (i.nextTick, { i with nextTick := next, delay := next })

/-- Ticks as steps of a run. -/
def Step (c : Clock) (i : Interval) (now : Nat) (i' : Interval) : Prop :=
  (i.tick c now).map Prod.snd = some i'

/-! ## The grid -/

/-- The first instant of the grid behind the next tick that is not before `now`. -/
def following (i : Interval) (now : Nat) : Nat :=
  let next := i.nextTick + i.period
  if next < now then next + i.period * ((now - next) / i.period + 1) else next

/-- The instant is one of the clock, and the ticks skipped before it fit a `u32`. -/
def Fits (c : Clock) (i : Interval) (now : Nat) : Prop :=
  i.following now ≤ c.last ∧ (now - (i.nextTick + i.period)) / i.period + 1 < 2 ^ 32

instance (c : Clock) (i : Interval) (now : Nat) : Decidable (i.Fits c now) :=
  inferInstanceAs (Decidable (_ ∧ _))

/-- A tick at `now` goes on along the grid that begins at `start`. -/
def StaysOnGrid (c : Clock) (start : Nat) (i : Interval) (now : Nat) : Prop :=
  ∃ i', i.tick c now = some (i.nextTick, i') ∧ (∃ k, i'.nextTick = start + k * i.period) ∧
    i.nextTick < i'.nextTick ∧ now ≤ i'.nextTick ∧ i'.nextTick ≤ now + i.period ∧
    i'.delay = i'.nextTick

variable {c : Clock} {i i' : Interval} {now start period : Nat}

theorem following_spec (hperiod : 0 < i.period) (hnow : i.nextTick ≤ now) :
    i.nextTick < i.following now ∧ now ≤ i.following now ∧ i.following now ≤ now + i.period ∧
      ∃ k, i.following now = i.nextTick + k * i.period := by
  unfold following
  dsimp only
  split
  · rename_i hlate
    have hdiv := Nat.div_add_mod (now - (i.nextTick + i.period)) i.period
    have hmod := Nat.mod_lt (now - (i.nextTick + i.period)) hperiod
    rw [Nat.mul_add, Nat.mul_one]
    refine ⟨by omega, by omega, by omega, (now - (i.nextTick + i.period)) / i.period + 2, ?_⟩
    rw [Nat.add_mul, Nat.mul_comm i.period]
    omega
  · exact ⟨by omega, by omega, by omega, 1, by rw [Nat.one_mul]⟩

theorem nextTick_add_le (i : Interval) (now : Nat) : i.nextTick + i.period ≤ i.following now := by
  unfold following
  dsimp only
  split
  · exact Nat.le_add_right _ _
  · exact Nat.le_refl _

/-- What fits is computed without a loss. -/
theorem nextSkip_of_fits (hperiod : 0 < i.period) (hfits : i.Fits c now) :
    i.nextSkip c now = some (i.following now) := by
  obtain ⟨hlast, hskip⟩ := hfits
  have hnext := Nat.le_trans (nextTick_add_le i now) hlast
  have hadd : c.add i.nextTick i.period = some (i.nextTick + i.period) := if_pos hnext
  unfold nextSkip
  unfold following at hlast ⊢
  dsimp only at hlast ⊢
  simp only [hadd, Option.bind_eq_bind, Option.bind_some, if_neg (Nat.ne_of_gt hperiod)]
  split
  · rename_i hlate
    rw [if_pos hlate] at hlast
    have hlt := c.last_lt
    have hmul : mulDuration i.period ((now - (i.nextTick + i.period)) / i.period + 1) =
        some (i.period * ((now - (i.nextTick + i.period)) / i.period + 1)) := if_pos (by omega)
    rw [Nat.mod_eq_of_lt (Nat.lt_of_succ_lt hskip), succU32, if_pos hskip, Option.bind_some, hmul]
    exact if_pos hlast
  · rfl

theorem Clock.add_eq_some {t d t' : Nat} (h : c.add t d = some t') : t' = t + d ∧ t' ≤ c.last := by
  unfold Clock.add at h
  split at h
  · cases h
    exact ⟨rfl, by assumption⟩
  · cases h

/-- What a tick that does not panic schedules. -/
theorem nextSkip_cases {next : Nat} (hperiod : 0 < i.period) (h : i.nextSkip c now = some next) :
    next ≤ c.last ∧ (now ≤ i.nextTick + i.period ∧ next = i.nextTick + i.period ∨
      i.nextTick + i.period < now ∧ ∃ n, n = (now - (i.nextTick + i.period)) / i.period % 2 ^ 32 + 1 ∧
        n < 2 ^ 32 ∧ next = i.nextTick + i.period + i.period * n) := by
  unfold nextSkip at h
  obtain ⟨grid, hgrid, h⟩ := Option.bind_eq_some_iff.mp h
  obtain ⟨rfl, hlast⟩ := Clock.add_eq_some hgrid
  rw [if_neg (Nat.ne_of_gt hperiod)] at h
  split at h
  · rename_i hlate
    obtain ⟨n, hn, h⟩ := Option.bind_eq_some_iff.mp h
    obtain ⟨missed, hmissed, h⟩ := Option.bind_eq_some_iff.mp h
    obtain ⟨rfl, hlast'⟩ := Clock.add_eq_some h
    unfold succU32 at hn
    unfold mulDuration at hmissed
    split at hn
    · cases hn
      split at hmissed
      · cases hmissed
        exact ⟨hlast', .inr ⟨hlate, _, rfl, by assumption, rfl⟩⟩
      · cases hmissed
    · cases hn
  · cases h
    exact ⟨hlast, .inl ⟨Nat.le_of_not_lt (by assumption), rfl⟩⟩

/-- What is scheduled not before `now` has been computed without a loss. -/
theorem fits_of_nextSkip {next : Nat} (hperiod : 0 < i.period)
    (h : i.nextSkip c now = some next) (hnow : now ≤ next) : i.Fits c now := by
  unfold Fits following
  dsimp only
  obtain ⟨hlast, ⟨hle, rfl⟩ | ⟨hlate, n, hn, hlt, rfl⟩⟩ := nextSkip_cases hperiod h
  · rw [if_neg (Nat.not_lt_of_le hle), Nat.sub_eq_zero_of_le hle, Nat.zero_div]
    exact ⟨hlast, by decide⟩
  · rw [if_pos hlate]
    have hdiv := Nat.div_mul_le_self (now - (i.nextTick + i.period)) i.period
    generalize (now - (i.nextTick + i.period)) / i.period = skip at hn hdiv ⊢
    have hsmall : skip + 1 < 2 ^ 32 := by
      refine Nat.lt_of_not_le fun hskip => ?_
      -- the ticks that are left after the cut do not reach `now`
      have hmul : (n + 1) * i.period ≤ skip * i.period := Nat.mul_le_mul_right _ (by omega)
      rw [Nat.add_mul, Nat.one_mul, Nat.mul_comm n] at hmul
      omega
    rw [Nat.mod_eq_of_lt (by omega)] at hn
    subst hn
    exact ⟨hlast, hsmall⟩

/-! ## Runs -/

/-- What holds between ticks. -/
structure Inv (start period : Nat) (i : Interval) : Prop where
  period_eq : i.period = period
  behavior : i.behavior = .skip
  delay : i.delay = i.nextTick
  grid : ∃ k, i.nextTick = start + k * period

theorem tick_of_fits (hperiod : 0 < period) (h : Inv start period i) (hfits : i.Fits c now) :
    i.tick c now =
      some (i.nextTick, { i with nextTick := i.following now, delay := i.following now }) := by
  unfold tick
  rw [h.behavior]
  dsimp only
  rw [nextSkip_of_fits (h.period_eq ▸ hperiod) hfits]
  rfl

theorem grid_following (hperiod : 0 < period) (h : Inv start period i) (hnow : i.delay ≤ now) :
    ∃ k, i.following now = start + k * period := by
  obtain ⟨-, -, -, k, hk⟩ := following_spec (h.period_eq ▸ hperiod) (h.delay ▸ hnow)
  obtain ⟨k', hk'⟩ := h.grid
  refine ⟨k' + k, ?_⟩
  rw [hk, hk', h.period_eq, Nat.add_mul, Nat.add_assoc]

theorem inv_of_run (hperiod : 0 < period)
    (h : Run (Step c) (fun i now => i.delay ≤ now ∧ i.Fits c now)
      (fun i => i = (intervalAt start period).setMissedTickBehavior .skip) i) :
    Inv start period i := by
  refine h.invariant ?_ fun i now i' hinv hallowed hstep => ?_
  · rintro _ rfl
    exact ⟨rfl, rfl, rfl, 0, by rw [Nat.zero_mul]; rfl⟩
  · rw [Step, tick_of_fits hperiod hinv hallowed.2] at hstep
    cases hstep
    exact ⟨hinv.period_eq, hinv.behavior, rfl, grid_following hperiod hinv hallowed.1⟩

/-- An interval that skips missed ticks, with whatever start and period, after any ticks that
fit: a tick goes on along the grid, to its next instant that is not before `now`, exactly
if that instant and the number of skipped ticks fit. -/
theorem staysOnGrid_iff (hperiod : 0 < period)
    (h : Run (Step c) (fun i now => i.delay ≤ now ∧ i.Fits c now)
      (fun i => i = (intervalAt start period).setMissedTickBehavior .skip) i)
    (hnow : i.delay ≤ now) : i.StaysOnGrid c start now ↔ i.Fits c now := by
  have hinv := inv_of_run hperiod h
  have hpos : 0 < i.period := hinv.period_eq ▸ hperiod
  obtain ⟨hlater, hnot, hle, -⟩ := following_spec hpos (hinv.delay ▸ hnow)
  constructor
  · rintro ⟨i', htick, -, -, hnow', -⟩
    unfold tick at htick
    rw [hinv.behavior] at htick
    obtain ⟨next, hnext, heq⟩ := Option.map_eq_some_iff.mp htick
    cases heq
    exact fits_of_nextSkip hpos hnext hnow'
  · intro hfits
    exact ⟨_, tick_of_fits hperiod hinv hfits, hinv.period_eq ▸ grid_following hperiod hinv hnow,
      hlater, hnot, hle, rfl⟩

/-- The largest instant of a 64-bit number of seconds. -/
def someClock : Clock := ⟨2 ^ 64 * 10 ^ 9 - 1, Nat.sub_one_lt (by decide)⟩

/-- A period of a nanosecond after a stall of more than four seconds: the next tick is before
now. -/
theorem not_staysOnGrid_of_stall :
    ¬ StaysOnGrid someClock 0 ((intervalAt 0 1).setMissedTickBehavior .skip) (2 ^ 32 + 1) := by
  rintro ⟨i', htick, -, -, hnow, -⟩
  cases htick
  exact absurd hnow (by decide)

/-- A millisecond's interval that is polled after two and a half periods. -/
theorem staysOnGrid_iff_late : StaysOnGrid someClock 0
    ((intervalAt 0 (10 ^ 6)).setMissedTickBehavior .skip) (25 * 10 ^ 5) := by
  refine (staysOnGrid_iff (by decide) (.start rfl) (Nat.zero_le _)).mpr ?_
  decide

/-! ## Bursts -/

/-- Ticks at the instants `nows`, and the interval after them. -/
def ticks (c : Clock) : Interval → List Nat → Option (List Nat × Interval)
  | i, [] => some ([], i)
  | i, now :: nows => do
      let (tick, i) ← i.tick c now
      let (ticks, i) ← ticks c i nows
      return (tick :: ticks, i)

end Interval

end Veloq.Timing
