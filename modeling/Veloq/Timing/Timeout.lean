import Veloq.Timing.Runs
import Mathlib.Tactic.Ring
set_option autoImplicit false

/-!
# Timing: how long a driver may sleep

`next_timeout` scans all of `L0` before `L1`, and `L1` from its current slot on.
An entry of `L1` can be due before the first entry of `L0`, and the current slot of
`L1` holds only entries that are a whole rotation away, so the bound it returns is
safe exactly when neither happens.
-/

namespace Veloq.Timing.Wheel

open Veloq.Foundation

variable {Key T : Type} [DecidableEq Key] {S : SlotMap Key (WheelEntry Key T)}
  {w : Wheel S} {k : Key} {entry : WheelEntry Key T}

/-- A driver that sleeps for `timeout` is awake when the first item of the agenda is
due, and it sleeps without a bound exactly when the wheel holds no entry. -/
def SafeTimeout (w : Wheel S) (agenda : Agenda Key T) (timeout : Option Duration) : Prop :=
  ((∃ k t, agenda.DueAt k t) → ∃ d, timeout = some d ∧
    ∀ k t, agenda.DueAt k t → d ≤ (t - w.globalTick) * w.tickDuration) ∧
  (timeout = none ↔ ∀ k, S.get w.tasks k = none)

/-- `entry` is stored under `k` and filed in `level`. -/
def FiledIn (w : Wheel S) (level : LevelIdx) (k : Key) (entry : WheelEntry Key T) : Prop :=
  S.get w.tasks k = some entry ∧ entry.level = level

/-- No entry of `L1` that still has its item is overlooked: when `L0` holds entries,
one of them is due no later than it; and when `L0` is empty and the current slot of
`L1` is not, it is at least a whole rotation of `L1` away. -/
structure NoneOverlooked (w : Wheel S) : Prop where
  l0_first : ∀ k entry, FiledIn w .l1 k entry → entry.item ≠ none →
    (∃ k₀ entry₀, FiledIn w .l0 k₀ entry₀) →
    ∃ k₀ entry₀, FiledIn w .l0 k₀ entry₀ ∧ entry₀.deadline ≤ entry.deadline
  l1_current : (∀ k₀ entry₀, ¬ FiledIn w .l0 k₀ entry₀) →
    (∃ k₁ entry₁, FiledIn w .l1 k₁ entry₁ ∧
      w.slotOf .l1 entry₁.deadline = w.slotOf .l1 w.globalTick) →
    ∀ k entry, FiledIn w .l1 k entry → entry.item ≠ none →
      (w.globalTick / w.l1TickRatio + (w.levels .l1).slotCount) * w.l1TickRatio ≤ entry.deadline

/-! ## Scanning a level -/

/-- A slot is occupied when an entry is filed in it. -/
theorem slots_isSome_iff (h : Linked w none []) (level : LevelIdx) (idx : Nat) :
    ((w.levels level).slots idx).isSome = true ↔
      ∃ k entry, FiledIn w level k entry ∧ w.slotOf level entry.deadline = idx := by
  obtain ⟨keys, hchain, _, hmem⟩ := h.slots level idx
  rw [hchain.head_isSome_iff]
  constructor
  · intro hne
    obtain ⟨k, hk⟩ := List.exists_mem_of_ne_nil keys hne
    obtain ⟨_, entry, hget, hlevel, hidx⟩ := (hmem k).mp hk
    exact ⟨k, entry, ⟨hget, hlevel⟩, hidx⟩
  · rintro ⟨k, entry, ⟨hget, hlevel⟩, hidx⟩
    exact List.ne_nil_of_mem ((hmem k).mpr ⟨List.not_mem_nil, entry, hget, hlevel, hidx⟩)

/-- The scan of a level from the slot of `base`, in terms of the entries filed. -/
theorem firstOccupied_eq_some (h : Linked w none []) (hs : WellShaped w) {level : LevelIdx}
    {base i : Nat}
    (hscan : firstOccupied (w.levels level) (base &&& (w.levels level).mask) = some i) :
    i < (w.levels level).slotCount ∧
      (∃ k entry, FiledIn w level k entry ∧
        w.slotOf level entry.deadline = (base + i) % (w.levels level).slotCount) ∧
      ∀ k entry, FiledIn w level k entry → ∀ j,
        w.slotOf level entry.deadline = (base + j) % (w.levels level).slotCount → i ≤ j := by
  unfold firstOccupied at hscan
  rw [List.find?_range_eq_some] at hscan
  obtain ⟨hocc, hlt, hfirst⟩ := hscan
  have hidx : ∀ j, ((base &&& (w.levels level).mask) + j) &&& (w.levels level).mask =
      (base + j) % (w.levels level).slotCount := by
    intro j
    rw [hs.and_mask, hs.and_mask, Nat.mod_add_mod]
  rw [hidx, slots_isSome_iff h] at hocc
  refine ⟨List.mem_range.mp hlt, hocc, ?_⟩
  intro k entry hfiled j hslot
  by_contra hlt'
  have hnot := hfirst j (by omega)
  rw [hidx] at hnot
  have hsome := (slots_isSome_iff h level _).mpr ⟨k, entry, hfiled, hslot⟩
  rw [hsome] at hnot
  exact absurd hnot (by simp)

/-- A scan that finds nothing: no entry is filed in the level. -/
theorem firstOccupied_eq_none (h : Linked w none []) (hs : WellShaped w) {level : LevelIdx}
    {base : Nat} (hscan : firstOccupied (w.levels level) (base &&& (w.levels level).mask) = none)
    (k : Key) (entry : WheelEntry Key T) : ¬ FiledIn w level k entry := by
  intro hfiled
  have hslot : w.slotOf level entry.deadline < (w.levels level).slotCount := by
    cases level with
    | l0 => rw [hs.slotOf_l0]; exact Nat.mod_lt _ (hs.slotCount_pos .l0)
    | l1 => rw [hs.slotOf_l1]; exact Nat.mod_lt _ (hs.slotCount_pos .l1)
  obtain ⟨j, hj, hoffset⟩ := exists_offset base hslot
  unfold firstOccupied at hscan
  rw [List.find?_eq_none] at hscan
  refine hscan j (List.mem_range.mpr hj) ?_
  rw [hs.and_mask, hs.and_mask, Nat.mod_add_mod, hoffset]
  exact (slots_isSome_iff h level _).mpr ⟨k, entry, hfiled, rfl⟩

/-! ## The two levels -/

/-- The first occupied slot of `L0` holds its earliest entry. -/
theorem firstOccupied_l0 (h : Inv w) {i : Nat}
    (hscan : firstOccupied (w.levels .l0) (w.globalTick &&& (w.levels .l0).mask) = some i) :
    (∃ k entry, FiledIn w .l0 k entry ∧ entry.deadline = w.globalTick + i) ∧
      ∀ k entry, FiledIn w .l0 k entry → w.globalTick + i ≤ entry.deadline := by
  obtain ⟨hlt, ⟨k, entry, hfiled, hslot⟩, hfirst⟩ := firstOccupied_eq_some h.linked h.shaped hscan
  constructor
  · refine ⟨k, entry, hfiled, ?_⟩
    obtain ⟨hlo, hhi⟩ := h.timed.l0 k entry hfiled.1 (List.not_mem_nil) hfiled.2
    rw [h.shaped.slotOf_l0] at hslot
    by_cases hle : w.globalTick + i ≤ entry.deadline
    · exact eq_of_mod_eq hslot hle (by omega)
    · have heq := eq_of_mod_eq hslot.symm (by omega) (by omega)
      omega
  · intro k' entry' hfiled'
    obtain ⟨hlo, _⟩ := h.timed.l0 k' entry' hfiled'.1 (List.not_mem_nil) hfiled'.2
    have hle := hfirst k' entry' hfiled' (entry'.deadline - w.globalTick) (by
      rw [h.shaped.slotOf_l0]
      congr 1
      omega)
    omega

/-- The multiple of the ratio at which the slot at distance `i` falls due, as
`next_timeout` computes it: the current slot counts as a rotation away. -/
def l1Target (w : Wheel S) (i : Nat) : Nat :=
  if i = 0 then w.globalTick / w.l1TickRatio + (w.levels .l1).slotCount
  else w.globalTick / w.l1TickRatio + i

theorem l1DelayMs_eq (h : Inv w) {i ms : Nat} (hi : i < (w.levels .l1).slotCount)
    (hrun : w.l1DelayMs i = some ms) :
    ms = (w.l1Target i * w.l1TickRatio - w.globalTick) * w.tickDurationMs := by
  obtain ⟨b, hb, hcount⟩ := h.shaped.slotCount .l1
  have hratio := h.shaped.ratio_pos
  have htick : w.globalTick / w.l1TickRatio < 2 ^ 64 :=
    Nat.lt_of_le_of_lt (Nat.div_le_self _ _) h.tick
  have hdiff : wrappingSub (((w.globalTick / w.l1TickRatio &&& (w.levels .l1).mask) + i) &&&
      (w.levels .l1).mask) (w.globalTick / w.l1TickRatio) &&& (w.levels .l1).mask = i := by
    rw [h.shaped.and_mask, h.shaped.and_mask, h.shaped.and_mask, Nat.mod_add_mod, hcount]
    exact wrappingSub_mod_two_pow (by omega) (hcount ▸ hi) htick
  unfold l1DelayMs at hrun
  simp only [hdiff, bind, Option.bind_eq_some_iff] at hrun
  obtain ⟨target, htarget, start, hstart, target', htarget', slotStart, hslotStart, hms⟩ := hrun
  cases checkedAdd_eq_some htarget
  cases checkedMul_eq_some hstart
  cases checkedMul_eq_some hslotStart
  rw [checkedMul_eq_some hms]
  have hfloor : w.globalTick / w.l1TickRatio * w.l1TickRatio ≤ w.globalTick :=
    Nat.div_mul_le_self _ _
  have hceil : w.globalTick < (w.globalTick / w.l1TickRatio + 1) * w.l1TickRatio :=
    (Nat.div_lt_iff_lt_mul hratio).mp (Nat.lt_succ_self _)
  unfold l1Target
  by_cases hzero : i = 0
  · subst hzero
    rw [Nat.add_zero, if_pos hfloor] at htarget'
    rw [if_pos rfl, checkedAdd_eq_some htarget']
  · have hlater : w.globalTick < (w.globalTick / w.l1TickRatio + i) * w.l1TickRatio :=
      Nat.lt_of_lt_of_le hceil (Nat.mul_le_mul_right _ (by omega))
    rw [if_neg (by omega)] at htarget'
    cases htarget'
    rw [if_neg hzero]

/-- The first occupied slot of `L1`: unless it is the current one, every entry of
`L1` is due when it falls due, or later. -/
theorem firstOccupied_l1 (h : Inv w) {i : Nat}
    (hscan : firstOccupied (w.levels .l1)
      ((w.globalTick / w.l1TickRatio) &&& (w.levels .l1).mask) = some i) :
    i < (w.levels .l1).slotCount ∧
      (i = 0 ↔ ∃ k entry, FiledIn w .l1 k entry ∧
        w.slotOf .l1 entry.deadline = w.slotOf .l1 w.globalTick) ∧
      (i ≠ 0 → ∀ k entry, FiledIn w .l1 k entry →
        w.l1Target i * w.l1TickRatio ≤ entry.deadline) := by
  obtain ⟨hlt, ⟨k, entry, hfiled, hslot⟩, hfirst⟩ := firstOccupied_eq_some h.linked h.shaped hscan
  refine ⟨hlt, ⟨?_, ?_⟩, ?_⟩
  · rintro rfl
    refine ⟨k, entry, hfiled, ?_⟩
    rw [hslot, h.shaped.slotOf_l1]
    rfl
  · rintro ⟨k', entry', hfiled', hslot'⟩
    have hle := hfirst k' entry' hfiled' 0 (by rw [hslot', h.shaped.slotOf_l1]; rfl)
    omega
  · intro hne k' entry' hfiled'
    have hlater := h.timed.l1 k' entry' hfiled'.1 (List.not_mem_nil) hfiled'.2
    have hle := hfirst k' entry' hfiled'
      (entry'.deadline / w.l1TickRatio - w.globalTick / w.l1TickRatio) (by
        rw [h.shaped.slotOf_l1]
        congr 1
        omega)
    rw [l1Target, if_neg hne]
    calc (w.globalTick / w.l1TickRatio + i) * w.l1TickRatio
        ≤ entry'.deadline / w.l1TickRatio * w.l1TickRatio := Nat.mul_le_mul_right _ (by omega)
      _ ≤ entry'.deadline := Nat.div_mul_le_self _ _

/-! ## The bound -/

/-- A sleep of `ticks` ticks is over by the tick `t`. -/
theorem sleep_le_iff (h : Inv w) (ticks t : Nat) :
    Duration.fromMillis (ticks * w.tickDurationMs) ≤ (t - w.globalTick) * w.tickDuration ↔
      ticks ≤ t - w.globalTick := by
  have hpos : 0 < w.tickDurationMs * 10 ^ 6 :=
    Nat.mul_pos h.shaped.tick_pos (Nat.pow_pos (by decide))
  unfold tickDuration Duration.fromMillis
  rw [Nat.mul_assoc]
  exact Nat.mul_le_mul_right_iff hpos

/-- A timeout of `ticks` ticks is safe when nothing live is due before it. -/
theorem safeTimeout_some_iff (h : Inv w) (hentry : ¬ ∀ k, S.get w.tasks k = none) (ticks : Nat) :
    SafeTimeout w w.pending (some (Duration.fromMillis (ticks * w.tickDurationMs))) ↔
      ∀ k entry, S.get w.tasks k = some entry → entry.item ≠ none →
        w.globalTick + ticks ≤ entry.deadline := by
  have hlive : ∀ k t, w.pending.DueAt k t ↔
      ∃ entry, S.get w.tasks k = some entry ∧ entry.item ≠ none ∧ entry.deadline = t := by
    intro k t
    refine ⟨entry_of_dueAt, ?_⟩
    rintro ⟨entry, hget, hitem, rfl⟩
    obtain ⟨item, hsome⟩ := Option.ne_none_iff_exists'.mp hitem
    exact ⟨item, by rw [pending_of_get hget, hsome]; rfl⟩
  constructor
  · rintro ⟨hsafe, _⟩ k entry hget hitem
    have hdue : w.pending.DueAt k entry.deadline := (hlive k _).mpr ⟨entry, hget, hitem, rfl⟩
    obtain ⟨d, hd, hall⟩ := hsafe ⟨k, _, hdue⟩
    cases hd
    have hle := (sleep_le_iff h ticks entry.deadline).mp (hall k _ hdue)
    have hlt := h.lt_of_dueAt hdue
    omega
  · intro hall
    refine ⟨fun _ => ⟨_, rfl, ?_⟩, ⟨fun hnone => absurd hnone (by simp), fun hnone =>
      absurd hnone hentry⟩⟩
    intro k t hdue
    obtain ⟨entry, hget, hitem, rfl⟩ := (hlive k t).mp hdue
    have hle := hall k entry hget hitem
    exact (sleep_le_iff h ticks entry.deadline).mpr (by omega)

/-- **When `next_timeout` is a safe sleep bound.**  In every run, unless the
arithmetic overflows, the returned bound is safe if and only if no live entry of
`L1` is overlooked. -/
theorem nextTimeout_safe_iff {config : WheelConfig} {agenda : Agenda Key T}
    (hc : ValidConfig config) (hreach : Reachable S config w agenda) {timeout : Option Duration}
    (hrun : w.nextTimeout = some timeout) :
    SafeTimeout w agenda timeout ↔ NoneOverlooked w := by
  obtain ⟨h, rfl⟩ := hreach.inv hc
  unfold nextTimeout at hrun
  by_cases hempty : S.isEmpty w.tasks = true
  · have hnone := (S.isEmpty_iff w.tasks).mp hempty
    rw [if_pos hempty] at hrun
    cases hrun
    refine ⟨fun _ => ⟨?_, ?_⟩, fun _ => ⟨?_, iff_of_true rfl hnone⟩⟩
    · rintro k entry ⟨hget, _⟩
      rw [hnone k] at hget
      exact absurd hget (by simp)
    · rintro _ ⟨k, entry, ⟨hget, _⟩, _⟩
      rw [hnone k] at hget
      exact absurd hget (by simp)
    · rintro ⟨k, t, hdue⟩
      obtain ⟨entry, hget, _⟩ := entry_of_dueAt hdue
      rw [hnone k] at hget
      exact absurd hget (by simp)
  · have hentry : ¬ ∀ k, S.get w.tasks k = none := fun hall =>
      hempty ((S.isEmpty_iff w.tasks).mpr hall)
    rw [if_neg hempty] at hrun
    split at hrun
    · rename_i i hscan
      obtain ⟨⟨k₀, entry₀, hfiled₀, hdead₀⟩, hall₀⟩ := firstOccupied_l0 h hscan
      obtain ⟨ms, hms, rfl⟩ := Option.map_eq_some_iff.mp hrun
      rw [checkedMul_eq_some hms, safeTimeout_some_iff h hentry]
      constructor
      · intro hsafe
        refine ⟨?_, fun hno => absurd hfiled₀ (hno k₀ entry₀)⟩
        intro k entry hfiled hitem _
        exact ⟨k₀, entry₀, hfiled₀, by rw [hdead₀]; exact hsafe k entry hfiled.1 hitem⟩
      · intro hno k entry hget hitem
        cases hlevel : entry.level with
        | l0 => exact hall₀ k entry ⟨hget, hlevel⟩
        | l1 =>
          obtain ⟨k₁, entry₁, hfiled₁, hle⟩ :=
            hno.l0_first k entry ⟨hget, hlevel⟩ hitem ⟨k₀, entry₀, hfiled₀⟩
          exact Nat.le_trans (hall₀ k₁ entry₁ hfiled₁) hle
    · rename_i hscan₀
      have hno₀ := firstOccupied_eq_none h.linked h.shaped hscan₀
      have hl1 : ∀ k entry, S.get w.tasks k = some entry → FiledIn w .l1 k entry := by
        intro k entry hget
        cases hlevel : entry.level with
        | l0 => exact absurd ⟨hget, hlevel⟩ (hno₀ k entry)
        | l1 => exact ⟨hget, hlevel⟩
      have hratio := h.shaped.ratio_pos
      rw [if_neg (by omega)] at hrun
      simp only at hrun
      split at hrun
      · rename_i i hscan
        obtain ⟨hlt, hcurrent, hother⟩ := firstOccupied_l1 h hscan
        obtain ⟨ms, hms, rfl⟩ := Option.map_eq_some_iff.mp hrun
        rw [l1DelayMs_eq h hlt hms, safeTimeout_some_iff h hentry]
        have hfloor : w.globalTick < w.l1Target i * w.l1TickRatio := by
          have hlast : w.globalTick / w.l1TickRatio < w.l1Target i := by
            unfold l1Target
            split <;> omega
          exact (Nat.div_lt_iff_lt_mul hratio).mp hlast
        by_cases hzero : i = 0
        · have hrotation : w.l1Target i =
              w.globalTick / w.l1TickRatio + (w.levels .l1).slotCount := if_pos hzero
          constructor
          · intro hsafe
            refine ⟨fun k entry _ _ hsome => ?_, ?_⟩
            · obtain ⟨k₀, entry₀, hfiled₀⟩ := hsome
              exact absurd hfiled₀ (hno₀ k₀ entry₀)
            · intro _ _ k entry hfiled hitem
              have hle := hsafe k entry hfiled.1 hitem
              rw [← hrotation]
              omega
          · intro hno k entry hget hitem
            have hle := hno.l1_current hno₀ (hcurrent.mp hzero) k entry (hl1 k entry hget) hitem
            rw [← hrotation] at hle
            omega
        · refine iff_of_true ?_ ⟨?_, ?_⟩
          · intro k entry hget _
            have hle := hother hzero k entry (hl1 k entry hget)
            omega
          · rintro k entry _ _ ⟨k₀, entry₀, hfiled₀⟩
            exact absurd hfiled₀ (hno₀ k₀ entry₀)
          · intro _ hsome
            exact absurd (hcurrent.mpr hsome) hzero
      · rename_i hscan₁
        have hno₁ := firstOccupied_eq_none h.linked h.shaped hscan₁
        refine absurd ?_ hentry
        intro k
        cases hget : S.get w.tasks k with
        | none => rfl
        | some entry => exact absurd (hl1 k entry hget) (hno₁ k entry)

/-- A slot map whose keys are positions, which suffices for runs that remove nothing. -/
abbrev PositionMap := SlotMap.appending (WheelEntry Nat Nat)

/-- A small wheel after the insertion of one item, two ticks ahead. -/
def afterOne : Wheel PositionMap × Nat :=
  ((Wheel.new PositionMap smallConfig).insert 7 (Duration.fromMillis 2)).get (by decide +kernel)

theorem reachable_afterOne :
    Reachable PositionMap smallConfig afterOne.1 (Agenda.empty.add 0 7 2) := by
  have hdeadline : (Wheel.new PositionMap smallConfig).deadlineOf (Duration.fromMillis 2) = 2 := by
    decide +kernel
  have hinsert : (Wheel.new PositionMap smallConfig).insert 7 (Duration.fromMillis 2) =
      some (afterOne.1, afterOne.2) := (Option.some_get _).symm
  have hreach := Reachable.insert 7 (Duration.fromMillis 2) Reachable.new (by decide)
    (by rw [hdeadline]; decide) hinsert
  rw [hdeadline, show afterOne.2 = 0 by decide +kernel] at hreach
  exact hreach

/-- One item, filed in `L0`: nothing can be overlooked, and the bound is two ticks. -/
theorem nextTimeout_safe_afterOne :
    SafeTimeout afterOne.1 (Agenda.empty.add 0 7 2) (some (Duration.fromMillis 2)) := by
  refine (nextTimeout_safe_iff validConfig_smallConfig reachable_afterOne
    (by decide +kernel)).mpr ?_
  have hl0 : ∀ k entry, ¬ FiledIn afterOne.1 .l1 k entry := by
    intro k entry hfiled
    have hinv := (reachable_afterOne.inv validConfig_smallConfig).1
    have hocc := (slots_isSome_iff hinv.linked .l1 _).mpr ⟨k, entry, hfiled, rfl⟩
    have hempty : ∀ idx < 2, (afterOne.1.levels .l1).slots idx = none := by decide +kernel
    have hcount : (afterOne.1.levels .l1).slotCount = 2 := by decide +kernel
    rw [hempty _ (by rw [hinv.shaped.slotOf_l1, hcount]; exact Nat.mod_lt _ (by decide))] at hocc
    exact absurd hocc (by simp)
  exact ⟨fun k entry hfiled => absurd hfiled (hl0 k entry), fun _ _ k entry hfiled =>
    absurd hfiled (hl0 k entry)⟩

/-- Two items inserted into a fresh wheel of the default configuration, due after 64
seconds and after 10 seconds. -/
def afterFar : Wheel PositionMap × Nat :=
  ((Wheel.new PositionMap WheelConfig.default).insert 1 (Duration.fromMillis 64000)).get
    (by decide +kernel)

def afterBoth : Wheel PositionMap × Nat :=
  (afterFar.1.insert 2 (Duration.fromMillis 10000)).get (by decide +kernel)

/-- The driver is told to sleep for 64 seconds although an item is due after 10: the
item due after a whole rotation of `L1` sits in its current slot, which is scanned
first. -/
theorem nextTimeout_not_safe_afterBoth :
    Reachable PositionMap WheelConfig.default afterBoth.1
      ((Agenda.empty.add 0 1 6400).add 1 2 1000) ∧
    afterBoth.1.nextTimeout = some (some (Duration.fromMillis 64000)) ∧
    ¬ SafeTimeout afterBoth.1 ((Agenda.empty.add 0 1 6400).add 1 2 1000)
      (some (Duration.fromMillis 64000)) := by
  have hdeadline : (Wheel.new PositionMap WheelConfig.default).deadlineOf
      (Duration.fromMillis 64000) = 6400 := by decide +kernel
  have hdeadline' : afterFar.1.deadlineOf (Duration.fromMillis 10000) = 1000 := by decide +kernel
  have hinsert : (Wheel.new PositionMap WheelConfig.default).insert 1
      (Duration.fromMillis 64000) = some (afterFar.1, afterFar.2) := (Option.some_get _).symm
  have hinsert' : afterFar.1.insert 2 (Duration.fromMillis 10000) =
      some (afterBoth.1, afterBoth.2) := (Option.some_get _).symm
  have hfar := Reachable.insert 1 (Duration.fromMillis 64000) Reachable.new (by decide)
    (by rw [hdeadline]; decide) hinsert
  have hboth := Reachable.insert 2 (Duration.fromMillis 10000) hfar (by decide)
    (by rw [hdeadline']; decide) hinsert'
  rw [hdeadline, hdeadline', show afterFar.2 = 0 by decide +kernel,
    show afterBoth.2 = 1 by decide +kernel] at hboth
  refine ⟨hboth, by decide +kernel, ?_⟩
  rintro ⟨hsafe, _⟩
  have hdue : Agenda.DueAt ((Agenda.empty.add 0 1 6400).add 1 2 1000) 1 1000 := ⟨2, by rfl⟩
  obtain ⟨d, hd, hall⟩ := hsafe ⟨1, 1000, hdue⟩
  cases hd
  have hle := hall 1 1000 hdue
  have htick : afterBoth.1.globalTick = 0 := by decide +kernel
  have hduration : afterBoth.1.tickDuration = Duration.fromMillis 10 := by decide +kernel
  rw [htick, hduration] at hle
  exact absurd hle (by decide)

end Veloq.Timing.Wheel
