import Veloq.Timing.Runs
set_option autoImplicit false

/-!
# Timing: the configurations the builder accepts

`WheelConfigBuilder` of `veloq-wheel/src/config.rs`.  `build` compares the two tick
durations in truncated milliseconds and never compares their ratio with the number
of `L0` slots.  A wheel works when its ratio is between one and that number; with a
larger ratio an item that is one rotation of `L0` ahead goes to a slot of `L1` whose
turn has already passed.
-/

namespace Veloq.Timing

open Veloq.Foundation Wheel

deriving instance DecidableEq for WheelConfig

/-- `ConfigError`. -/
inductive ConfigError where
  | invalidSlotCount (slotCount : Nat) (reason : String)
  | invalidConfiguration (field reason : String)
  deriving DecidableEq, Repr

/-- `WheelConfigBuilder`.  The slot counts are of type `usize`. -/
structure WheelConfigBuilder where
  l0TickDuration : Duration
  l0SlotCount : UInt64
  l1TickDuration : Duration
  l1SlotCount : UInt64

namespace WheelConfigBuilder

/-- `WheelConfigBuilder::default`, which `WheelConfig::builder` returns. -/
def default : WheelConfigBuilder :=
  { l0TickDuration := Duration.fromMillis 10
    l0SlotCount := 512
    l1TickDuration := Duration.fromMillis 1000
    l1SlotCount := 64 }

/-- `l0_tick_duration`. -/
def withL0TickDuration (b : WheelConfigBuilder) (duration : Duration) : WheelConfigBuilder :=
  { b with l0TickDuration := duration }

/-- `l0_slot_count`. -/
def withL0SlotCount (b : WheelConfigBuilder) (count : UInt64) : WheelConfigBuilder :=
  { b with l0SlotCount := count }

/-- `l1_tick_duration`. -/
def withL1TickDuration (b : WheelConfigBuilder) (duration : Duration) : WheelConfigBuilder :=
  { b with l1TickDuration := duration }

/-- `l1_slot_count`. -/
def withL1SlotCount (b : WheelConfigBuilder) (count : UInt64) : WheelConfigBuilder :=
  { b with l1SlotCount := count }

/-- `l0_ms` of `build`. -/
def l0Ms (b : WheelConfigBuilder) : Nat := asU64 b.l0TickDuration.asMillis

/-- `l1_ms` of `build`. -/
def l1Ms (b : WheelConfigBuilder) : Nat := asU64 b.l1TickDuration.asMillis

/-- The checks on one level: a duration above zero, a slot count above zero that is
a power of two. -/
def checkLevel (name field : String) (tickDuration : Duration) (slotCount : UInt64) :
    Except ConfigError Unit :=
  if tickDuration = 0 then
    .error (.invalidConfiguration field (name ++ " layer tick duration must be greater than 0"))
  else if slotCount = 0 then
    .error (.invalidSlotCount slotCount.toNat (name ++ " layer slot count must be greater than 0"))
  else if ¬ slotCount.toNat.isPowerOfTwo then
    .error (.invalidSlotCount slotCount.toNat (name ++ " layer slot count must be power of 2"))
  else
    .ok ()

/-- The last check.  `l1_ms.is_multiple_of(l0_ms)` is divisibility of natural numbers:
only zero is a multiple of zero. -/
def checkMultiple (l0Ms l1Ms : Nat) : Except ConfigError Unit :=
  if l0Ms ∣ l1Ms then
    .ok ()
  else
    .error (.invalidConfiguration "l1_tick_duration"
      ("L1 tick duration (" ++ toString l1Ms ++
        " ms) must be an integer multiple of L0 tick duration (" ++ toString l0Ms ++ " ms)"))

/-- `build`. -/
def build (b : WheelConfigBuilder) : Except ConfigError WheelConfig := do
  checkLevel "L0" "l0_tick_duration" b.l0TickDuration b.l0SlotCount
  checkLevel "L1" "l1_tick_duration" b.l1TickDuration b.l1SlotCount
  checkMultiple b.l0Ms b.l1Ms
  return { l0TickDuration := b.l0TickDuration
           l0SlotCount := b.l0SlotCount.toNat
           l1TickDuration := b.l1TickDuration
           l1SlotCount := b.l1SlotCount.toNat }

/-! ## What is accepted -/

theorem exists_two_pow {n : UInt64} (h : n.toNat.isPowerOfTwo) : ∃ a, a ≤ 63 ∧ n.toNat = 2 ^ a := by
  obtain ⟨a, ha⟩ := h
  have hlt : 2 ^ a < 2 ^ 64 := ha ▸ n.toNat_lt
  have ha' : a < 64 := (Nat.pow_lt_pow_iff_right (by decide)).mp hlt
  exact ⟨a, by omega, ha⟩

theorem checkLevel_eq_ok {name field : String} {tickDuration : Duration} {slotCount : UInt64}
    (h : checkLevel name field tickDuration slotCount = .ok ()) :
    ∃ a, a ≤ 63 ∧ slotCount.toNat = 2 ^ a := by
  unfold checkLevel at h
  split at h
  · cases h
  · split at h
    · cases h
    · split at h
      · cases h
      · rename_i hpower
        exact exists_two_pow (Decidable.not_not.mp hpower)

theorem checkMultiple_eq_ok {l0Ms l1Ms : Nat} (h : checkMultiple l0Ms l1Ms = .ok ()) :
    l0Ms ∣ l1Ms := by
  unfold checkMultiple at h
  split at h
  · assumption
  · cases h

/-- What `build` has checked of a configuration it returns. -/
structure Accepted (b : WheelConfigBuilder) (config : WheelConfig) : Prop where
  l0SlotCount : ∃ a, a ≤ 63 ∧ config.l0SlotCount = 2 ^ a
  l1SlotCount : ∃ a, a ≤ 63 ∧ config.l1SlotCount = 2 ^ a
  multiple : b.l0Ms ∣ b.l1Ms
  ratio : ratioOf config = b.l1Ms / max b.l0Ms 1
  l0 : config.l0SlotCount = b.l0SlotCount.toNat

theorem accepted_of_build {b : WheelConfigBuilder} {config : WheelConfig}
    (h : b.build = .ok config) : Accepted b config := by
  unfold build at h
  cases h0 : checkLevel "L0" "l0_tick_duration" b.l0TickDuration b.l0SlotCount with
  | error e =>
    rw [h0] at h
    cases h
  | ok u =>
    cases h1 : checkLevel "L1" "l1_tick_duration" b.l1TickDuration b.l1SlotCount with
    | error e =>
      rw [h0, h1] at h
      cases h
    | ok u' =>
      cases hm : checkMultiple b.l0Ms b.l1Ms with
      | error e =>
        rw [h0, h1, hm] at h
        cases h
      | ok u'' =>
        rw [h0, h1, hm] at h
        cases h
        exact ⟨checkLevel_eq_ok h0, checkLevel_eq_ok h1, checkMultiple_eq_ok hm, rfl, rfl⟩

end WheelConfigBuilder

namespace Wheel

variable {Key T : Type} [DecidableEq Key] {S : SlotMap Key (WheelEntry Key T)} {w : Wheel S}

/-! ## A ratio above the number of slots -/

/-- Draining slots that hold nothing changes nothing. -/
theorem drainSlots_of_empty (idxs : List Nat) (w : Wheel S) (expired : List T)
    (h : ∀ idx, (w.levels .l0).slots idx = none) :
    drainSlots idxs w expired = some (w, expired) := by
  induction idxs with
  | nil => rfl
  | cons idx idxs ih =>
    have hslot : drainSlot w idx expired = some (w, expired) := by
      unfold drainSlot
      rw [h idx]
    rw [drainSlots, hslot, Option.bind_some]
    exact ih

/-- An advance that stays below the first multiple of the ratio delivers nothing when
`L0` is empty. -/
theorem advanceLoop_of_empty (h : ∀ idx, (w.levels .l0).slots idx = none)
    (htick : w.globalTick = 0) {ticks : Nat} (hpos : 0 < ticks) (hlt : ticks < w.l1TickRatio)
    (hfit : ticks < 2 ^ 64) (expired : List T) :
    advanceLoop ticks w ticks expired = some ({ w with globalTick := ticks }, expired) := by
  obtain ⟨n, rfl⟩ : ∃ n, ticks = n + 1 := ⟨ticks - 1, by omega⟩
  have hlen : w.stepLength (n + 1) = n + 1 := by
    unfold stepLength
    rw [htick, Nat.zero_mod]
    omega
  have hmod : (n + 1) % w.l1TickRatio ≠ 0 := by
    rw [Nat.mod_eq_of_lt hlt]
    omega
  have hstep : advanceStep w (n + 1) expired = some ({ w with globalTick := n + 1 }, expired) := by
    unfold advanceStep
    rw [drainSlots_of_empty _ w expired h, Option.bind_some, htick,
      wrappingAdd_of_lt (by omega), Nat.zero_add]
    unfold cascade
    exact if_neg hmod
  rw [advanceLoop, if_neg (by omega), hlen, hstep, Option.bind_some, Nat.sub_self]
  cases n with
  | zero => rfl
  | succ n => rfl

/-- With a ratio above the number of `L0` slots, an item one rotation of `L0` ahead is
stored in `L1`. -/
theorem insert_rotation (config : WheelConfig) (hpos : 0 < config.l0SlotCount)
    (hlt : config.l0SlotCount < ratioOf config) (hfit : config.l0SlotCount < 2 ^ 64)
    (item : T) {delay : Duration}
    (hdelay : (Wheel.new S config).delayToTicks delay = config.l0SlotCount) :
    ∃ w k, (Wheel.new S config).insert item delay = some (w, k) ∧
      (∀ idx, (w.levels .l0).slots idx = none) ∧ w.globalTick = 0 ∧
      w.l1TickRatio = ratioOf config ∧ w.tickDurationMs = (Wheel.new S config).tickDurationMs := by
  have hdeadline : wrappingAdd (Wheel.new S config).globalTick
      (max ((Wheel.new S config).delayToTicks delay) 1) = config.l0SlotCount := by
    have hzero : (Wheel.new S config).globalTick = 0 := rfl
    rw [hdelay, hzero, Nat.max_eq_left hpos, wrappingAdd_of_lt (by omega), Nat.zero_add]
  have hloc : ∃ slot, (Wheel.new S config).determineLocation config.l0SlotCount =
      some (.l1, slot) := by
    have hzero : (Wheel.new S config).globalTick = 0 := rfl
    have hcap : (Wheel.new S config).l0CapacityTicks = config.l0SlotCount := rfl
    have hratio : (Wheel.new S config).l1TickRatio = ratioOf config := rfl
    unfold determineLocation
    simp only [hzero, hcap, wrappingSub_of_le hfit (Nat.zero_le _), Nat.sub_zero]
    rw [if_neg (Nat.lt_irrefl _), if_neg (by omega)]
    exact ⟨_, rfl⟩
  obtain ⟨slot, hloc⟩ := hloc
  unfold insert
  simp only [hdeadline, hloc]
  exact ⟨_, _, rfl, fun idx => rfl, rfl, rfl, rfl⟩

/-! ## Working wheels -/

/-- Building a wheel from the configuration divides by a positive tick, no operation
of a run divides by zero, and every `advance` delivers the items that were inserted
and not cancelled and whose deadline it is the first to reach. -/
structure Working (S : SlotMap Key (WheelEntry Key T)) (config : WheelConfig) : Prop where
  tick_pos : 1 ≤ (Wheel.new S config).tickDurationMs
  ratio_pos : ∀ w agenda, Reachable S config w agenda → 1 ≤ w.l1TickRatio
  on_time : ∀ w agenda, Reachable S config w agenda → ∀ elapsed : Duration,
    elapsed.asMillis < 2 ^ 64 → w.tickAfter elapsed < 2 ^ 64 → ∀ expired,
    ∃ w' keys, w.advance elapsed expired = some (w', expired ++ agenda.items keys) ∧
      w'.globalTick = w.tickAfter elapsed ∧
      ∀ k t, agenda.DueAt k t → t ≤ w'.globalTick → k ∈ keys

theorem working_of_valid (S : SlotMap Key (WheelEntry Key T)) {config : WheelConfig}
    (hc : ValidConfig config) : Working S config := by
  refine ⟨Nat.le_max_right _ _, ?_, ?_⟩
  · intro w agenda h
    exact (h.inv hc).1.shaped.ratio_pos
  · intro w agenda h elapsed helapsed hfit expired
    obtain ⟨hinv, rfl⟩ := h.inv hc
    have hafter : w.tickAfter elapsed = w.globalTick + w.delayToTicks elapsed := by
      rw [tickAfter, delayToTicks_eq _ helapsed]
    obtain ⟨w', keys, hrun, hinv', _, htick, hbatch, _⟩ :=
      advance_spec hinv elapsed (by rw [← hafter]; exact hfit) expired
    refine ⟨w', keys, hrun, by rw [hafter]; exact htick, ?_⟩
    intro k t hk hle
    exact (hbatch.mem_iff (fun k t hk => hinv'.lt_of_dueAt hk) k).mpr ⟨t, hk, hle⟩

/-- An item one rotation of `L0` ahead is missed when the ratio is larger. -/
theorem ratio_le_of_working [Inhabited T] {config : WheelConfig} (h : Working S config)
    (hpos : 0 < config.l0SlotCount) : ratioOf config ≤ config.l0SlotCount := by
  by_contra hgt
  have hlt : config.l0SlotCount < ratioOf config := Nat.lt_of_not_le hgt
  set tickMs := (Wheel.new S config).tickDurationMs with htickMs
  have htick : 0 < tickMs := h.tick_pos
  have hl1 : asU64 config.l1TickDuration.asMillis < 2 ^ 64 := by
    unfold asU64
    exact Nat.mod_lt _ (Nat.two_pow_pos 64)
  have hspan : config.l0SlotCount * tickMs < 2 ^ 64 := by
    calc config.l0SlotCount * tickMs
        ≤ ratioOf config * tickMs := Nat.mul_le_mul_right _ (Nat.le_of_lt hlt)
      _ ≤ asU64 config.l1TickDuration.asMillis := Nat.div_mul_le_self _ _
      _ < 2 ^ 64 := hl1
  have hcount : config.l0SlotCount < 2 ^ 64 :=
    Nat.lt_of_le_of_lt (Nat.le_mul_of_pos_right _ htick) hspan
  -- the item and the advance both span one rotation
  set span := Duration.fromMillis (config.l0SlotCount * tickMs) with hspanDef
  have hmillis : span.asMillis = config.l0SlotCount * tickMs := by
    rw [hspanDef]
    unfold Duration.asMillis Duration.fromMillis
    exact Nat.mul_div_cancel _ (by decide)
  have hticks : (Wheel.new S config).delayToTicks span = config.l0SlotCount := by
    unfold delayToTicks
    rw [hmillis, asU64_of_lt hspan]
    exact Nat.mul_div_cancel _ htick
  obtain ⟨w, k, hinsert, hempty, hzero, hratio, hdur⟩ :=
    insert_rotation (S := S) config hpos hlt hcount (default : T) hticks
  have hdue : (Wheel.new S config).deadlineOf span = config.l0SlotCount := by
    rw [deadlineOf, ← delayToTicks_eq _ (hmillis ▸ hspan), hticks, Nat.max_eq_left hpos]
    exact Nat.zero_add _
  have hnew : Reachable S config (Wheel.new S config) Agenda.empty := Reachable.new
  have hreach := hnew.insert (default : T) span (hmillis ▸ hspan) (hdue ▸ hcount) hinsert
  have hticks' : w.delayToTicks span = config.l0SlotCount := by
    unfold delayToTicks
    rw [hdur]
    exact hticks
  have hafter : w.tickAfter span = config.l0SlotCount := by
    rw [tickAfter, ← delayToTicks_eq _ (hmillis ▸ hspan), hticks', hzero, Nat.zero_add]
  obtain ⟨w', keys, hrun, htick', hdelivered⟩ :=
    h.on_time w _ hreach span (hmillis ▸ hspan) (hafter ▸ hcount) []
  have hmissed : w.advance span [] =
      some ({ w with globalTick := config.l0SlotCount }, []) := by
    unfold advance
    simp only [hticks']
    exact advanceLoop_of_empty hempty hzero hpos (hratio ▸ hlt) hcount []
  rw [hmissed] at hrun
  obtain ⟨_, hnone⟩ := Prod.mk.inj (Option.some.inj hrun)
  have hmem : k ∈ keys := by
    refine hdelivered k config.l0SlotCount ⟨default, ?_⟩ (by rw [htick', hafter])
    rw [hdue, Agenda.add, if_pos rfl]
  have hitem : (default : T) ∈ Agenda.items (Agenda.empty.add k default
      ((Wheel.new S config).deadlineOf span)) keys := by
    refine List.mem_filterMap.mpr ⟨k, hmem, ?_⟩
    rw [Agenda.add, if_pos rfl]
    rfl
  rw [List.nil_append] at hnone
  rw [← hnone] at hitem
  exact List.not_mem_nil hitem

end Wheel

namespace WheelConfigBuilder

variable {Key T : Type} [DecidableEq Key]

/-- A tick of `L1` is at least a millisecond and at most one rotation of `L0`, both
counted in whole milliseconds. -/
def Proportioned (b : WheelConfigBuilder) : Prop :=
  1 ≤ b.l1Ms ∧ b.l1Ms ≤ b.l0SlotCount.toNat * b.l0Ms

/-- For a configuration that was accepted, the bounds on the durations are bounds on
the ratio. -/
theorem Accepted.ratio_iff {b : WheelConfigBuilder} {config : WheelConfig}
    (h : Accepted b config) :
    1 ≤ ratioOf config ∧ ratioOf config ≤ config.l0SlotCount ↔ b.Proportioned := by
  obtain ⟨q, hq⟩ := h.multiple
  unfold Proportioned
  rw [h.ratio, h.l0]
  by_cases hzero : b.l0Ms = 0
  · have hl1 : b.l1Ms = 0 := by rw [hq, hzero, Nat.zero_mul]
    rw [hl1, Nat.zero_div]
    constructor
    · intro hone
      omega
    · intro hone
      omega
  · have hpos : 0 < b.l0Ms := Nat.pos_of_ne_zero hzero
    rw [Nat.max_eq_left hpos, hq, Nat.mul_div_cancel_left _ hpos, Nat.mul_comm b.l0Ms q]
    constructor
    · rintro ⟨hone, hle⟩
      exact ⟨Nat.mul_pos hone hpos, Nat.mul_le_mul_right _ hle⟩
    · rintro ⟨hone, hle⟩
      exact ⟨Nat.pos_of_mul_pos_right hone, Nat.le_of_mul_le_mul_right hle hpos⟩

/-- **Accepted configurations.**  A configuration that `build` returns gives a working
wheel exactly when a tick of `L1` is at least a millisecond and at most one rotation of
`L0`. -/
theorem build_working_iff [Inhabited T] (S : SlotMap Key (WheelEntry Key T))
    (b : WheelConfigBuilder) {config : WheelConfig} (h : b.build = .ok config) :
    Working S config ↔ b.Proportioned := by
  have hacc := accepted_of_build h
  rw [← hacc.ratio_iff]
  constructor
  · intro hw
    obtain ⟨a, _, ha⟩ := hacc.l0SlotCount
    exact ⟨hw.ratio_pos _ _ Reachable.new, ratio_le_of_working hw (ha ▸ Nat.two_pow_pos a)⟩
  · intro hratio
    exact working_of_valid S ⟨hacc.l0SlotCount, hacc.l1SlotCount, hratio.1, hratio.2⟩

/-- The default configuration is accepted and works. -/
theorem build_working_default :
    ∃ config, WheelConfigBuilder.default.build = .ok config ∧
      Working (SlotMap.appending (WheelEntry Nat Nat)) config := by
  have hbuild : WheelConfigBuilder.default.build = .ok WheelConfig.default := by decide +kernel
  refine ⟨WheelConfig.default, hbuild, (build_working_iff _ _ hbuild).mpr ⟨?_, ?_⟩⟩
  · decide +kernel
  · decide +kernel

/-- Both ticks last half a millisecond. -/
def halfMillisecond : WheelConfigBuilder :=
  WheelConfigBuilder.default.withL0TickDuration 500000 |>.withL1TickDuration 500000

/-- One slot of a millisecond below slots of two milliseconds. -/
def singleSlot : WheelConfigBuilder :=
  WheelConfigBuilder.default.withL0TickDuration (Duration.fromMillis 1)
    |>.withL0SlotCount 1 |>.withL1TickDuration (Duration.fromMillis 2)

/-- Half a millisecond is accepted and makes the ratio zero, and a wheel with one slot
below a ratio of two delivers late. -/
theorem build_accepts_broken :
    (∃ config, halfMillisecond.build = .ok config ∧
      (Wheel.new (SlotMap.appending (WheelEntry Nat Nat)) config).l1TickRatio = 0) ∧
    ∃ config, singleSlot.build = .ok config ∧
      ¬ Working (SlotMap.appending (WheelEntry Nat Nat)) config := by
  refine ⟨⟨_, show halfMillisecond.build = .ok ⟨500000, 512, 500000, 64⟩ by decide +kernel, ?_⟩,
    ⟨_, show singleSlot.build = .ok ⟨1000000, 1, 2000000, 64⟩ by decide +kernel, ?_⟩⟩
  · decide +kernel
  · intro hw
    have hle := ratio_le_of_working hw Nat.one_pos
    exact absurd hle (by decide +kernel)

end WheelConfigBuilder

end Veloq.Timing
