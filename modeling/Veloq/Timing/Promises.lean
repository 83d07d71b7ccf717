import Veloq.Timing.Batching
set_option autoImplicit false

/-!
# Timing: which timers may fire early

A `Clock` counts the ticks its wheel has been advanced by, without bound, and remembers for
every pending id the count before which its item must not come out: the count at its
insertion and `floor(delay / tick)`.

`insert` keeps the low 64 bits of the delay in milliseconds and lets the deadline wrap
round.  A truncated delay is too short, and `cascade_list` takes a deadline that has wrapped
for one that has passed if its slot has a turn before the count wraps as well.
`Wheel.Timely` excludes these delays, and no others.
-/

namespace Veloq.Timing

open Veloq.Foundation

namespace Gauge

variable {T : Type} {g : Gauge} {t s n rem fuel : Nat} {e : Held T}

/-- From tick `t` on the entry stays in the wheel for less than `rem` ticks to come. -/
def Waits (g : Gauge) (t rem : Nat) (e : Held T) : Prop :=
  match e.level with
  | .l0 => rem ≤ wrappingSub e.deadline t ∧ wrappingSub e.deadline t < g.l0
  | .l1 => t + rem ≤ e.deadline ∨
      t + rem ≤ e.deadline + 2 ^ 64 ∧ ∀ tick, t < tick → tick < 2 ^ 64 → ¬ g.Turn tick e.deadline

theorem waits_of_l0 (hlevel : e.level = .l0) (hrem : rem ≤ wrappingSub e.deadline t)
    (hlt : wrappingSub e.deadline t < g.l0) : g.Waits t rem e := by
  unfold Waits
  rw [hlevel]
  exact ⟨hrem, hlt⟩

theorem waits_of_le (hlevel : e.level = .l1) (h : t + rem ≤ e.deadline) : g.Waits t rem e := by
  unfold Waits
  rw [hlevel]
  exact Or.inl h

/-- A live entry that is not due at `tick` stays, wherever it is filed. -/
theorem cascade_waits {tick : Nat} (hlevel : e.level = .l1) (hdead : e.deadline < 2 ^ 64)
    (hitem : e.item.isNone = false) (hpos : 0 < rem) (h : tick + rem ≤ e.deadline) :
    ∃ e', g.cascade tick e = some e' ∧ e'.item = e.item ∧ e'.deadline = e.deadline ∧
      g.Waits tick rem e' := by
  by_cases hturn : g.Turn tick e.deadline
  · have hstays : ¬ (e.item.isNone ∨ e.deadline ≤ tick) := by
      rw [hitem]
      rintro (hnone | hdue)
      · cases hnone
      · omega
    have hsub : wrappingSub e.deadline tick = e.deadline - tick :=
      wrappingSub_of_le hdead (by omega)
    rw [cascade_of_turn hlevel hturn, if_neg hstays]
    by_cases hnear : wrappingSub e.deadline tick < g.l0
    · rw [if_pos hnear]
      refine ⟨_, rfl, rfl, rfl, waits_of_l0 rfl ?_ hnear⟩
      show rem ≤ wrappingSub e.deadline tick
      omega
    · rw [if_neg hnear]
      exact ⟨_, rfl, rfl, rfl, waits_of_le rfl h⟩
  · exact ⟨e, cascade_of_not_turn hturn, rfl, rfl, waits_of_le hlevel h⟩

/-- A step that is shorter than the wait. -/
theorem leap_waits (hg : g.Valid) (ht : t < 2 ^ 64) (hdead : e.deadline < 2 ^ 64)
    (hitem : e.item.isNone = false) (hpos : 0 < s) (hlt : s < 2 ^ 64) (hs : s < rem)
    (h : g.Waits t rem e) :
    ∃ e', g.leap t s e = some e' ∧ e'.item = e.item ∧ e'.deadline = e.deadline ∧
      g.Waits (wrappingAdd t s) (rem - s) e' := by
  unfold Waits at h
  cases hlevel : e.level with
  | l0 =>
    rw [hlevel] at h
    obtain ⟨hrem, hnear⟩ := h
    obtain ⟨a, ha, hl0⟩ := hg.l0
    have hpow : 2 ^ a ≤ 2 ^ 63 := Nat.pow_le_pow_right (by decide) ha
    have hback : e.deadline = wrappingAdd t (wrappingSub e.deadline t) := by
      unfold wrappingAdd wrappingSub
      omega
    have hnext : wrappingSub e.deadline (wrappingAdd t s) = wrappingSub e.deadline t - s := by
      unfold wrappingAdd wrappingSub at *
      omega
    rw [leap_of_l0 hg hlevel, if_neg]
    · refine ⟨e, rfl, rfl, rfl, waits_of_l0 hlevel ?_ ?_⟩ <;> omega
    · rintro ⟨i, hi, heq⟩
      rw [hback, hg.wrappingAdd_mod] at heq
      have hsame := eq_of_mod_eq heq (by omega) (by omega)
      omega
  | l1 =>
    rw [hlevel] at h
    rw [leap_of_l1 hlevel]
    rcases h with hle | ⟨hle, hturns⟩
    · rw [wrappingAdd_of_lt (by omega)]
      exact cascade_waits hlevel hdead hitem (by omega) (by omega)
    · by_cases hend : t + s < 2 ^ 64
      · rw [wrappingAdd_of_lt hend]
        refine ⟨e, cascade_of_not_turn (hturns (t + s) (by omega) hend), rfl, rfl, ?_⟩
        unfold Waits
        rw [hlevel]
        exact Or.inr ⟨by omega, fun tick hlt => hturns tick (by omega)⟩
      · rw [wrappingAdd_of_le ht (by omega) (by omega)]
        exact cascade_waits hlevel hdead hitem (by omega) (by omega)

/-- An advance that is shorter than the wait. -/
theorem leaps_waits (hg : g.Valid) (ht : t < 2 ^ 64) (hdead : e.deadline < 2 ^ 64)
    (hitem : e.item.isNone = false) (hlt : n < 2 ^ 64) (hn : n < rem) (hfuel : n ≤ fuel)
    (h : g.Waits t rem e) :
    ∃ e', g.leaps fuel t n e = some e' ∧ e'.item = e.item ∧
      g.Waits (wrappingAdd t n) (rem - n) e' := by
  induction fuel generalizing t n rem e with
  | zero =>
    obtain rfl : n = 0 := Nat.le_zero.mp hfuel
    exact ⟨e, rfl, rfl, by rw [wrappingAdd_zero ht]; exact h⟩
  | succ fuel ih =>
    cases n with
    | zero => exact ⟨e, rfl, rfl, by rw [wrappingAdd_zero ht]; exact h⟩
    | succ n =>
      set s := g.stride t (n + 1) with hs
      have hpos : 0 < s := stride_pos hg t n
      have hle : s ≤ n + 1 := g.stride_le t (n + 1)
      obtain ⟨e₁, hleap, hitem₁, hdead₁, hwaits₁⟩ :=
        leap_waits hg ht hdead hitem hpos (by omega) (by omega) h
      obtain ⟨e₂, hleaps, hitem₂, hwaits₂⟩ := ih (n := n + 1 - s) (wrappingAdd_lt t s)
        (hdead₁ ▸ hdead) (hitem₁ ▸ hitem) (by omega) (by omega) (by omega) hwaits₁
      refine ⟨e₂, ?_, hitem₂.trans hitem₁, ?_⟩
      · rw [leaps, ← hs, hleap]
        exact hleaps
      · rw [wrappingAdd_assoc, Nat.add_sub_cancel' hle,
          show rem - s - (n + 1 - s) = rem - (n + 1) by omega] at hwaits₂
        exact hwaits₂

end Gauge

namespace Wheel

variable {Key T : Type} [DecidableEq Key] {S : SlotMap Key (WheelEntry Key T)} {w w' : Wheel S}
  {k : Key}

/-- The delay survives the conversion to ticks, and the deadline is near, does not wrap, or
is filed in a slot without a turn before the count wraps as well. -/
def Timely (w : Wheel S) (delay : Duration) : Prop :=
  delay.asMillis / w.tickDurationMs ≤ max (w.delayToTicks delay) 1 ∧
    (max (w.delayToTicks delay) 1 < w.l0CapacityTicks ∨
      w.globalTick + max (w.delayToTicks delay) 1 < 2 ^ 64 ∨
      ∀ tick, w.globalTick < tick → tick < 2 ^ 64 →
        ¬ w.gauge.Turn tick (wrappingAdd w.globalTick (max (w.delayToTicks delay) 1)))

theorem delayToTicks_lt (w : Wheel S) (delay : Duration) : w.delayToTicks delay < 2 ^ 64 := by
  refine Nat.lt_of_le_of_lt (Nat.div_le_self _ _) ?_
  unfold asU64
  omega

/-- An item with a timely delay waits for all of it. -/
theorem waits_of_insert (hw : Sane w) {item : T} {delay : Duration} (h : w.Timely delay)
    (hrun : w.insert item delay = some (w', k)) :
    ∃ e, w'.held k = some e ∧ e.item = some item ∧
      w'.gauge.Waits w'.globalTick (delay.asMillis / w.tickDurationMs) e := by
  obtain ⟨hshape, htick, level, hlevel, hheld⟩ := held_of_insert hrun
  obtain ⟨hticks, hplace⟩ := h
  set ticks := max (w.delayToTicks delay) 1 with hmax
  have hlt : ticks < 2 ^ 64 := Nat.max_lt.mpr ⟨w.delayToTicks_lt delay, by decide⟩
  have hback : wrappingSub (wrappingAdd w.globalTick ticks) w.globalTick = ticks :=
    wrappingSub_wrappingAdd hw.tick hlt
  refine ⟨_, by rw [hheld, Function.update_self], rfl, ?_⟩
  rw [hshape.gauge, htick]
  rw [hback, hw.shaped.capacity] at hlevel
  rw [hw.shaped.capacity] at hplace
  by_cases hnear : ticks < (w.levels .l0).slotCount
  · rw [if_pos hnear] at hlevel
    refine Gauge.waits_of_l0 hlevel ?_ ?_
    · show _ ≤ wrappingSub (wrappingAdd w.globalTick ticks) w.globalTick
      omega
    · show wrappingSub (wrappingAdd w.globalTick ticks) w.globalTick < _
      rw [hback]
      exact hnear
  · rw [if_neg hnear] at hlevel
    subst hlevel
    rcases hplace.resolve_left hnear with hfit | hturns
    · refine Gauge.waits_of_le rfl ?_
      show _ ≤ wrappingAdd w.globalTick ticks
      rw [wrappingAdd_of_lt hfit]
      omega
    · refine Or.inr ⟨?_, hturns⟩
      show _ ≤ wrappingAdd w.globalTick ticks + 2 ^ 64
      have htick := hw.tick
      unfold wrappingAdd
      omega

/-! ## Clocks -/

/-- A wheel, the number of ticks it has been advanced by, and what was promised for the
pending ids: the item, and the number of ticks before which it does not come out. -/
structure Clock (S : SlotMap Key (WheelEntry Key T)) where
  wheel : Wheel S
  total : Nat
  promised : Key → Option (T × Nat)

namespace Clock

variable {c c' : Clock S}

def new (S : SlotMap Key (WheelEntry Key T)) (config : WheelConfig) : Clock S :=
  { wheel := Wheel.new S config
    total := 0
    promised := fun _ => none }

/-- One operation, if it returns. -/
def next (c : Clock S) : WheelEvent Key T → Option (Clock S)
  | .insert item delay => (c.wheel.insert item delay).map fun r =>
      { wheel := r.1
        total := c.total
        promised := Function.update c.promised r.2
          (some (item, c.total + delay.asMillis / c.wheel.tickDurationMs)) }
  | .cancel k => some
      { wheel := (c.wheel.cancel k).1
        total := c.total
        promised := Function.update c.promised k none }
  | .advance elapsed expired => (c.wheel.advance elapsed expired).map fun r =>
      { wheel := r.1
        total := c.total + c.wheel.delayToTicks elapsed
        promised := c.promised }

/-- Operations as steps. -/
def Step (c : Clock S) (e : WheelEvent Key T) (c' : Clock S) : Prop := c.next e = some c'

/-- Only timely delays. -/
def Timely (c : Clock S) : WheelEvent Key T → Prop
  | .insert _ delay => c.wheel.Timely delay
  | .cancel _ => True
  | .advance _ _ => True

/-- No item has come out before its time: each could still be cancelled. -/
def Punctual (c : Clock S) : Prop :=
  ∀ k item due, c.promised k = some (item, due) → c.total < due →
    (c.wheel.cancel k).2 = some item

/-- Every item waits for as long as was promised. -/
structure Waiting (c : Clock S) : Prop where
  sane : Sane c.wheel
  waits : ∀ k item due, c.promised k = some (item, due) → c.total < due →
    ∃ e, c.wheel.held k = some e ∧ e.item = some item ∧
      c.wheel.gauge.Waits c.wheel.globalTick (due - c.total) e

/-- A wheel with a ratio of zero does not move. -/
structure Stopped (c : Clock S) : Prop where
  ratio : c.wheel.l1TickRatio = 0
  held : ∀ k item due, c.promised k = some (item, due) →
    ∃ e, c.wheel.held k = some e ∧ e.item = some item

theorem cancel_of_held {item : T} {e : Held T} (hheld : w.held k = some e)
    (hitem : e.item = some item) : (w.cancel k).2 = some item := by
  rw [(cancel_pending w k).1, pending_of_held, hheld, Option.bind_some, hitem]
  rfl

theorem Waiting.punctual (h : Waiting c) : c.Punctual := by
  intro k item due hp hlt
  obtain ⟨e, hheld, hitem, -⟩ := h.waits k item due hp hlt
  exact cancel_of_held hheld hitem

theorem Stopped.punctual (h : Stopped c) : c.Punctual := by
  intro k item due hp _
  obtain ⟨e, hheld, hitem⟩ := h.held k item due hp
  exact cancel_of_held hheld hitem

/-- `cancel` changes no other entry. -/
theorem held_cancel_of_ne {j : Key} (hj : j ≠ k) : (w.cancel k).1.held j = w.held j :=
  held_congr (get_modify_of_ne _ hj)

theorem promised_of_update {promised : Key → Option (T × Nat)} {p : Option (T × Nat)} {j : Key}
    {q : T × Nat} (h : Function.update promised k p j = some q) :
    j = k ∧ p = some q ∨ j ≠ k ∧ promised j = some q := by
  by_cases hj : j = k
  · rw [hj, Function.update_self] at h
    exact Or.inl ⟨hj, h⟩
  · rw [Function.update_of_ne hj] at h
    exact Or.inr ⟨hj, h⟩

theorem Stopped.step {e : WheelEvent Key T} (h : Stopped c) (hs : Step c e c') : Stopped c' := by
  cases e with
  | insert item delay =>
    obtain ⟨⟨w', k⟩, hrun, rfl⟩ := Option.map_eq_some_iff.mp hs
    obtain ⟨hshape, -, level, -, hheld⟩ := held_of_insert hrun
    refine ⟨hshape.ratio.trans h.ratio, fun j item' due hp => ?_⟩
    show ∃ e, w'.held j = some e ∧ e.item = some item'
    rw [hheld]
    rcases promised_of_update hp with ⟨rfl, heq⟩ | ⟨hj, hold⟩
    · cases heq
      exact ⟨_, Function.update_self .., rfl⟩
    · rw [Function.update_of_ne hj]
      exact h.held j item' due hold
  | cancel k =>
    cases hs
    refine ⟨h.ratio, fun j item due hp => ?_⟩
    rcases promised_of_update hp with ⟨-, hnone⟩ | ⟨hj, hold⟩
    · cases hnone
    · obtain ⟨e, hheld, hitem⟩ := h.held j item due hold
      exact ⟨e, (held_cancel_of_ne hj).trans hheld, hitem⟩
  | advance elapsed expired =>
    obtain ⟨⟨w', out⟩, hrun, rfl⟩ := Option.map_eq_some_iff.mp hs
    -- the first tick divides by the ratio
    unfold advance at hrun
    cases hticks : c.wheel.delayToTicks elapsed with
    | zero =>
      simp only [hticks, advanceLoop] at hrun
      cases hrun
      exact ⟨h.ratio, h.held⟩
    | succ ticks =>
      simp only [hticks, advanceLoop, if_pos h.ratio] at hrun
      cases hrun

theorem Waiting.step {e : WheelEvent Key T} (h : Waiting c) (htimely : c.Timely e)
    (hs : Step c e c') : Waiting c' := by
  cases e with
  | insert item delay =>
    obtain ⟨⟨w', k⟩, hrun, rfl⟩ := Option.map_eq_some_iff.mp hs
    refine ⟨h.sane.insert hrun, fun j item' due hp hlt => ?_⟩
    obtain ⟨hshape, htick, level, -, hheld⟩ := held_of_insert hrun
    rcases promised_of_update hp with ⟨rfl, heq⟩ | ⟨hj, hold⟩
    · cases heq
      obtain ⟨e, he, hitem, hwaits⟩ := waits_of_insert h.sane htimely hrun
      refine ⟨e, he, hitem, ?_⟩
      rw [Nat.add_sub_cancel_left]
      exact hwaits
    · obtain ⟨e, he, hitem, hwaits⟩ := h.waits j item' due hold hlt
      refine ⟨e, ?_, hitem, ?_⟩
      · show w'.held j = some e
        rw [hheld, Function.update_of_ne hj, he]
      · show w'.gauge.Waits w'.globalTick _ e
        rw [hshape.gauge, htick]
        exact hwaits
  | cancel k =>
    cases hs
    refine ⟨h.sane.cancel k, fun j item due hp hlt => ?_⟩
    rcases promised_of_update hp with ⟨-, hnone⟩ | ⟨hj, hold⟩
    · cases hnone
    · obtain ⟨e, he, hitem, hwaits⟩ := h.waits j item due hold hlt
      exact ⟨e, (held_cancel_of_ne hj).trans he, hitem, hwaits⟩
  | advance elapsed expired =>
    obtain ⟨⟨w', out⟩, hrun, rfl⟩ := Option.map_eq_some_iff.mp hs
    refine ⟨h.sane.advance hrun, fun j item due hp hlt => ?_⟩
    change c.total + c.wheel.delayToTicks elapsed < due at hlt
    obtain ⟨e, he, hitem, hwaits⟩ := h.waits j item due hp (by omega)
    obtain ⟨htick, hheld⟩ := held_of_advanceLoop h.sane.linked h.sane.shaped h.sane.tick hrun
    have hlive : e.item.isNone = false := by
      rw [hitem]
      rfl
    obtain ⟨e', hleaps, hitem', hwaits'⟩ := Gauge.leaps_waits h.sane.shaped.gauge h.sane.tick
      (h.sane.bound j e he) hlive (c.wheel.delayToTicks_lt elapsed) (by omega) (Nat.le_refl _)
      hwaits
    refine ⟨e', ?_, hitem'.trans hitem, ?_⟩
    · show w'.held j = some e'
      rw [hheld j, he]
      exact hleaps
    · obtain ⟨w₁, keys, hrun₁, -, hshape, -⟩ := advanceLoop_linked _ c.wheel
        (c.wheel.delayToTicks elapsed) expired h.sane.linked h.sane.shaped.ratio_ne_zero
        (Nat.le_refl _)
      obtain ⟨rfl, -⟩ := Prod.mk.inj (Option.some.inj (hrun.symm.trans hrun₁))
      show w'.gauge.Waits w'.globalTick (due - (c.total + c.wheel.delayToTicks elapsed)) e'
      rw [hshape.gauge, htick, Nat.sub_add_eq]
      exact hwaits'

/-- **No timely timer fires early.**  In every run whose delays are all timely, no item has
come out before its wheel was advanced by the whole ticks of its delay. -/
theorem timely_never_early (S : SlotMap Key (WheelEntry Key T)) {config : WheelConfig}
    (hl0 : ∃ a, a ≤ 63 ∧ config.l0SlotCount = 2 ^ a)
    (hl1 : ∃ a, a ≤ 63 ∧ config.l1SlotCount = 2 ^ a) {c : Clock S}
    (hrun : Run Step Timely (fun c => c = Clock.new S config) c) : c.Punctual := by
  rcases Nat.eq_zero_or_pos (ratioOf config) with hratio | hratio
  · have hstopped : Stopped c := by
      refine hrun.invariant ?_ fun _ _ _ h _ hs => h.step hs
      rintro c rfl
      exact ⟨hratio, fun k item due hp => by cases hp⟩
    exact hstopped.punctual
  · have hwaiting : Waiting c := by
      refine hrun.invariant ?_ fun _ _ _ h ht hs => h.step ht hs
      rintro c rfl
      exact ⟨Sane.new S ⟨hl0, hl1, hratio⟩, fun k item due hp _ => by cases hp⟩
    exact hwaiting.punctual

/-- The delay survives the conversion, and the deadline is near or does not wrap. -/
def timelyTest (c : Clock S) : WheelEvent Key T → Bool
  | .insert _ delay =>
      decide (delay.asMillis / c.wheel.tickDurationMs ≤ max (c.wheel.delayToTicks delay) 1) &&
        decide (max (c.wheel.delayToTicks delay) 1 < c.wheel.l0CapacityTicks ∨
          c.wheel.globalTick + max (c.wheel.delayToTicks delay) 1 < 2 ^ 64)
  | .cancel _ => true
  | .advance _ _ => true

theorem timely_of_test {e : WheelEvent Key T} (h : c.timelyTest e = true) : c.Timely e := by
  cases e with
  | insert item delay =>
    obtain ⟨hticks, hplace⟩ := (Bool.and_eq_true ..).mp h
    exact ⟨of_decide_eq_true hticks, (of_decide_eq_true hplace).imp_right Or.inl⟩
  | cancel | advance => trivial

/-- A timer of twenty milliseconds, ten milliseconds later. -/
def twoTicks : List (WheelEvent Nat Nat) :=
  [.insert 7 (Duration.fromMillis 20), .advance (Duration.fromMillis 10) []]

def twoTicksClock : Clock (SlotMap.appending (WheelEntry Nat Nat)) :=
  (replay next timelyTest (new _ WheelConfig.default) twoTicks).get (by decide +kernel)

theorem timely_two_ticks :
    twoTicksClock.total = 1 ∧ (twoTicksClock.wheel.cancel 0).2 = some 7 := by
  have hreplay : replay next timelyTest (new _ WheelConfig.default) twoTicks =
      some twoTicksClock := (Option.some_get _).symm
  have hstart : Run Step Timely
      (fun c => c = new (SlotMap.appending (WheelEntry Nat Nat)) WheelConfig.default)
      (new _ WheelConfig.default) := Run.start rfl
  have hrun := hstart.replay (fun _ _ _ hs => hs) (fun _ _ => timely_of_test) hreplay
  have hclock : twoTicksClock.promised 0 = some (7, 2) ∧ twoTicksClock.total = 1 := by
    decide +kernel
  refine ⟨hclock.2, timely_never_early _ ⟨9, by decide, rfl⟩ ⟨6, by decide, rfl⟩ hrun 0 7 2
    hclock.1 ?_⟩
  rw [hclock.2]
  decide

/-- A delay of `2 ^ 64` milliseconds is taken for none. -/
def truncatedDelay : List (WheelEvent Nat Nat) :=
  [.insert 7 (Duration.fromMillis (2 ^ 64)), .advance (Duration.fromMillis 10) []]

def truncatedClock : Clock (SlotMap.appending (WheelEntry Nat Nat)) :=
  (replay next (fun _ _ => true) (new _ WheelConfig.default) truncatedDelay).get
    (by decide +kernel)

/-- Two slots of `2 ^ 62` ticks above four of one millisecond. -/
def halfConfig : WheelConfig :=
  { l0TickDuration := Duration.fromMillis 1
    l0SlotCount := 4
    l1TickDuration := Duration.fromMillis (2 ^ 62)
    l1SlotCount := 2 }

/-- One tick before the turn of its slot, half the range of the count before its deadline. -/
def wrappedDeadline : List (WheelEvent Nat Nat) :=
  [.advance (Duration.fromMillis (2 ^ 63 - 1)) [], .insert 7 (Duration.fromMillis (2 ^ 63 + 10)),
    .advance (Duration.fromMillis 1) []]

def wrappedClock : Clock (SlotMap.appending (WheelEntry Nat Nat)) :=
  (replay next (fun _ _ => true) (new _ halfConfig) wrappedDeadline).get (by decide +kernel)

/-- Both items come out after a single tick. -/
theorem timers_early :
    (Run Step Always
        (fun c => c = new (SlotMap.appending (WheelEntry Nat Nat)) WheelConfig.default)
        truncatedClock ∧ ¬ truncatedClock.Punctual) ∧
      Run Step Always (fun c => c = new (SlotMap.appending (WheelEntry Nat Nat)) halfConfig)
        wrappedClock ∧ ¬ wrappedClock.Punctual := by
  have htruncated : replay next (fun _ _ => true) (new _ WheelConfig.default) truncatedDelay =
      some truncatedClock := (Option.some_get _).symm
  have hwrapped : replay next (fun _ _ => true) (new _ halfConfig) wrappedDeadline =
      some wrappedClock := (Option.some_get _).symm
  have hstart : ∀ config, Run Step Always
      (fun c => c = new (SlotMap.appending (WheelEntry Nat Nat)) config) (new _ config) :=
    fun config => Run.start rfl
  obtain ⟨⟨hp, ht, hgone⟩, hp', ht', hgone'⟩ :
      (truncatedClock.promised 0 = some (7, 2 ^ 64 / 10) ∧ truncatedClock.total = 1 ∧
        (truncatedClock.wheel.cancel 0).2 = none) ∧
      wrappedClock.promised 0 = some (7, 2 ^ 64 + 9) ∧ wrappedClock.total = 2 ^ 63 ∧
        (wrappedClock.wheel.cancel 0).2 = none := by decide +kernel
  refine ⟨⟨(hstart _).replay (fun _ _ _ hs => hs) (fun _ _ _ => trivial) htruncated,
    fun hpunctual => ?_⟩, (hstart _).replay (fun _ _ _ hs => hs) (fun _ _ _ => trivial) hwrapped,
    fun hpunctual => ?_⟩
  · have hin := hpunctual 0 7 _ hp (by rw [ht]; decide)
    rw [hgone] at hin
    cases hin
  · have hin := hpunctual 0 7 _ hp' (by rw [ht']; decide)
    rw [hgone'] at hin
    cases hin

end Clock

end Wheel

end Veloq.Timing
