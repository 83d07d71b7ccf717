import Veloq.Timing.Delivery
set_option autoImplicit false

/-!
# Timing: the wheel refines an agenda

The abstract wheel is an `Agenda`: `insert` adds an item with its deadline,
`cancel` drops one, and time passing removes whatever is due.  `Reachable` runs the
wheel and the agenda side by side; the run lemma says that the wheel's pending
items are the agenda, and that every `advance` delivers what the agenda loses.
-/

namespace Veloq.Timing.Wheel

open Veloq.Foundation

variable {Key T : Type} [DecidableEq Key] {S : SlotMap Key (WheelEntry Key T)}
  {w w' : Wheel S} {k : Key}

/-- What holds of a wheel between its operations. -/
structure Inv (w : Wheel S) : Prop where
  linked : Linked w none []
  shaped : WellShaped w
  timed : Timed w (w.globalTick + 1) (w.globalTick + (w.levels .l0).slotCount)
    (w.globalTick / w.l1TickRatio + 1) []
  tick : w.globalTick < 2 ^ 64

/-! ## One step of `advance` -/

theorem Timed.relax {first horizon first' horizon' l1First : Nat} {detached : List Key}
    (ht : Timed w first horizon l1First detached)
    (hle : ∀ t, first ≤ t → t < horizon → first' ≤ t ∧ t < horizon') (tick : Nat) :
    Timed { w with globalTick := tick } first' horizon' l1First detached := by
  refine ⟨?_, ht.l1, ht.bound⟩
  intro k entry hget hnot hlevel
  obtain ⟨hlo, hhi⟩ := ht.l0 k entry hget hnot hlevel
  exact hle _ hlo hhi

/-- A step shorter than a rotation drains the slots of the ticks it passes. -/
theorem stepSlots_of_lt (hs : WellShaped w) {step : Nat}
    (hlt : step < (w.levels .l0).slotCount) (hfit : w.globalTick + step < 2 ^ 64) :
    w.stepSlots step =
      (List.range' (w.globalTick + 1) step).map (· &&& (w.levels .l0).mask) := by
  unfold stepSlots
  rw [if_neg (by rw [hs.capacity]; omega), List.range'_eq_map_range, List.map_map]
  refine List.map_congr_left ?_
  intro i hi
  have hi' : i < step := List.mem_range.mp hi
  rw [Function.comp_apply, wrappingAdd_of_lt (by omega), Nat.add_assoc, Nat.add_comm 1 i]

/-- A step of a whole rotation starts at a multiple of it, so the slots in order
are the slots of the ticks in order. -/
theorem stepSlots_of_ge (hs : WellShaped w) {step : Nat}
    (hge : (w.levels .l0).slotCount ≤ step)
    (hstep : step ≤ w.l1TickRatio - w.globalTick % w.l1TickRatio) :
    step = (w.levels .l0).slotCount ∧ w.stepSlots step =
      (List.range' w.globalTick step).map (· &&& (w.levels .l0).mask) := by
  have hratio := hs.ratio_le
  have hpos := hs.slotCount_pos .l0
  have hcap : w.l1TickRatio = (w.levels .l0).slotCount := by omega
  have hzero : w.globalTick % (w.levels .l0).slotCount = 0 := by
    rw [← hcap]
    omega
  have hstepEq : step = (w.levels .l0).slotCount := by omega
  refine ⟨hstepEq, ?_⟩
  unfold stepSlots
  rw [if_pos (by rw [hs.capacity]; omega), List.range'_eq_map_range, List.map_map, hstepEq]
  refine (List.map_id _).symm.trans (List.map_congr_left ?_)
  intro i hi
  have hi' : i < (w.levels .l0).slotCount := List.mem_range.mp hi
  rw [Function.comp_apply, hs.and_mask, Nat.add_mod, hzero, Nat.zero_add, Nat.mod_mod,
    Nat.mod_eq_of_lt hi']
  rfl

/-- Draining `L0` over a step leaves only entries due after it. -/
theorem drainStep_spec (h : Inv w) {step : Nat} (hpos : 0 < step)
    (hstep : step ≤ w.l1TickRatio - w.globalTick % w.l1TickRatio)
    (hfit : w.globalTick + step < 2 ^ 64) (expired : List T) :
    ∃ w' keys, drainSlots (w.stepSlots step) w expired =
        some (w', expired ++ w.pending.items keys) ∧
      Linked w' none [] ∧ SameShape w w' ∧ w'.globalTick = w.globalTick ∧
      Timed { w' with globalTick := w.globalTick + step } (w.globalTick + step + 1)
        (w.globalTick + step + (w.levels .l0).slotCount) (w.globalTick / w.l1TickRatio + 1) [] ∧
      Batch w.pending w'.pending w.globalTick (w.globalTick + step) keys := by
  by_cases hge : (w.levels .l0).slotCount ≤ step
  · obtain ⟨hstepEq, hslots⟩ := stepSlots_of_ge h.shaped hge hstep
    have htimed : Timed w w.globalTick (w.globalTick + (w.levels .l0).slotCount)
        (w.globalTick / w.l1TickRatio + 1) [] :=
      h.timed.relax (fun t hlo hhi => ⟨by omega, hhi⟩) w.globalTick
    obtain ⟨w', keys, hrun, hlinked, hshape, htick, ht, hbatch⟩ :=
      drainSlots_spec step w w.globalTick expired h.linked h.shaped htimed (Nat.le_refl _)
    refine ⟨w', keys, by rw [hslots]; exact hrun, hlinked, hshape, htick, ?_,
      hbatch.mono (Nat.le_refl _) (by omega)⟩
    -- nothing is left in `L0`
    exact ht.relax (fun t hlo hhi => by omega) _
  · have hslots := stepSlots_of_lt h.shaped (Nat.lt_of_not_le hge) hfit
    obtain ⟨w', keys, hrun, hlinked, hshape, htick, ht, hbatch⟩ :=
      drainSlots_spec step w (w.globalTick + 1) expired h.linked h.shaped h.timed (by omega)
    refine ⟨w', keys, by rw [hslots]; exact hrun, hlinked, hshape, htick, ?_,
      hbatch.mono (by omega) (by omega)⟩
    exact ht.relax (fun t hlo hhi => by omega) _

/-- A step of `advance` delivers what falls due in it. -/
theorem advanceStep_spec (h : Inv w) {step : Nat} (hpos : 0 < step)
    (hstep : step ≤ w.l1TickRatio - w.globalTick % w.l1TickRatio)
    (hfit : w.globalTick + step < 2 ^ 64) (expired : List T) :
    ∃ w' keys, advanceStep w step expired = some (w', expired ++ w.pending.items keys) ∧
      Inv w' ∧ SameShape w w' ∧ w'.globalTick = w.globalTick + step ∧
      Batch w.pending w'.pending w.globalTick (w.globalTick + step) keys := by
  obtain ⟨w₁, keys₁, hrun₁, hlinked₁, hshape₁, htick₁, ht₁, hbatch₁⟩ :=
    drainStep_spec h hpos hstep hfit expired
  have hmoved : SameShape w { w₁ with globalTick := w.globalTick + step } :=
    ⟨hshape₁.mask, hshape₁.slotCount, hshape₁.capacity, hshape₁.ratio, hshape₁.tick⟩
  rw [← hmoved.slotCount .l0] at ht₁
  have hl1 := div_add_step hpos hstep
  rw [← hmoved.ratio] at hl1
  obtain ⟨w₂, keys₂, hrun₂, hlinked₂, hshape₂, htick₂, ht₂, hbatch₂⟩ := cascade_spec
    (w := { w₁ with globalTick := w.globalTick + step }) (hlinked₁.of_tick _)
    (h.shaped.of_sameShape hmoved) ht₁ (by
      rw [← hmoved.ratio]
      split
      · rename_i hmul
        rw [if_pos hmul] at hl1
        exact hl1.symm
      · rename_i hmul
        rw [if_neg hmul] at hl1
        exact congrArg (· + 1) hl1.symm) (expired ++ w.pending.items keys₁)
  refine ⟨w₂, keys₁ ++ keys₂, ?_, ⟨hlinked₂, ?_, ?_, ?_⟩, hmoved.trans hshape₂, htick₂, ?_⟩
  · unfold advanceStep
    rw [hrun₁, Option.bind_some, htick₁, wrappingAdd_of_lt hfit]
    rw [hrun₂, List.append_assoc]
    exact congrArg (fun items => some (w₂, expired ++ items)) (hbatch₁.items_append hbatch₂)
  · exact h.shaped.of_sameShape (hmoved.trans hshape₂)
  · rw [htick₂, hshape₂.slotCount .l0, hshape₂.ratio]
    exact ht₂
  · rw [htick₂]
    exact hfit
  · exact hbatch₁.trans hbatch₂ (Nat.le_refl _) (Nat.le_add_right _ _) (Nat.le_refl _)

/-- The loop of `advance` returns after `remaining` ticks, whatever its steps. -/
theorem advanceLoop_spec (fuel : Nat) (w : Wheel S) (remaining : Nat) (expired : List T)
    (h : Inv w) (hfuel : remaining ≤ fuel) (hfit : w.globalTick + remaining < 2 ^ 64) :
    ∃ w' keys, advanceLoop fuel w remaining expired =
        some (w', expired ++ w.pending.items keys) ∧
      Inv w' ∧ SameShape w w' ∧ w'.globalTick = w.globalTick + remaining ∧
      Batch w.pending w'.pending w.globalTick (w.globalTick + remaining) keys := by
  induction fuel generalizing w remaining expired with
  | zero =>
    have hzero : remaining = 0 := by omega
    subst hzero
    refine ⟨w, [], ?_, h, SameShape.refl w, rfl, Batch.refl _ _ _⟩
    simp [advanceLoop, Agenda.items]
  | succ fuel ih =>
    cases remaining with
    | zero =>
      refine ⟨w, [], ?_, h, SameShape.refl w, rfl, Batch.refl _ _ _⟩
      simp [advanceLoop, Agenda.items]
    | succ remaining =>
      have hratio := h.shaped.ratio_pos
      have hmod : w.globalTick % w.l1TickRatio < w.l1TickRatio := Nat.mod_lt _ hratio
      have hlen : w.stepLength (remaining + 1) ≤ remaining + 1 := Nat.min_le_left _ _
      have hlen' : w.stepLength (remaining + 1) ≤
          w.l1TickRatio - w.globalTick % w.l1TickRatio := Nat.min_le_right _ _
      have hpos : 0 < w.stepLength (remaining + 1) := by
        unfold stepLength
        omega
      obtain ⟨w₁, keys₁, hrun₁, hinv₁, hshape₁, htick₁, hbatch₁⟩ :=
        advanceStep_spec h hpos hlen' (by omega) expired
      obtain ⟨w₂, keys₂, hrun₂, hinv₂, hshape₂, htick₂, hbatch₂⟩ :=
        ih w₁ (remaining + 1 - w.stepLength (remaining + 1)) (expired ++ w.pending.items keys₁)
          hinv₁ (by omega) (by rw [htick₁]; omega)
      have hsum : w₁.globalTick + (remaining + 1 - w.stepLength (remaining + 1)) =
          w.globalTick + (remaining + 1) := by
        rw [htick₁]
        omega
      rw [hsum] at htick₂ hbatch₂
      refine ⟨w₂, keys₁ ++ keys₂, ?_, hinv₂, hshape₁.trans hshape₂, htick₂, ?_⟩
      · rw [advanceLoop, if_neg (by omega), hrun₁, Option.bind_some, hrun₂, List.append_assoc,
          hbatch₁.items_append hbatch₂]
      · exact hbatch₁.trans hbatch₂ (by omega) (by omega) (by omega)

/-! ## The operations of the wheel -/

/-- What is pending between operations is due later. -/
theorem Inv.lt_of_dueAt (h : Inv w) {t : Nat} (hk : w.pending.DueAt k t) : w.globalTick < t := by
  obtain ⟨entry, hget, _, rfl⟩ := entry_of_dueAt hk
  cases hlevel : entry.level with
  | l0 => exact (h.timed.l0 k entry hget (List.not_mem_nil) hlevel).1
  | l1 =>
    have hlater := h.timed.l1 k entry hget (List.not_mem_nil) hlevel
    have hlt : w.globalTick / w.l1TickRatio < entry.deadline / w.l1TickRatio := hlater
    exact Nat.lt_of_div_lt_div hlt

/-- `advance` returns and delivers exactly what is due. -/
theorem advance_spec (h : Inv w) (elapsed : Duration)
    (hfit : w.globalTick + w.delayToTicks elapsed < 2 ^ 64) (expired : List T) :
    ∃ w' keys, w.advance elapsed expired = some (w', expired ++ w.pending.items keys) ∧
      Inv w' ∧ SameShape w w' ∧ w'.globalTick = w.globalTick + w.delayToTicks elapsed ∧
      Batch w.pending w'.pending w.globalTick w'.globalTick keys ∧
      w'.pending = w.pending.after w'.globalTick := by
  obtain ⟨w', keys, hrun, hinv, hshape, htick, hbatch⟩ :=
    advanceLoop_spec _ w (w.delayToTicks elapsed) expired h (Nat.le_refl _) hfit
  rw [← htick] at hbatch
  exact ⟨w', keys, hrun, hinv, hshape, htick, hbatch,
    hbatch.eq_after fun k t hk => hinv.lt_of_dueAt hk⟩

/-- `insert` returns and adds one pending item. -/
theorem insert_spec (h : Inv w) (item : T) (delay : Duration)
    (hfit : w.globalTick + max (w.delayToTicks delay) 1 < 2 ^ 64) :
    ∃ w' k, w.insert item delay = some (w', k) ∧ Inv w' ∧ SameShape w w' ∧
      w'.globalTick = w.globalTick ∧ w.pending k = none ∧
      w'.pending = w.pending.add k item (w.globalTick + max (w.delayToTicks delay) 1) := by
  set deadline := w.globalTick + max (w.delayToTicks delay) 1 with hdeadline
  obtain ⟨level, hloc, hnear, hfar⟩ := determineLocation_spec h.shaped
    (show w.globalTick ≤ deadline by omega) hfit
  set entry : WheelEntry Key T :=
    { item := some item, deadline := deadline, next := none, level := level,
      slotIndex := w.slotOf level deadline % 2 ^ 32 } with hentry
  set stored := S.insert w.tasks entry with hstored
  have hget : S.get stored.1 stored.2 = some entry := by
    rw [hstored, S.get_insert, if_pos rfl]
  have hother : ∀ j, j ≠ stored.2 → S.get stored.1 j = S.get w.tasks j := by
    intro j hj
    rw [hstored, S.get_insert, if_neg hj]
  have hdetached : Linked { w with tasks := stored.1 } (some stored.2) [stored.2] :=
    h.linked.store rfl
  have htimed : Timed { w with tasks := stored.1 } (w.globalTick + 1)
      (w.globalTick + (w.levels .l0).slotCount) (w.globalTick / w.l1TickRatio + 1) [stored.2] := by
    refine ⟨?_, ?_, ?_⟩
    · intro j e he hnot
      rw [hother j (by simpa using hnot)] at he
      exact h.timed.l0 j e he (List.not_mem_nil)
    · intro j e he hnot
      rw [hother j (by simpa using hnot)] at he
      exact h.timed.l1 j e he (List.not_mem_nil)
    · intro j e he
      by_cases hj : j = stored.2
      · subst hj
        rw [hget] at he
        cases he
        exact hfit
      · rw [hother j hj] at he
        exact h.timed.bound j e he
  have hshaped : WellShaped { w with tasks := stored.1 } :=
    h.shaped.of_sameShape (SameShape.of_tasks w stored.1)
  have hshape : SameShape w (link { w with tasks := stored.1 } stored.2 level
      (w.slotOf level deadline)) :=
    (SameShape.of_tasks w stored.1).trans (SameShape.link _ stored.2 level _)
  refine ⟨link { w with tasks := stored.1 } stored.2 level (w.slotOf level deadline), stored.2, ?_,
    ⟨?_, h.shaped.of_sameShape hshape, ?_, h.tick⟩, hshape, rfl, ?_, ?_⟩
  · unfold insert
    simp only [wrappingAdd_of_lt hfit, ← hdeadline, hloc]
    rfl
  · exact hdetached.link hget rfl
  · rw [hshape.slotCount .l0, hshape.ratio]
    exact htimed.link hshaped hget (show w.globalTick < deadline by omega) hnear hfar _
  · rw [pending, show S.get w.tasks stored.2 = none from S.get_key w.tasks entry]
    rfl
  · rw [pending_link]
    funext j
    unfold Agenda.add
    split
    · rename_i hj
      subst hj
      exact pending_of_get (w := { w with tasks := stored.1 }) hget
    · rename_i hj
      show pending { w with tasks := stored.1 } j = w.pending j
      exact pending_congr (hother j hj)

/-- Whatever its delay, an inserted item is stored, and nothing else changes. -/
theorem insert_stored (w : Wheel S) (hratio : w.l1TickRatio ≠ 0) (item : T) (delay : Duration) :
    ∃ w' k due, w.insert item delay = some (w', k) ∧ w'.l1TickRatio = w.l1TickRatio ∧
      w'.tickDurationMs = w.tickDurationMs ∧ w'.globalTick = w.globalTick ∧
      w.pending k = none ∧ w'.pending = w.pending.add k item due := by
  set due := wrappingAdd w.globalTick (max (w.delayToTicks delay) 1) with hdue
  obtain ⟨location, hloc⟩ : ∃ location, w.determineLocation due = some location := by
    unfold determineLocation
    simp only [hratio, if_false]
    split
    · exact ⟨_, rfl⟩
    · exact ⟨_, rfl⟩
  set entry : WheelEntry Key T :=
    { item := some item, deadline := due, next := none, level := location.1,
      slotIndex := location.2 % 2 ^ 32 } with hentry
  refine ⟨link { w with tasks := (S.insert w.tasks entry).1 } (S.insert w.tasks entry).2 location.1
    location.2, (S.insert w.tasks entry).2, due, ?_, rfl, rfl, rfl, ?_, ?_⟩
  · unfold insert
    simp only [← hdue, hloc]
    rfl
  · rw [pending, S.get_key w.tasks entry]
    rfl
  · rw [pending_link]
    funext j
    unfold pending Agenda.add
    rw [S.get_insert]
    split <;> rfl

/-- `cancel` drops one pending item and returns it. -/
theorem cancel_pending (w : Wheel S) (k : Key) :
    (w.cancel k).2 = (w.pending k).map Prod.fst ∧ (w.cancel k).1.pending = w.pending.drop k := by
  constructor
  · show (S.get w.tasks k).bind WheelEntry.item = (w.pending k).map Prod.fst
    unfold pending
    cases S.get w.tasks k with
    | none => rfl
    | some e => cases hitem : e.item <;> simp [hitem]
  · funext j
    unfold Agenda.drop pending
    rw [show (w.cancel k).1.tasks = S.modify w.tasks k _ from rfl, S.get_modify]
    split
    · rename_i hj
      subst hj
      cases S.get w.tasks j <;> rfl
    · rfl

/-- `cancel` keeps the links and the times. -/
theorem cancel_spec (h : Inv w) (k : Key) :
    Inv (w.cancel k).1 ∧ SameShape w (w.cancel k).1 ∧
      (w.cancel k).1.globalTick = w.globalTick ∧ (w.cancel k).2 = (w.pending k).map Prod.fst ∧
      (w.cancel k).1.pending = w.pending.drop k := by
  have hshape : SameShape w (w.cancel k).1 := SameShape.of_tasks w _
  have hgets : ∀ j e, S.get (w.cancel k).1.tasks j = some e →
      ∃ e', S.get w.tasks j = some e' ∧ e.deadline = e'.deadline ∧ e.level = e'.level := by
    intro j e he
    rw [show (w.cancel k).1.tasks = S.modify w.tasks k _ from rfl, S.get_modify] at he
    split at he
    · rename_i hj
      subst hj
      obtain ⟨e', he', rfl⟩ := Option.map_eq_some_iff.mp he
      exact ⟨e', he', rfl, rfl⟩
    · exact ⟨e, he, rfl, rfl⟩
  refine ⟨⟨?_, h.shaped.of_sameShape hshape, ⟨?_, ?_, ?_⟩, h.tick⟩, hshape, rfl,
    cancel_pending w k⟩
  · exact h.linked.modify _ fun e => ⟨rfl, rfl, rfl⟩
  · intro j e he hnot hlevel
    obtain ⟨e', he', hdead, hl⟩ := hgets j e he
    rw [hdead]
    exact h.timed.l0 j e' he' hnot (hl ▸ hlevel)
  · intro j e he hnot hlevel
    obtain ⟨e', he', hdead, hl⟩ := hgets j e he
    rw [hdead]
    exact h.timed.l1 j e' he' hnot (hl ▸ hlevel)
  · intro j e he
    obtain ⟨e', he', hdead, _⟩ := hgets j e he
    rw [hdead]
    exact h.timed.bound j e' he'

/-! ## Runs -/

/-- How many ticks of `L0` make one tick of `L1`. -/
def ratioOf (config : WheelConfig) : Nat :=
  asU64 config.l1TickDuration.asMillis / max (asU64 config.l0TickDuration.asMillis) 1

/-- Slot counts are powers of two that fit a `usize`, and a tick of `L1` is one to
`l0_slot_count` ticks of `L0`. -/
structure ValidConfig (config : WheelConfig) : Prop where
  l0SlotCount : ∃ a, a ≤ 63 ∧ config.l0SlotCount = 2 ^ a
  l1SlotCount : ∃ a, a ≤ 63 ∧ config.l1SlotCount = 2 ^ a
  ratio_pos : 1 ≤ ratioOf config
  ratio_le : ratioOf config ≤ config.l0SlotCount

/-- The tick at which an item inserted now is due: `floor(delay / tick)` ticks
ahead, and at least one. -/
def deadlineOf (w : Wheel S) (delay : Duration) : Nat :=
  w.globalTick + max (delay / w.tickDuration) 1

/-- The tick count after an elapsed time has passed. -/
def tickAfter (w : Wheel S) (elapsed : Duration) : Nat :=
  w.globalTick + elapsed / w.tickDuration

/-- The states of a wheel, with the agenda of the items that were inserted, never
cancelled and not delivered yet.  Times are such that no tick count leaves the
64 bits. -/
inductive Reachable (S : SlotMap Key (WheelEntry Key T)) (config : WheelConfig) :
    Wheel S → Agenda Key T → Prop where
  | new : Reachable S config (Wheel.new S config) Agenda.empty
  | insert {w w' : Wheel S} {agenda : Agenda Key T} {k : Key} (item : T) (delay : Duration) :
      Reachable S config w agenda → delay.asMillis < 2 ^ 64 → w.deadlineOf delay < 2 ^ 64 →
      w.insert item delay = some (w', k) →
      Reachable S config w' (agenda.add k item (w.deadlineOf delay))
  | cancel {w : Wheel S} {agenda : Agenda Key T} (k : Key) :
      Reachable S config w agenda → Reachable S config (w.cancel k).1 (agenda.drop k)
  | advance {w w' : Wheel S} {agenda : Agenda Key T} {expired expired' : List T}
      (elapsed : Duration) :
      Reachable S config w agenda → elapsed.asMillis < 2 ^ 64 → w.tickAfter elapsed < 2 ^ 64 →
      w.advance elapsed expired = some (w', expired') →
      Reachable S config w' (agenda.after (w.tickAfter elapsed))

/-- The whole ticks of a duration, whichever way they are counted. -/
theorem delayToTicks_eq (w : Wheel S) {delay : Duration} (h : delay.asMillis < 2 ^ 64) :
    w.delayToTicks delay = delay / w.tickDuration := by
  unfold delayToTicks tickDuration Duration.fromMillis
  rw [asU64_of_lt h]
  unfold Duration.asMillis
  rw [Nat.div_div_eq_div_mul, Nat.mul_comm]

theorem inv_new (S : SlotMap Key (WheelEntry Key T)) {config : WheelConfig}
    (h : ValidConfig config) : Inv (Wheel.new S config) := by
  refine ⟨Linked.new S config, ⟨?_, ?_, rfl, h.ratio_pos, h.ratio_le, Nat.le_max_right _ _⟩,
    ⟨?_, ?_, ?_⟩, Nat.two_pow_pos 64⟩
  · intro level
    cases level with
    | l0 => exact h.l0SlotCount
    | l1 => exact h.l1SlotCount
  · intro level
    cases level <;> rfl
  all_goals
    intro k entry hget
    rw [show S.get (Wheel.new S config).tasks k = none from S.get_new k] at hget
    exact absurd hget (by simp)

/-- Along every run the wheel keeps its invariant, and its pending items are those
of the agenda. -/
theorem Reachable.inv {config : WheelConfig} {agenda : Agenda Key T} (hc : ValidConfig config)
    (h : Reachable S config w agenda) : Inv w ∧ w.pending = agenda := by
  induction h with
  | new =>
    refine ⟨inv_new S hc, ?_⟩
    funext k
    rw [pending, show S.get (Wheel.new S config).tasks k = none from S.get_new k]
    rfl
  | insert item delay _ hdelay hfit hrun ih =>
    obtain ⟨hinv, rfl⟩ := ih
    unfold deadlineOf at hfit
    rw [← delayToTicks_eq _ hdelay] at hfit
    obtain ⟨w₁, k₁, hrun₁, hinv₁, _, _, _, hpending⟩ := insert_spec hinv item delay hfit
    rw [hrun] at hrun₁
    cases hrun₁
    refine ⟨hinv₁, ?_⟩
    rw [hpending, deadlineOf, delayToTicks_eq _ hdelay]
  | cancel k _ ih =>
    obtain ⟨hinv, rfl⟩ := ih
    obtain ⟨hinv₁, _, _, _, hpending⟩ := cancel_spec hinv k
    exact ⟨hinv₁, hpending⟩
  | @advance w w' agenda expired expired' elapsed _ helapsed hfit hrun ih =>
    obtain ⟨hinv, rfl⟩ := ih
    unfold tickAfter at hfit
    rw [← delayToTicks_eq _ helapsed] at hfit
    obtain ⟨w₁, keys, hrun₁, hinv₁, _, htick, _, hpending⟩ := advance_spec hinv elapsed hfit expired
    rw [hrun] at hrun₁
    cases hrun₁
    refine ⟨hinv₁, ?_⟩
    rw [hpending, htick, tickAfter, delayToTicks_eq _ helapsed]

/-- No operation changes the duration of a tick. -/
theorem Reachable.tickDurationMs_eq {config : WheelConfig} {agenda : Agenda Key T}
    (hc : ValidConfig config) (h : Reachable S config w agenda) :
    w.tickDurationMs = (Wheel.new S config).tickDurationMs := by
  induction h with
  | new => rfl
  | insert item delay hw hdelay hfit hrun ih =>
    obtain ⟨hinv, rfl⟩ := hw.inv hc
    unfold deadlineOf at hfit
    rw [← delayToTicks_eq _ hdelay] at hfit
    obtain ⟨w₁, k₁, hrun₁, _, hshape, _⟩ := insert_spec hinv item delay hfit
    rw [hrun] at hrun₁
    cases hrun₁
    exact hshape.tick.trans ih
  | cancel k _ ih => exact ih
  | @advance w w' agenda expired expired' elapsed hw helapsed hfit hrun ih =>
    obtain ⟨hinv, rfl⟩ := hw.inv hc
    unfold tickAfter at hfit
    rw [← delayToTicks_eq _ helapsed] at hfit
    obtain ⟨w₁, keys, hrun₁, _, hshape, _⟩ := advance_spec hinv elapsed hfit expired
    rw [hrun] at hrun₁
    cases hrun₁
    exact hshape.tick.trans ih

/-- An `advance` with an empty buffer: the run goes on, and the buffer holds what was
due. -/
theorem Reachable.advance_due {config : WheelConfig} {agenda : Agenda Key T}
    (hc : ValidConfig config) (h : Reachable S config w agenda) {elapsed : Duration}
    (helapsed : elapsed.asMillis < 2 ^ 64) (hfit : w.tickAfter elapsed < 2 ^ 64) :
    ∃ w' expired, w.advance elapsed [] = some (w', expired) ∧
      Reachable S config w' (agenda.after (w.tickAfter elapsed)) ∧
      w'.globalTick = w.tickAfter elapsed ∧
      ∀ item, item ∈ expired ↔ ∃ k due, agenda k = some (item, due) ∧
        due ≤ w.tickAfter elapsed := by
  obtain ⟨hinv, hpending⟩ := h.inv hc
  have hafter : w.tickAfter elapsed = w.globalTick + w.delayToTicks elapsed := by
    rw [tickAfter, delayToTicks_eq _ helapsed]
  obtain ⟨w', keys, hrun, hinv', _, htick, hbatch, _⟩ :=
    advance_spec hinv elapsed (by rw [← hafter]; exact hfit) []
  rw [← hafter] at htick
  rw [hpending] at hrun hbatch
  refine ⟨w', agenda.items keys, hrun, Reachable.advance _ h helapsed hfit hrun, htick, ?_⟩
  have hmem := hbatch.mem_iff fun k t hk => hinv'.lt_of_dueAt hk
  intro item
  unfold Agenda.items
  rw [List.mem_filterMap, ← htick]
  constructor
  · rintro ⟨k, hk, hitem⟩
    obtain ⟨t, ⟨item', hitem'⟩, hle⟩ := (hmem k).mp hk
    rw [hitem'] at hitem
    cases hitem
    exact ⟨k, t, hitem', hle⟩
  · rintro ⟨k, due, hk, hle⟩
    exact ⟨k, (hmem k).mpr ⟨due, ⟨item, hk⟩, hle⟩, by rw [hk]; rfl⟩

/-- Four slots of one millisecond below two slots of two milliseconds. -/
def smallConfig : WheelConfig :=
  { l0TickDuration := Duration.fromMillis 1
    l0SlotCount := 4
    l1TickDuration := Duration.fromMillis 2
    l1SlotCount := 2 }

theorem validConfig_smallConfig : ValidConfig smallConfig :=
  ⟨⟨2, by decide, rfl⟩, ⟨1, by decide, rfl⟩, by decide +kernel, by decide +kernel⟩

end Veloq.Timing.Wheel
