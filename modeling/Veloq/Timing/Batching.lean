import Veloq.Timing.Conservation
import Veloq.Timing.Fate
set_option autoImplicit false

/-!
# Timing: many ticks at once

`advance` takes the ticks up to the next multiple of the ratio in one step.  Here it is
compared with as many calls by one tick each.  Both treat every entry as `Gauge.leaps`
and `Gauge.ticks` say, so where the two ways lead to different wheels is a matter of
single entries.  While no step passes the end of the 64 bits even the order of the lists
is the same.
-/

namespace Veloq.Timing.Wheel

open Veloq.Foundation

variable {Key T : Type} [DecidableEq Key] {S : SlotMap Key (WheelEntry Key T)}
  {a b w w' w'' : Wheel S} {k : Key} {entry : WheelEntry Key T} {detached : List Key}

/-- A stored entry without its successor. -/
def held (w : Wheel S) (k : Key) : Option (Held T) :=
  (S.get w.tasks k).map fun entry => ⟨entry.item, entry.deadline, entry.level⟩

def gauge (w : Wheel S) : Gauge :=
  ⟨(w.levels .l0).slotCount, (w.levels .l1).slotCount, w.l1TickRatio⟩

/-- The fields that no operation changes fit each other. -/
structure Shaped (w : Wheel S) : Prop where
  gauge : w.gauge.Valid
  mask : ∀ level, (w.levels level).mask = (w.levels level).slotCount - 1
  capacity : w.l0CapacityTicks = (w.levels .l0).slotCount
  tick_pos : 1 ≤ w.tickDurationMs
  tick_lt : w.tickDurationMs < 2 ^ 64

theorem SameShape.gauge (h : SameShape w w') : w'.gauge = w.gauge := by
  unfold Wheel.gauge
  rw [h.slotCount, h.slotCount, h.ratio]

namespace Shaped

theorem of_sameShape (h : Shaped w) (hs : SameShape w w') : Shaped w' where
  gauge := by rw [hs.gauge]; exact h.gauge
  mask := fun level => by rw [hs.mask, hs.slotCount]; exact h.mask level
  capacity := by rw [hs.capacity, hs.slotCount]; exact h.capacity
  tick_pos := by rw [hs.tick]; exact h.tick_pos
  tick_lt := by rw [hs.tick]; exact h.tick_lt

theorem and_mask (h : Shaped w) (level : LevelIdx) (n : Nat) :
    n &&& (w.levels level).mask = n % (w.levels level).slotCount := by
  obtain ⟨e, -, he⟩ : ∃ e, e ≤ 63 ∧ (w.levels level).slotCount = 2 ^ e := by
    cases level with
    | l0 => exact h.gauge.l0
    | l1 => exact h.gauge.l1
  rw [h.mask, he, Nat.and_two_pow_sub_one_eq_mod]

theorem slotOf_l0 (h : Shaped w) (deadline : Nat) :
    w.slotOf .l0 deadline = deadline % w.gauge.l0 :=
  h.and_mask .l0 deadline

theorem slotOf_l1 (h : Shaped w) (deadline : Nat) :
    w.slotOf .l1 deadline = deadline / w.gauge.ratio % w.gauge.l1 :=
  h.and_mask .l1 _

theorem ratio_ne_zero (h : Shaped w) : w.l1TickRatio ≠ 0 :=
  Nat.pos_iff_ne_zero.mp h.gauge.ratio

/-- The slots of a step, as an entry sees them. -/
theorem stepSlots_eq (h : Shaped w) (step : Nat) :
    w.stepSlots step = w.gauge.passed w.globalTick step := by
  unfold stepSlots Gauge.passed
  rw [h.capacity]
  refine if_congr Iff.rfl rfl (List.map_congr_left fun i _ => ?_)
  exact h.and_mask .l0 _

end Shaped

theorem held_of_get (h : S.get w.tasks k = some entry) :
    w.held k = some ⟨entry.item, entry.deadline, entry.level⟩ := by
  rw [held, h]
  rfl

theorem held_congr (h : S.get w'.tasks k = S.get w.tasks k) : w'.held k = w.held k := by
  rw [held, held, h]

/-- Where an entry is filed can be seen from what is held of it. -/
theorem filed_iff_held {level : LevelIdx} {idx : Nat} :
    w.Filed k level idx ↔
      ∃ e, w.held k = some e ∧ e.level = level ∧ w.slotOf level e.deadline = idx := by
  unfold Filed held
  constructor
  · rintro ⟨entry, hget, hlevel, hidx⟩
    exact ⟨_, by rw [hget]; rfl, hlevel, hidx⟩
  · rintro ⟨e, he, hlevel, hidx⟩
    obtain ⟨entry, hget, rfl⟩ := Option.map_eq_some_iff.mp he
    exact ⟨entry, hget, hlevel, hidx⟩

theorem pending_of_held (w : Wheel S) (k : Key) :
    w.pending k = (w.held k).bind fun e => e.item.map fun item => (item, e.deadline) := by
  unfold pending held
  cases S.get w.tasks k <;> rfl

/-! ## Emptied slots of `L0` -/

/-- The slots of `L0` in `passed` have been emptied, and nothing else has changed. -/
structure Drained (passed : Nat → Prop) (w w' : Wheel S) : Prop where
  shape : SameShape w w'
  emptied : ∀ idx, passed idx → (w'.levels .l0).slots idx = none
  kept : ∀ level idx, (level = .l0 → ¬ passed idx) →
    (w'.levels level).slots idx = (w.levels level).slots idx
  gone : ∀ k idx, passed idx → w.Filed k .l0 idx → S.get w'.tasks k = none
  rest : ∀ k, (∀ idx, passed idx → ¬ w.Filed k .l0 idx) → S.get w'.tasks k = S.get w.tasks k

namespace Drained

variable {passed passed' : Nat → Prop}

theorem congr (h : Drained passed w w') (hiff : ∀ idx, passed' idx ↔ passed idx) :
    Drained passed' w w' := by
  obtain rfl : passed' = passed := funext fun idx => propext (hiff idx)
  exact h

theorem slotOf_eq (h : SameShape w w') : w'.slotOf = w.slotOf := by
  funext level deadline
  cases level with
  | l0 => exact congrArg (deadline &&& ·) (h.mask .l0)
  | l1 =>
    show deadline / w'.l1TickRatio &&& (w'.levels .l1).mask =
      deadline / w.l1TickRatio &&& (w.levels .l1).mask
    rw [h.mask, h.ratio]

/-- An entry is filed after a step only where it was filed before. -/
theorem filed_of_filed (h : Drained passed w w') {level : LevelIdx} {idx : Nat}
    (hfiled : w'.Filed k level idx) :
    w.Filed k level idx ∧ ∀ i, passed i → ¬ w.Filed k .l0 i := by
  obtain ⟨entry, hget, hlevel, hidx⟩ := hfiled
  have hnot : ∀ i, passed i → ¬ w.Filed k .l0 i := by
    intro i hi hin
    rw [h.gone k i hi hin] at hget
    cases hget
  rw [h.rest k hnot] at hget
  rw [slotOf_eq h.shape] at hidx
  exact ⟨⟨entry, hget, hlevel, hidx⟩, hnot⟩

theorem filed_of_kept (h : Drained passed w w') {level : LevelIdx} {idx : Nat}
    (hfiled : w.Filed k level idx) (hnot : ∀ i, passed i → ¬ w.Filed k .l0 i) :
    w'.Filed k level idx := by
  obtain ⟨entry, hget, hlevel, hidx⟩ := hfiled
  exact ⟨entry, (h.rest k hnot).trans hget, hlevel, by rw [slotOf_eq h.shape]; exact hidx⟩

theorem refl (w : Wheel S) : Drained (fun _ => False) w w :=
  ⟨SameShape.refl w, fun _ h => h.elim, fun _ _ _ => rfl, fun _ _ h => h.elim, fun _ _ => rfl⟩

theorem trans (h : Drained passed w w') (h' : Drained passed' w' w'') :
    Drained (fun idx => passed idx ∨ passed' idx) w w'' where
  shape := h.shape.trans h'.shape
  emptied := by
    intro idx hidx
    by_cases hlast : passed' idx
    · exact h'.emptied idx hlast
    · rw [h'.kept .l0 idx fun _ => hlast]
      exact h.emptied idx (hidx.resolve_right hlast)
  kept := by
    intro level idx hnot
    rw [h'.kept level idx fun hl hin => hnot hl (Or.inr hin),
      h.kept level idx fun hl hin => hnot hl (Or.inl hin)]
  gone := by
    intro k idx hidx hfiled
    by_cases hleft : ∃ i, passed i ∧ w.Filed k .l0 i
    · obtain ⟨i, hi, hin⟩ := hleft
      have hnone := h.gone k i hi hin
      rw [h'.rest k, hnone]
      rintro j - ⟨entry, hget, -⟩
      rw [hnone] at hget
      cases hget
    · have hnot : ∀ i, passed i → ¬ w.Filed k .l0 i := fun i hi hin => hleft ⟨i, hi, hin⟩
      exact h'.gone k idx (hidx.resolve_left fun hi => hnot idx hi hfiled)
        (h.filed_of_kept hfiled hnot)
  rest := by
    intro k hnot
    rw [h'.rest k, h.rest k fun i hi => hnot i (Or.inl hi)]
    exact fun i hi hin => hnot i (Or.inr hi) (h.filed_of_filed hin).1

/-- The count may go on. -/
theorem of_tick (h : Drained passed w w') (tick : Nat) :
    Drained passed w { w' with globalTick := tick } :=
  ⟨⟨h.shape.mask, h.shape.slotCount, h.shape.capacity, h.shape.ratio, h.shape.tick⟩,
    h.emptied, h.kept, h.gone, h.rest⟩

/-- What is held of an entry after its slot may have been emptied. -/
theorem held_eq (h : Drained passed w w') [DecidablePred passed] (k : Key) :
    w'.held k = (w.held k).bind fun e =>
      if e.level = .l0 ∧ passed (w.slotOf .l0 e.deadline) then none else some e := by
  cases hheld : w.held k with
  | none =>
    have hget : S.get w.tasks k = none := Option.map_eq_none_iff.mp hheld
    rw [held, h.rest k, hget]
    · rfl
    · rintro i - ⟨entry, hsome, -⟩
      rw [hget] at hsome
      cases hsome
  | some e =>
    rw [Option.bind_some]
    split
    · rename_i hgone
      rw [held, h.gone k _ hgone.2 (filed_iff_held.mpr ⟨e, hheld, hgone.1, rfl⟩)]
      rfl
    · rename_i hkept
      rw [held_congr (h.rest k ?_), hheld]
      rintro i hi hfiled
      obtain ⟨e', he', hlevel, hidx⟩ := filed_iff_held.mp hfiled
      cases hheld.symm.trans he'
      exact hkept ⟨hlevel, by rw [hidx]; exact hi⟩

end Drained

/-- One slot. -/
theorem drained_of_drainSlot {idx : Nat} {expired out : List T} (h : Linked w none [])
    (hrun : drainSlot w idx expired = some (w', out)) :
    Drained (· = idx) w w' ∧ Linked w' none [] ∧ w'.globalTick = w.globalTick := by
  obtain ⟨w₁, keys, hrun₁, hlinked, hshape, htick, -, hfiled, hget⟩ := drainSlot_spec h idx expired
  obtain ⟨rfl, -⟩ := Prod.mk.inj (Option.some.inj (hrun.symm.trans hrun₁))
  have hlevels : ∀ level i, (w'.levels level).slots i =
      if level = .l0 ∧ i = idx then none else (w.levels level).slots i := by
    intro level i
    unfold drainSlot at hrun
    cases hhead : (w.levels .l0).slots idx with
    | none =>
      rw [hhead] at hrun
      cases hrun
      split
      · rename_i hslot
        rw [hslot.1, hslot.2, hhead]
      · rfl
    | some head =>
      rw [hhead] at hrun
      obtain ⟨r, -, hr⟩ := Option.map_eq_some_iff.mp hrun
      cases hr
      exact setSlot_slots w .l0 idx none level i
  refine ⟨⟨hshape, ?_, ?_, ?_, ?_⟩, hlinked, htick⟩
  · rintro i rfl
    rw [hlevels, if_pos ⟨rfl, rfl⟩]
  · intro level i hnot
    rw [hlevels, if_neg fun hslot => hnot hslot.1 hslot.2]
  · rintro j i rfl hin
    rw [hget j, if_pos ((hfiled j).mpr hin)]
  · intro j hnot
    rw [hget j, if_neg fun hin => hnot idx rfl ((hfiled j).mp hin)]

theorem drained_of_drainSlots {idxs : List Nat} {expired out : List T} (h : Linked w none [])
    (hrun : drainSlots idxs w expired = some (w', out)) :
    Drained (· ∈ idxs) w w' ∧ Linked w' none [] ∧ w'.globalTick = w.globalTick := by
  induction idxs generalizing w expired with
  | nil =>
    cases hrun
    exact ⟨(Drained.refl _).congr fun idx => iff_of_false (List.not_mem_nil) id, h, rfl⟩
  | cons idx idxs ih =>
    obtain ⟨⟨w₁, out₁⟩, hfirst, hrest⟩ := Option.bind_eq_some_iff.mp hrun
    obtain ⟨hdrained₁, hlinked₁, htick₁⟩ := drained_of_drainSlot h hfirst
    obtain ⟨hdrained₂, hlinked₂, htick₂⟩ := ih hlinked₁ hrest
    exact ⟨(hdrained₁.trans hdrained₂).congr fun i => List.mem_cons, hlinked₂,
      htick₂.trans htick₁⟩

/-! ## The entries along the steps -/

/-- An entry of a list of `L1` is settled, the others are left alone. -/
theorem held_of_cascadeEntry {expired out : List T} (hs : Shaped w)
    (hget : S.get w.tasks k = some entry) (hlevel : entry.level = .l1)
    (hturn : w.gauge.Turn w.globalTick entry.deadline)
    (hrun : cascadeEntry w k entry expired = some (w', out)) :
    w'.globalTick = w.globalTick ∧ (∀ j, j ≠ k → S.get w'.tasks j = S.get w.tasks j) ∧
      w'.held k = (w.held k).bind (w.gauge.cascade w.globalTick) := by
  rw [held_of_get hget, Option.bind_some, Gauge.cascade_of_turn hlevel hturn]
  unfold cascadeEntry at hrun
  by_cases hitem : entry.item.isNone = true
  · rw [if_pos hitem] at hrun
    cases hrun
    refine ⟨rfl, fun j hj => get_remove_of_ne hj, ?_⟩
    rw [if_pos (Or.inl hitem), held, S.get_remove, if_pos rfl]
    rfl
  · rw [if_neg hitem] at hrun
    by_cases hnow : entry.deadline ≤ w.globalTick
    · rw [if_pos hnow] at hrun
      cases hrun
      refine ⟨rfl, fun j hj => get_remove_of_ne hj, ?_⟩
      rw [if_pos (Or.inr hnow), held, S.get_remove, if_pos rfl]
      rfl
    · rw [if_neg hnow] at hrun
      obtain ⟨location, hloc, hlink⟩ := Option.map_eq_some_iff.mp hrun
      cases hlink
      have hplace : location.1 =
          if wrappingSub entry.deadline w.globalTick < w.gauge.l0 then .l0 else .l1 := by
        unfold determineLocation at hloc
        simp only [hs.capacity, if_neg hs.ratio_ne_zero] at hloc
        show location.1 =
          if wrappingSub entry.deadline w.globalTick < (w.levels .l0).slotCount then .l0 else .l1
        split
        · rename_i hnear
          rw [if_pos hnear] at hloc
          cases hloc
          rfl
        · rename_i hfar
          rw [if_neg hfar] at hloc
          cases hloc
          rfl
      refine ⟨rfl, fun j hj => get_modify_of_ne _ hj, ?_⟩
      rw [if_neg (not_or.mpr ⟨hitem, hnow⟩), held,
        show (w.link k location.1 location.2).tasks = S.modify w.tasks k _ from rfl,
        S.get_modify, if_pos rfl, hget, ← hplace]
      rfl

theorem held_of_cascadeList {fuel : Nat} {current : Option Key} {expired out : List T}
    (h : Linked w current detached) (hs : Shaped w)
    (hturn : ∀ j ∈ detached, ∀ e, S.get w.tasks j = some e →
      e.level = .l1 ∧ w.gauge.Turn w.globalTick e.deadline)
    (hrun : cascadeList fuel w current expired = some (w', out)) :
    w'.globalTick = w.globalTick ∧
      ∀ j, w'.held j =
        if j ∈ detached then (w.held j).bind (w.gauge.cascade w.globalTick) else w.held j := by
  induction detached generalizing fuel w current expired with
  | nil =>
    cases current with
    | some key => exact absurd h.chain id
    | none =>
      cases fuel <;> cases hrun <;> exact ⟨rfl, fun j => by simp⟩
  | cons key tail ih =>
    cases current with
    | none => exact absurd h.chain id
    | some key' =>
      obtain ⟨entry, tail', hcons, hget⟩ := h.exists_entry
      cases hcons
      cases fuel with
      | zero => cases hrun
      | succ fuel =>
        have hnotin : key ∉ tail := (List.nodup_cons.mp h.nodup).1
        rw [cascadeList] at hrun
        simp only [hget] at hrun
        obtain ⟨⟨w₁, out₁⟩, hfirst, hrest⟩ := Option.bind_eq_some_iff.mp hrun
        obtain ⟨hlevel, hdue⟩ := hturn key (List.mem_cons_self ..) entry hget
        obtain ⟨htick₁, hother, hkey⟩ := held_of_cascadeEntry hs hget hlevel hdue hfirst
        obtain ⟨w₂, keys, hrun₂, hlinked, hshape, -⟩ :=
          cascadeEntry_linked h hs.ratio_ne_zero hget expired
        obtain ⟨rfl, -⟩ := Prod.mk.inj (Option.some.inj (hfirst.symm.trans hrun₂))
        have hne : ∀ j ∈ tail, j ≠ key := fun j hj hjk => hnotin (hjk ▸ hj)
        obtain ⟨htick, hheld⟩ := ih hlinked (hs.of_sameShape hshape) (by
          intro j hj e he
          rw [hother j (hne j hj)] at he
          rw [hshape.gauge, htick₁]
          exact hturn j (List.mem_cons_of_mem _ hj) e he) hrest
        refine ⟨htick.trans htick₁, fun j => ?_⟩
        rw [hheld j, hshape.gauge, htick₁]
        by_cases hj : j = key
        · subst hj
          rw [if_neg hnotin, if_pos (List.mem_cons_self ..), hkey]
        · rw [held_congr (hother j hj)]
          simp [hj]

/-- The cascade at the current tick. -/
theorem held_of_cascade {expired out : List T} (h : Linked w none []) (hs : Shaped w)
    (hrun : cascade w expired = some (w', out)) :
    w'.globalTick = w.globalTick ∧
      ∀ j, w'.held j = (w.held j).bind (w.gauge.cascade w.globalTick) := by
  have hstay : (∀ j e, w.held j = some e → e.level = .l1 →
      ¬ w.gauge.Turn w.globalTick e.deadline) →
      ∀ j, w.held j = (w.held j).bind (w.gauge.cascade w.globalTick) := by
    intro hnone j
    cases hheld : w.held j with
    | none => rfl
    | some e =>
      cases hlevel : e.level with
      | l0 => exact (Gauge.cascade_of_l0 hlevel).symm
      | l1 => exact (Gauge.cascade_of_not_turn (hnone j e hheld hlevel)).symm
  unfold cascade at hrun
  by_cases hmul : w.globalTick % w.l1TickRatio = 0
  · rw [if_pos hmul] at hrun
    have hidx : (w.globalTick / w.l1TickRatio) &&& (w.levels .l1).mask =
        w.globalTick / w.gauge.ratio % w.gauge.l1 := hs.and_mask .l1 _
    simp only [hidx] at hrun
    set idx := w.globalTick / w.gauge.ratio % w.gauge.l1
    obtain ⟨keys, htaken, hfiled⟩ := h.take .l1 idx
    -- the entries filed there are those whose turn it is
    have hkeys : ∀ j e, w.held j = some e →
        (j ∈ keys ↔ e.level = .l1 ∧ w.gauge.Turn w.globalTick e.deadline) := by
      intro j e he
      rw [hfiled j, filed_iff_held]
      constructor
      · rintro ⟨e', he', hlevel, hslot⟩
        cases he.symm.trans he'
        exact ⟨hlevel, hmul, (hs.slotOf_l1 _).symm.trans hslot⟩
      · rintro ⟨hlevel, -, hslot⟩
        exact ⟨e, he, hlevel, (hs.slotOf_l1 _).trans hslot⟩
    cases hhead : (w.levels .l1).slots idx with
    | none =>
      simp only [hhead] at hrun
      cases hrun
      rw [hhead] at htaken
      obtain rfl : keys = [] := Chain.nil_of_none htaken.chain
      refine ⟨rfl, hstay fun j e he hlevel hturn => ?_⟩
      exact List.not_mem_nil ((hkeys j e he).mpr ⟨hlevel, hturn⟩)
    | some head =>
      simp only [hhead] at hrun
      rw [hhead] at htaken
      have hshape := SameShape.setSlot w .l1 idx none
      obtain ⟨htick, hheld⟩ := held_of_cascadeList htaken (hs.of_sameShape hshape) (by
        intro j hj e he
        rw [hshape.gauge]
        exact (hkeys j _ (held_of_get he)).mp hj) hrun
      refine ⟨htick, fun j => ?_⟩
      rw [hheld j, hshape.gauge]
      show (if j ∈ keys then (w.held j).bind (w.gauge.cascade w.globalTick) else w.held j) = _
      cases hj : w.held j with
      | none => simp
      | some e =>
        split
        · rfl
        · rename_i hnot
          rw [Option.bind_some]
          cases hlevel : e.level with
          | l0 => exact (Gauge.cascade_of_l0 hlevel).symm
          | l1 =>
            refine (Gauge.cascade_of_not_turn fun hturn => ?_).symm
            exact hnot ((hkeys j e hj).mpr ⟨hlevel, hturn⟩)
  · rw [if_neg hmul] at hrun
    cases hrun
    exact ⟨rfl, hstay fun _ _ _ _ hturn => hmul hturn.1⟩

/-- One step of `advance`. -/
theorem held_of_advanceStep {step : Nat} {expired out : List T} (h : Linked w none [])
    (hs : Shaped w) (hrun : advanceStep w step expired = some (w', out)) :
    w'.globalTick = wrappingAdd w.globalTick step ∧
      ∀ j, w'.held j = (w.held j).bind (w.gauge.leap w.globalTick step) := by
  obtain ⟨⟨w₁, out₁⟩, hdrain, hcascade⟩ := Option.bind_eq_some_iff.mp hrun
  obtain ⟨hdrained, hlinked, htick₁⟩ := drained_of_drainSlots h hdrain
  set w₂ : Wheel S := { w₁ with globalTick := wrappingAdd w₁.globalTick step } with hw₂
  have hmoved := hdrained.of_tick (wrappingAdd w₁.globalTick step)
  obtain ⟨htick, hheld⟩ := held_of_cascade (hlinked.of_tick _) (hs.of_sameShape hmoved.shape)
    hcascade
  have hnow : w₂.globalTick = wrappingAdd w.globalTick step := by rw [hw₂, htick₁]
  refine ⟨htick.trans hnow, fun j => ?_⟩
  rw [hheld j, hmoved.held_eq j, hmoved.shape.gauge]
  show ((w.held j).bind _).bind (w.gauge.cascade w₂.globalTick) = _
  rw [hnow, Option.bind_assoc]
  refine congrArg _ (funext fun e => ?_)
  unfold Gauge.leap
  rw [hs.stepSlots_eq, hs.slotOf_l0]
  split <;> rfl

/-- A step keeps what the next one needs. -/
theorem linked_of_advanceStep {step : Nat} {expired out : List T} (h : Linked w none [])
    (hs : Shaped w) (hrun : advanceStep w step expired = some (w', out)) :
    Linked w' none [] ∧ Shaped w' ∧ w'.gauge = w.gauge := by
  obtain ⟨w₁, keys, hrun₁, hlinked, hshape, -⟩ :=
    advanceStep_linked h hs.ratio_ne_zero step expired
  obtain ⟨rfl, -⟩ := Prod.mk.inj (Option.some.inj (hrun.symm.trans hrun₁))
  exact ⟨hlinked, hs.of_sameShape hshape, hshape.gauge⟩

/-- The loop of `advance`. -/
theorem held_of_advanceLoop {fuel n : Nat} {expired out : List T} (h : Linked w none [])
    (hs : Shaped w) (ht : w.globalTick < 2 ^ 64)
    (hrun : advanceLoop fuel w n expired = some (w', out)) :
    w'.globalTick = wrappingAdd w.globalTick n ∧
      ∀ j, w'.held j = (w.held j).bind (w.gauge.leaps fuel w.globalTick n) := by
  induction fuel generalizing w n expired with
  | zero =>
    cases n with
    | succ n => cases hrun
    | zero =>
      cases hrun
      refine ⟨(Gauge.wrappingAdd_zero ht).symm, fun j => ?_⟩
      cases held w' j <;> rfl
  | succ fuel ih =>
    cases n with
    | zero =>
      cases hrun
      refine ⟨(Gauge.wrappingAdd_zero ht).symm, fun j => ?_⟩
      cases held w' j <;> rfl
    | succ n =>
      rw [advanceLoop, if_neg hs.ratio_ne_zero] at hrun
      obtain ⟨⟨w₁, out₁⟩, hstep, hrest⟩ := Option.bind_eq_some_iff.mp hrun
      obtain ⟨hlinked, hshaped, hgauge⟩ := linked_of_advanceStep h hs hstep
      obtain ⟨htick₁, hheld₁⟩ := held_of_advanceStep h hs hstep
      obtain ⟨htick, hheld⟩ := ih hlinked hshaped
        (by rw [htick₁]; exact wrappingAdd_lt _ _) hrest
      have hlength : w.stepLength (n + 1) = w.gauge.stride w.globalTick (n + 1) := rfl
      have hle : w.gauge.stride w.globalTick (n + 1) ≤ n + 1 := Nat.min_le_left _ _
      rw [hlength] at htick htick₁ hheld₁ hheld
      refine ⟨?_, fun j => ?_⟩
      · rw [htick, htick₁, Gauge.wrappingAdd_assoc, Nat.add_sub_cancel' hle]
      · rw [hheld j, hheld₁ j, hgauge, htick₁, Option.bind_assoc]
        rfl

/-! ## Single ticks -/

/-- `n` calls of `advance`, each by one tick. -/
def advanceTicks : Nat → Wheel S → List T → Option (Wheel S × List T)
  | 0, w, expired => some (w, expired)
  | n + 1, w, expired =>
      (w.advance w.tickDuration expired).bind fun r => advanceTicks n r.1 r.2

/-- The duration of a tick is one tick. -/
theorem delayToTicks_tickDuration (hs : Shaped w) : w.delayToTicks w.tickDuration = 1 := by
  rw [delayToTicks, tickDuration, Duration.asMillis, Duration.fromMillis,
    Nat.mul_div_cancel _ (Nat.pow_pos (by decide)), asU64_of_lt hs.tick_lt]
  exact Nat.div_self hs.tick_pos

theorem advance_tick (hs : Shaped w) (expired : List T) :
    w.advance w.tickDuration expired = advanceStep w 1 expired := by
  have hmod : w.globalTick % w.l1TickRatio < w.l1TickRatio := Nat.mod_lt _ hs.gauge.ratio
  have hlength : w.stepLength (0 + 1) = 1 := by
    unfold stepLength
    omega
  unfold advance
  simp only [delayToTicks_tickDuration hs]
  rw [advanceLoop, if_neg hs.ratio_ne_zero, hlength]
  cases advanceStep w 1 expired <;> rfl

/-- Single ticks return, and hand out what leaves the wheel. -/
theorem advanceTicks_linked (n : Nat) (w : Wheel S) (expired : List T) (h : Linked w none [])
    (hs : Shaped w) :
    ∃ w' keys, advanceTicks n w expired = some (w', expired ++ w.pending.items keys) ∧
      Linked w' none [] ∧ SameShape w w' ∧ Released w w' keys := by
  induction n generalizing w expired with
  | zero =>
    refine ⟨w, [], ?_, h, SameShape.refl w, Released.refl w⟩
    simp [advanceTicks, Agenda.items]
  | succ n ih =>
    obtain ⟨w₁, keys₁, hrun₁, hlinked₁, hshape₁, hreleased₁⟩ :=
      advanceStep_linked h hs.ratio_ne_zero 1 expired
    obtain ⟨w₂, keys₂, hrun₂, hlinked₂, hshape₂, hreleased₂⟩ :=
      ih w₁ (expired ++ w.pending.items keys₁) hlinked₁ (hs.of_sameShape hshape₁)
    refine ⟨w₂, keys₁ ++ keys₂, ?_, hlinked₂, hshape₁.trans hshape₂,
      hreleased₁.trans hreleased₂⟩
    rw [advanceTicks, advance_tick hs, hrun₁, Option.bind_some, hrun₂, List.append_assoc,
      hreleased₁.items_append hreleased₂]

theorem held_of_advanceTicks {n : Nat} {expired out : List T} (h : Linked w none [])
    (hs : Shaped w) (ht : w.globalTick < 2 ^ 64)
    (hrun : advanceTicks n w expired = some (w', out)) :
    w'.globalTick = wrappingAdd w.globalTick n ∧
      ∀ j, w'.held j = (w.held j).bind (w.gauge.ticks w.globalTick n) := by
  induction n generalizing w expired with
  | zero =>
    cases hrun
    refine ⟨(Gauge.wrappingAdd_zero ht).symm, fun j => ?_⟩
    cases held w' j <;> rfl
  | succ n ih =>
    rw [advanceTicks, advance_tick hs] at hrun
    obtain ⟨⟨w₁, out₁⟩, hstep, hrest⟩ := Option.bind_eq_some_iff.mp hrun
    obtain ⟨hlinked, hshaped, hgauge⟩ := linked_of_advanceStep h hs hstep
    obtain ⟨htick₁, hheld₁⟩ := held_of_advanceStep h hs hstep
    obtain ⟨htick, hheld⟩ := ih hlinked hshaped (by rw [htick₁]; exact wrappingAdd_lt _ _) hrest
    refine ⟨?_, fun j => ?_⟩
    · rw [htick, htick₁, Gauge.wrappingAdd_assoc, Nat.add_comm 1 n]
    · rw [hheld j, hheld₁ j, hgauge, htick₁, Option.bind_assoc]
      rfl

/-! ## Wheels with the same contents -/

/-- The same count, the same entries, and in every slot a list of the same entries. -/
structure SameContents (a b : Wheel S) : Prop where
  tick : a.globalTick = b.globalTick
  entries : ∀ k, a.held k = b.held k
  lists : ∀ level idx, ∃ keys keys', Chain (nextOf S a.tasks) ((a.levels level).slots idx) keys ∧
    Chain (nextOf S b.tasks) ((b.levels level).slots idx) keys' ∧ keys.Perm keys'

/-- Two well linked wheels of one shape have the same contents when they hold the same
entries. -/
theorem sameContents_of_held (ha : Linked a none []) (hb : Linked b none [])
    (hshape : SameShape a b) (htick : a.globalTick = b.globalTick)
    (hheld : ∀ k, a.held k = b.held k) : SameContents a b := by
  refine ⟨htick, hheld, fun level idx => ?_⟩
  obtain ⟨keys, hchain, hnodup, hmem⟩ := ha.slots level idx
  obtain ⟨keys', hchain', hnodup', hmem'⟩ := hb.slots level idx
  refine ⟨keys, keys', hchain, hchain', (List.perm_ext_iff_of_nodup hnodup hnodup').mpr ?_⟩
  intro k
  rw [hmem k, hmem' k]
  refine and_congr Iff.rfl ?_
  rw [filed_iff_held, filed_iff_held, hheld k, Drained.slotOf_eq hshape]

/-! ## Wheels that agree in every list -/

/-- The same lists, in the same order; only the slot maps may differ in their free keys. -/
structure Same (a b : Wheel S) : Prop where
  levels : ∀ level, a.levels level = b.levels level
  tick : a.globalTick = b.globalTick
  duration : a.tickDurationMs = b.tickDurationMs
  ratio : a.l1TickRatio = b.l1TickRatio
  capacity : a.l0CapacityTicks = b.l0CapacityTicks
  get : ∀ k, S.get a.tasks k = S.get b.tasks k

namespace Same

theorem sameShape (h : Same a b) : SameShape a b :=
  ⟨fun l => by rw [h.levels l], fun l => by rw [h.levels l], h.capacity.symm, h.ratio.symm,
    h.duration.symm⟩

theorem refl (w : Wheel S) : Same w w :=
  ⟨fun _ => rfl, rfl, rfl, rfl, rfl, fun _ => rfl⟩

theorem filed (h : Same a b) {level : LevelIdx} {idx : Nat} :
    a.Filed k level idx ↔ b.Filed k level idx := by
  unfold Filed
  rw [h.get k, Drained.slotOf_eq h.sameShape]

theorem linked (h : Same a b) {current : Option Key} (ha : Linked a current detached) :
    Linked b current detached := by
  have hnext : nextOf S a.tasks = nextOf S b.tasks := by
    funext k
    exact nextOf_congr (h.get k)
  refine ⟨fun level idx => ?_, ?_, ha.nodup⟩
  · obtain ⟨keys, hchain, hnodup, hmem⟩ := ha.slots level idx
    rw [hnext, h.levels] at hchain
    exact ⟨keys, hchain, hnodup, fun k => (hmem k).trans (and_congr Iff.rfl h.filed)⟩
  · rw [← hnext]
    exact ha.chain

theorem determineLocation_eq (h : Same a b) (deadline : Nat) :
    a.determineLocation deadline = b.determineLocation deadline := by
  unfold determineLocation
  rw [h.tick, h.capacity, h.ratio, h.levels, h.levels]

theorem setSlot (h : Same a b) (level : LevelIdx) (idx : Nat) (head : Option Key) :
    Same (a.setSlot level idx head) (b.setSlot level idx head) where
  levels := by
    intro level'
    unfold Wheel.setSlot
    rw [h.levels level]
    by_cases hl : level' = level
    · subst hl
      simp
    · simp [hl, h.levels level']
  tick := h.tick
  duration := h.duration
  ratio := h.ratio
  capacity := h.capacity
  get := h.get

theorem of_tasks (h : Same a b) {tasks tasks' : S.Map} (hget : ∀ k, S.get tasks k = S.get tasks' k) :
    Same { a with tasks := tasks } { b with tasks := tasks' } :=
  ⟨h.levels, h.tick, h.duration, h.ratio, h.capacity, hget⟩

theorem of_tick (h : Same a b) {tick tick' : Nat} (heq : tick = tick') :
    Same { a with globalTick := tick } { b with globalTick := tick' } :=
  ⟨h.levels, heq, h.duration, h.ratio, h.capacity, h.get⟩

theorem remove (h : Same a b) (k j : Key) :
    S.get (S.remove a.tasks k).1 j = S.get (S.remove b.tasks k).1 j := by
  rw [S.get_remove, S.get_remove, h.get j]

theorem link (h : Same a b) (k : Key) (level : LevelIdx) (idx : Nat) :
    Same (a.link k level idx) (b.link k level idx) := by
  unfold Wheel.link
  refine Same.setSlot (h.of_tasks fun j => ?_) level idx (some k)
  rw [S.get_modify, S.get_modify, h.get k, h.get j, h.levels]

/-- The same slots are emptied in both. -/
theorem drained {passed : Nat → Prop} {a' b' : Wheel S} (h : Same a b) (ha : Drained passed a a')
    (hb : Drained passed b b') (htick : a'.globalTick = b'.globalTick) : Same a' b' where
  levels := by
    intro level
    have hslots : (a'.levels level).slots = (b'.levels level).slots := by
      funext idx
      by_cases hin : level = .l0 ∧ passed idx
      · obtain ⟨rfl, hin⟩ := hin
        rw [ha.emptied idx hin, hb.emptied idx hin]
      · rw [ha.kept level idx fun hl hi => hin ⟨hl, hi⟩, hb.kept level idx fun hl hi => hin ⟨hl, hi⟩,
          h.levels]
    have hcount : (a'.levels level).slotCount = (b'.levels level).slotCount := by
      rw [ha.shape.slotCount, hb.shape.slotCount, h.levels]
    have hmask : (a'.levels level).mask = (b'.levels level).mask := by
      rw [ha.shape.mask, hb.shape.mask, h.levels]
    calc a'.levels level = ⟨(a'.levels level).slots, (a'.levels level).slotCount,
          (a'.levels level).mask⟩ := rfl
      _ = b'.levels level := by rw [hslots, hcount, hmask]
  tick := htick
  duration := by rw [ha.shape.tick, hb.shape.tick, h.duration]
  ratio := by rw [ha.shape.ratio, hb.shape.ratio, h.ratio]
  capacity := by rw [ha.shape.capacity, hb.shape.capacity, h.capacity]
  get := by
    intro k
    by_cases hin : ∃ idx, passed idx ∧ a.Filed k .l0 idx
    · obtain ⟨idx, hidx, hfiled⟩ := hin
      rw [ha.gone k idx hidx hfiled, hb.gone k idx hidx (h.filed.mp hfiled)]
    · have hnot : ∀ idx, passed idx → ¬ a.Filed k .l0 idx := fun idx hi hf => hin ⟨idx, hi, hf⟩
      rw [ha.rest k hnot, hb.rest k fun idx hi hf => hnot idx hi (h.filed.mpr hf), h.get k]

/-- Both settle the entry in the same way. -/
theorem cascadeEntry {expired expired' out out' : List T} {a' b' : Wheel S} (h : Same a b)
    (hrun : a.cascadeEntry k entry expired = some (a', out))
    (hrun' : b.cascadeEntry k entry expired' = some (b', out')) : Same a' b' := by
  unfold Wheel.cascadeEntry at hrun hrun'
  by_cases hitem : entry.item.isNone = true
  · rw [if_pos hitem] at hrun hrun'
    cases hrun
    cases hrun'
    exact h.of_tasks (h.remove k)
  · rw [if_neg hitem] at hrun hrun'
    by_cases hnow : entry.deadline ≤ a.globalTick
    · rw [if_pos hnow] at hrun
      rw [if_pos (h.tick ▸ hnow)] at hrun'
      cases hrun
      cases hrun'
      exact h.of_tasks (h.remove k)
    · rw [if_neg hnow] at hrun
      rw [if_neg (h.tick ▸ hnow), ← h.determineLocation_eq] at hrun'
      obtain ⟨location, hloc, hlink⟩ := Option.map_eq_some_iff.mp hrun
      obtain ⟨location', hloc', hlink'⟩ := Option.map_eq_some_iff.mp hrun'
      cases hloc.symm.trans hloc'
      cases hlink
      cases hlink'
      exact h.link k _ _

theorem cascadeList {fuel fuel' : Nat} {current : Option Key} {expired expired' out out' : List T}
    {a' b' : Wheel S} (h : Same a b)
    (hlinked : Linked a current detached) (hratio : a.l1TickRatio ≠ 0)
    (hrun : cascadeList fuel a current expired = some (a', out))
    (hrun' : cascadeList fuel' b current expired' = some (b', out')) : Same a' b' := by
  induction detached generalizing fuel fuel' a b current expired expired' with
  | nil =>
    cases current with
    | some key => exact absurd hlinked.chain id
    | none => cases fuel <;> cases fuel' <;> cases hrun <;> cases hrun' <;> exact h
  | cons key tail ih =>
    cases current with
    | none => exact absurd hlinked.chain id
    | some key' =>
      obtain ⟨entry, tail', hcons, hget⟩ := hlinked.exists_entry
      cases hcons
      cases fuel with
      | zero => cases hrun
      | succ fuel =>
        cases fuel' with
        | zero => cases hrun'
        | succ fuel' =>
          rw [Wheel.cascadeList] at hrun hrun'
          simp only [hget] at hrun
          simp only [← h.get key, hget] at hrun'
          obtain ⟨⟨a₁, out₁⟩, hfirst, hrest⟩ := Option.bind_eq_some_iff.mp hrun
          obtain ⟨⟨b₁, out₁'⟩, hfirst', hrest'⟩ := Option.bind_eq_some_iff.mp hrun'
          obtain ⟨a₂, keys, hrun₂, hlinked₂, hshape, -⟩ :=
            cascadeEntry_linked hlinked hratio hget expired
          obtain ⟨rfl, -⟩ := Prod.mk.inj (Option.some.inj (hfirst.symm.trans hrun₂))
          exact ih (h.cascadeEntry hfirst hfirst') hlinked₂
            (by rw [hshape.ratio]; exact hratio) hrest hrest'

theorem cascade {expired expired' out out' : List T} {a' b' : Wheel S} (h : Same a b)
    (hlinked : Linked a none []) (hratio : a.l1TickRatio ≠ 0)
    (hrun : a.cascade expired = some (a', out)) (hrun' : b.cascade expired' = some (b', out')) :
    Same a' b' := by
  unfold Wheel.cascade at hrun hrun'
  simp only [← h.tick, ← h.ratio, ← h.levels] at hrun'
  by_cases hmul : a.globalTick % a.l1TickRatio = 0
  · rw [if_pos hmul] at hrun hrun'
    obtain ⟨keys, htaken, -⟩ := hlinked.take .l1
      ((a.globalTick / a.l1TickRatio) &&& (a.levels .l1).mask)
    cases hhead : (a.levels .l1).slots ((a.globalTick / a.l1TickRatio) &&& (a.levels .l1).mask) with
    | none =>
      simp only [hhead] at hrun hrun'
      cases hrun
      cases hrun'
      exact h
    | some head =>
      simp only [hhead] at hrun hrun'
      rw [hhead] at htaken
      exact (h.setSlot .l1 _ none).cascadeList htaken hratio hrun hrun'
  · rw [if_neg hmul] at hrun hrun'
    cases hrun
    cases hrun'
    exact h

end Same

/-! ## A step and its ticks -/

theorem advanceTicks_add (m n : Nat) (w : Wheel S) (expired : List T) :
    advanceTicks (m + n) w expired =
      (advanceTicks m w expired).bind fun r => advanceTicks n r.1 r.2 := by
  induction m generalizing w expired with
  | zero => rw [Nat.zero_add, advanceTicks, Option.bind_some]
  | succ m ih =>
    rw [Nat.succ_add, advanceTicks, advanceTicks, Option.bind_assoc]
    exact congrArg _ (funext fun r => ih r.1 r.2)

/-- The slots of `L0` that belong to the ticks `t + 1`, …, `t + s`. -/
def Passed (w : Wheel S) (t s idx : Nat) : Prop := ∃ i < s, idx = (t + (i + 1)) % w.gauge.l0

theorem mem_stepSlots (hs : Shaped w) (step idx : Nat) :
    idx ∈ w.stepSlots step ↔ w.Passed w.globalTick step idx := by
  rw [hs.stepSlots_eq]
  exact hs.gauge.mem_passed

/-- Ticks before the next multiple of the ratio empty their slots and do nothing else. -/
theorem drained_of_advanceTicks {n : Nat} {expired out : List T} (h : Linked w none [])
    (hs : Shaped w) (hend : w.globalTick + n < 2 ^ 64)
    (hn : n < w.gauge.ratio - w.globalTick % w.gauge.ratio)
    (hrun : advanceTicks n w expired = some (w', out)) :
    Drained (w.Passed w.globalTick n) w w' ∧ Linked w' none [] ∧
      w'.globalTick = w.globalTick + n := by
  induction n generalizing w expired with
  | zero =>
    cases hrun
    exact ⟨(Drained.refl w').congr fun idx => iff_of_false (by rintro ⟨i, hi, -⟩; omega) id, h, rfl⟩
  | succ n ih =>
    rw [advanceTicks, advance_tick hs] at hrun
    obtain ⟨⟨w₁, out₁⟩, hstep, hrest⟩ := Option.bind_eq_some_iff.mp hrun
    obtain ⟨⟨w₂, out₂⟩, hdrain, hcascade⟩ := Option.bind_eq_some_iff.mp hstep
    obtain ⟨hdrained, hlinked, htick⟩ := drained_of_drainSlots h hdrain
    have hnow : wrappingAdd w₂.globalTick 1 = w.globalTick + 1 := by
      rw [htick, wrappingAdd_of_lt (by omega)]
    -- the tick is no multiple of the ratio
    have hmod : (w.globalTick + 1) % w.gauge.ratio = w.globalTick % w.gauge.ratio + 1 := by
      rw [← Nat.mod_add_mod, Nat.mod_eq_of_lt (by omega)]
    simp only [hnow] at hcascade
    unfold cascade at hcascade
    rw [if_neg] at hcascade
    · cases hcascade
      have hdrained₁ := (hdrained.congr fun idx => (mem_stepSlots hs 1 idx).symm).of_tick
        (w.globalTick + 1)
      set w₁ : Wheel S := { w₂ with globalTick := w.globalTick + 1 } with hw₁
      have hgauge : w₁.gauge = w.gauge := hdrained₁.shape.gauge
      obtain ⟨hdrained₂, hlinked₂, htick₂⟩ := ih (w := w₁) (hlinked.of_tick _)
        (hs.of_sameShape hdrained₁.shape) (by show w.globalTick + 1 + n < 2 ^ 64; omega)
        (by rw [hgauge]; show n < w.gauge.ratio - (w.globalTick + 1) % w.gauge.ratio; omega) hrest
      refine ⟨(hdrained₁.trans hdrained₂).congr fun idx => ?_, hlinked₂, ?_⟩
      · unfold Passed
        rw [hgauge]
        constructor
        · rintro ⟨i, hi, rfl⟩
          cases i with
          | zero => exact Or.inl ⟨0, Nat.one_pos, rfl⟩
          | succ i =>
            refine Or.inr ⟨i, by omega, ?_⟩
            show _ = (w.globalTick + 1 + (i + 1)) % w.gauge.l0
            rw [show w.globalTick + 1 + (i + 1) = w.globalTick + (i + 1 + 1) by omega]
        · rintro (⟨i, hi, rfl⟩ | ⟨i, hi, rfl⟩)
          · exact ⟨i, by omega, rfl⟩
          · refine ⟨i + 1, by omega, ?_⟩
            show (w.globalTick + 1 + (i + 1)) % w.gauge.l0 = _
            rw [show w.globalTick + 1 + (i + 1) = w.globalTick + (i + 1 + 1) by omega]
      · rw [htick₂]
        show w.globalTick + 1 + n = w.globalTick + (n + 1)
        omega
    · show ¬ (w.globalTick + 1) % w₂.l1TickRatio = 0
      rw [hdrained.shape.ratio]
      show ¬ (w.globalTick + 1) % w.gauge.ratio = 0
      omega

namespace Same

/-- A step that does not pass zero, and its ticks. -/
theorem advanceStep {s : Nat} {expired expired' out out' : List T} {a' b' : Wheel S}
    (h : Same a b) (hlinked : Linked a none []) (hs : Shaped a) (ht : a.globalTick < 2 ^ 64)
    (hpos : 0 < s) (hle : s ≤ a.gauge.ratio - a.globalTick % a.gauge.ratio)
    (hend : a.globalTick + s ≤ 2 ^ 64) (hrun : advanceStep a s expired = some (a', out))
    (hrun' : advanceTicks s b expired' = some (b', out')) : Same a' b' := by
  obtain ⟨n, rfl⟩ : ∃ n, s = n + 1 := ⟨s - 1, by omega⟩
  have hgauge : b.gauge = a.gauge := h.sameShape.gauge
  have hsb : Shaped b := hs.of_sameShape h.sameShape
  rw [advanceTicks_add] at hrun'
  obtain ⟨⟨b₁, out₁⟩, hidle, hlast⟩ := Option.bind_eq_some_iff.mp hrun'
  obtain ⟨hdrained₁, hlinked₁, htick₁⟩ := drained_of_advanceTicks (h.linked hlinked) hsb
    (by rw [← h.tick]; omega) (by rw [hgauge, ← h.tick]; omega) hidle
  have hs₁ : Shaped b₁ := hsb.of_sameShape hdrained₁.shape
  have hlast' : Wheel.advanceStep b₁ 1 out₁ = some (b', out') := by
    rw [← hlast, advanceTicks, advance_tick hs₁]
    cases Wheel.advanceStep b₁ 1 out₁ <;> rfl
  obtain ⟨⟨b₂, out₂⟩, hdrain', hcascade'⟩ := Option.bind_eq_some_iff.mp hlast'
  obtain ⟨hdrained₂, hlinked₂, htick₂⟩ := drained_of_drainSlots hlinked₁ hdrain'
  obtain ⟨⟨a₂, out₃⟩, hdrain, hcascade⟩ := Option.bind_eq_some_iff.mp hrun
  obtain ⟨hdrained, hlinkeda, hticka⟩ := drained_of_drainSlots hlinked hdrain
  have hpassed : ∀ idx, (b.Passed b.globalTick n idx ∨ idx ∈ b₁.stepSlots 1) ↔
      idx ∈ a.stepSlots (n + 1) := by
    intro idx
    rw [mem_stepSlots hs₁, mem_stepSlots hs, htick₁, ← h.tick]
    unfold Passed
    rw [hdrained₁.shape.gauge, hgauge]
    constructor
    · rintro (⟨i, hi, rfl⟩ | ⟨i, hi, rfl⟩)
      · exact ⟨i, by omega, rfl⟩
      · exact ⟨n + i, by omega, by rw [Nat.add_assoc, Nat.add_assoc]⟩
    · rintro ⟨i, hi, rfl⟩
      rcases Nat.lt_succ_iff_lt_or_eq.mp hi with hlt | rfl
      · exact Or.inl ⟨i, hlt, rfl⟩
      · exact Or.inr ⟨0, Nat.one_pos, by rw [Nat.zero_add, Nat.add_assoc]⟩
  have hboth := (hdrained₁.trans hdrained₂).congr fun idx => (hpassed idx).symm
  have hnow : wrappingAdd a₂.globalTick (n + 1) = wrappingAdd b₂.globalTick 1 := by
    rw [hticka, htick₂, htick₁, ← h.tick, ← wrappingAdd_of_lt (a := a.globalTick) (b := n)
      (by omega), Gauge.wrappingAdd_assoc]
  have hsame : Same { a₂ with globalTick := wrappingAdd a₂.globalTick (n + 1) }
      { b₂ with globalTick := wrappingAdd b₂.globalTick 1 } :=
    h.drained (hdrained.of_tick _) (hboth.of_tick _) hnow
  refine hsame.cascade (hlinkeda.of_tick _) ?_ hcascade hcascade'
  show a₂.l1TickRatio ≠ 0
  rw [hdrained.shape.ratio]
  exact hs.ratio_ne_zero

/-- An advance of which no step passes zero, and its ticks. -/
theorem advanceLoop {fuel n : Nat} {expired expired' out out' : List T} {a' b' : Wheel S}
    (h : Same a b) (hlinked : Linked a none []) (hs : Shaped a) (ht : a.globalTick < 2 ^ 64)
    (hinside : a.gauge.Inside a.globalTick n)
    (hrun : advanceLoop fuel a n expired = some (a', out))
    (hrun' : advanceTicks n b expired' = some (b', out')) : Same a' b' := by
  induction fuel generalizing a b n expired expired' with
  | zero =>
    cases n with
    | succ n => cases hrun
    | zero =>
      cases hrun
      cases hrun'
      exact h
  | succ fuel ih =>
    cases n with
    | zero =>
      cases hrun
      cases hrun'
      exact h
    | succ n =>
      rw [Wheel.advanceLoop, if_neg hs.ratio_ne_zero] at hrun
      set s := a.stepLength (n + 1) with hstride
      have hle : s ≤ n + 1 := a.gauge.stride_le _ _
      have hend : a.globalTick + s ≤ 2 ^ 64 := hinside.stride hs.gauge ht
      obtain ⟨⟨a₁, out₁⟩, hstep, hrest⟩ := Option.bind_eq_some_iff.mp hrun
      rw [show n + 1 = s + (n + 1 - s) by omega, advanceTicks_add] at hrun'
      obtain ⟨⟨b₁, out₁'⟩, hticks, hrest'⟩ := Option.bind_eq_some_iff.mp hrun'
      obtain ⟨hlinked₁, hs₁, hgauge₁⟩ := linked_of_advanceStep hlinked hs hstep
      have htick₁ := (held_of_advanceStep hlinked hs hstep).1
      refine ih (h.advanceStep hlinked hs ht (Gauge.stride_pos hs.gauge _ _)
        (a.gauge.stride_le_ratio _ _) hend hstep hticks) hlinked₁ hs₁ ?_ ?_ hrest hrest'
      · rw [htick₁]
        exact wrappingAdd_lt _ _
      · rw [htick₁, hgauge₁]
        exact hinside.rest ht hend hle

end Same

/-! ## Every reachable wheel -/

/-- What `insert` adds. -/
theorem held_of_insert {item : T} {delay : Duration} (hrun : w.insert item delay = some (w', k)) :
    SameShape w w' ∧ w'.globalTick = w.globalTick ∧
      ∃ level, level = (if wrappingSub (wrappingAdd w.globalTick (max (w.delayToTicks delay) 1))
          w.globalTick < w.l0CapacityTicks then LevelIdx.l0 else LevelIdx.l1) ∧
        w'.held = Function.update w.held k
          (some ⟨some item, wrappingAdd w.globalTick (max (w.delayToTicks delay) 1), level⟩) := by
  obtain ⟨location, hloc, hstored⟩ := Option.map_eq_some_iff.mp hrun
  obtain ⟨rfl, rfl⟩ := Prod.mk.inj hstored
  set due := wrappingAdd w.globalTick (max (w.delayToTicks delay) 1)
  set stored : WheelEntry Key T :=
    { item := some item, deadline := due, next := none, level := location.1,
      slotIndex := location.2 % 2 ^ 32 } with hentry
  refine ⟨(SameShape.of_tasks w _).trans (SameShape.link _ _ _ _), rfl, location.1, ?_, ?_⟩
  · unfold determineLocation at hloc
    simp only at hloc
    split at hloc
    · rename_i hnear
      rw [if_pos hnear]
      cases hloc
      rfl
    · rename_i hfar
      rw [if_neg hfar]
      split at hloc
      · cases hloc
      · cases hloc
        rfl
  · funext j
    show (S.get (S.modify (S.insert w.tasks stored).1 (S.insert w.tasks stored).2 _) j).map _ = _
    rw [S.get_modify, S.get_insert, S.get_insert, if_pos rfl]
    by_cases hj : j = (S.insert w.tasks stored).2
    · rw [if_pos hj, hj, Function.update_self]
      rfl
    · rw [if_neg hj, if_neg hj, Function.update_of_ne hj]
      rfl

/-- Slot counts are powers of two that fit a `usize`, and a tick of `L1` is at least one of
`L0`. -/
structure Sized (config : WheelConfig) : Prop where
  l0SlotCount : ∃ a, a ≤ 63 ∧ config.l0SlotCount = 2 ^ a
  l1SlotCount : ∃ a, a ≤ 63 ∧ config.l1SlotCount = 2 ^ a
  ratio_pos : 1 ≤ ratioOf config

/-- What holds of a wheel whatever the delays and the size of the tick count. -/
structure Sane (w : Wheel S) : Prop where
  linked : Linked w none []
  shaped : Shaped w
  tick : w.globalTick < 2 ^ 64
  bound : ∀ k e, w.held k = some e → e.deadline < 2 ^ 64

namespace Sane

theorem new (S : SlotMap Key (WheelEntry Key T)) {config : WheelConfig} (hc : Sized config) :
    Sane (Wheel.new S config) := by
  refine ⟨Linked.new S config, ⟨⟨hc.l0SlotCount, hc.l1SlotCount, hc.ratio_pos⟩, ?_, rfl,
    Nat.le_max_right _ _, ?_⟩, Nat.two_pow_pos 64, ?_⟩
  · intro level
    cases level <;> rfl
  · have hlt : asU64 config.l0TickDuration.asMillis < 2 ^ 64 := by
      unfold asU64
      omega
    exact Nat.max_lt.mpr ⟨hlt, by decide⟩
  · intro k e he
    rw [held, show S.get (Wheel.new S config).tasks k = none from S.get_new k] at he
    cases he

/-- `insert` with any delay. -/
theorem insert (h : Sane w) {item : T} {delay : Duration}
    (hrun : w.insert item delay = some (w', k)) : Sane w' := by
  obtain ⟨hlinked, -, -, -⟩ := insert_linked h.linked hrun
  obtain ⟨hshape, htick, hheld⟩ := held_of_insert hrun
  refine ⟨hlinked, h.shaped.of_sameShape hshape, by rw [htick]; exact h.tick, fun j e he => ?_⟩
  obtain ⟨level, -, hlevel⟩ := hheld
  rw [hlevel] at he
  by_cases hj : j = k
  · rw [hj, Function.update_self] at he
    cases he
    exact wrappingAdd_lt _ _
  · rw [Function.update_of_ne hj] at he
    exact h.bound j e he

theorem cancel (h : Sane w) (k : Key) : Sane (w.cancel k).1 := by
  refine ⟨(cancel_linked h.linked k).1, h.shaped.of_sameShape (SameShape.of_tasks w _), h.tick,
    fun j e he => ?_⟩
  obtain ⟨entry, hget, rfl⟩ := Option.map_eq_some_iff.mp he
  change S.get (S.modify w.tasks k _) j = _ at hget
  rw [S.get_modify] at hget
  split at hget
  · obtain ⟨entry', hget', rfl⟩ := Option.map_eq_some_iff.mp hget
    exact h.bound k ⟨entry'.item, entry'.deadline, entry'.level⟩ (held_of_get hget')
  · exact h.bound j _ (held_of_get hget)

/-- `advance` by any time. -/
theorem advance (h : Sane w) {elapsed : Duration} {expired out : List T}
    (hrun : w.advance elapsed expired = some (w', out)) : Sane w' := by
  obtain ⟨w₁, keys, hrun₁, hlinked, hshape, -⟩ := advanceLoop_linked _ w (w.delayToTicks elapsed)
    expired h.linked h.shaped.ratio_ne_zero (Nat.le_refl _)
  obtain ⟨rfl, -⟩ := Prod.mk.inj (Option.some.inj (hrun.symm.trans hrun₁))
  obtain ⟨htick, hheld⟩ := held_of_advanceLoop h.linked h.shaped h.tick hrun
  refine ⟨hlinked, h.shaped.of_sameShape hshape, ?_, fun j e he => ?_⟩
  · rw [htick]
    exact wrappingAdd_lt _ _
  · rw [hheld j] at he
    obtain ⟨e', he', hleaps⟩ := Option.bind_eq_some_iff.mp he
    rw [(Gauge.leaps_eq_some hleaps).2]
    exact h.bound j e' he'

theorem run {config : WheelConfig} (hc : Sized config) {h : History S}
    (hrun : Run History.Step Always (fun g => g = History.new S config) h) : Sane h.wheel := by
  let inv : History S → Prop := fun g => Sane g.wheel
  show inv h
  refine hrun.invariant ?_ ?_
  · rintro g rfl
    exact Sane.new S hc
  · intro g e g' hg _ hstep
    cases e with
    | insert item delay =>
      obtain ⟨⟨w', k⟩, hinsert, rfl⟩ := Option.map_eq_some_iff.mp hstep
      exact hg.insert hinsert
    | cancel k =>
      cases hstep
      exact hg.cancel k
    | advance elapsed expired =>
      obtain ⟨⟨w', out⟩, hadvance, rfl⟩ := Option.map_eq_some_iff.mp hstep
      exact hg.advance hadvance

end Sane

/-- Some entry misses its turn at zero when the wheel is advanced by `n` ticks at once. -/
def Misses (w : Wheel S) (n : Nat) : Prop :=
  ∃ k e, w.held k = some e ∧ w.gauge.Missed w.globalTick n e

/-- **Batched advancing.**  From every reachable wheel, an advance and as many calls by one
tick hand out the same items and leave the same contents, unless some entry misses its turn
at zero; and the lists agree entry by entry when no step passes zero. -/
theorem advance_by_ticks (S : SlotMap Key (WheelEntry Key T)) {config : WheelConfig}
    (hc : Sized config) {h : History S}
    (hrun : Run History.Step Always (fun g => g = History.new S config) h) (elapsed : Duration)
    (expired : List T) :
    ∃ a b out out', h.wheel.advance elapsed expired = some (a, expired ++ out) ∧
      advanceTicks (h.wheel.delayToTicks elapsed) h.wheel expired = some (b, expired ++ out') ∧
      (SameContents a b ∧ out.Perm out' ↔ ¬ h.wheel.Misses (h.wheel.delayToTicks elapsed)) ∧
      (h.wheel.gauge.Inside h.wheel.globalTick (h.wheel.delayToTicks elapsed) → Same a b) := by
  have hw : Sane h.wheel := Sane.run hc hrun
  generalize h.wheel = w at hw ⊢
  set n := w.delayToTicks elapsed with hn
  have hlt : n < 2 ^ 64 := by
    refine Nat.lt_of_le_of_lt (Nat.div_le_self _ _) ?_
    unfold asU64
    omega
  obtain ⟨a, keys, hruna, hlinkeda, hshapea, hreleaseda⟩ :=
    advanceLoop_linked n w n expired hw.linked hw.shaped.ratio_ne_zero (Nat.le_refl n)
  obtain ⟨b, keys', hrunb, hlinkedb, hshapeb, hreleasedb⟩ :=
    advanceTicks_linked n w expired hw.linked hw.shaped
  obtain ⟨hticka, hhelda⟩ := held_of_advanceLoop hw.linked hw.shaped hw.tick hruna
  obtain ⟨htickb, hheldb⟩ := held_of_advanceTicks hw.linked hw.shaped hw.tick hrunb
  refine ⟨a, b, _, _, hruna, hrunb, ?_, fun hinside =>
    (Same.refl w).advanceLoop hw.linked hw.shaped hw.tick hinside hruna hrunb⟩
  have hentries : (∀ k, a.held k = b.held k) ↔ ¬ w.Misses n := by
    constructor
    · rintro heq ⟨k, e, hk, hmissed⟩
      have hk' := heq k
      rw [hhelda, hheldb, hk, Option.bind_some, Option.bind_some] at hk'
      exact (Gauge.leaps_eq_ticks_iff hw.shaped.gauge hw.tick hlt (hw.bound k e hk)
        (Nat.le_refl n)).mp hk' hmissed
    · intro hnot k
      rw [hhelda, hheldb]
      cases hk : w.held k with
      | none => rfl
      | some e =>
        exact (Gauge.leaps_eq_ticks_iff hw.shaped.gauge hw.tick hlt (hw.bound k e hk)
          (Nat.le_refl n)).mpr fun hmissed => hnot ⟨k, e, hk, hmissed⟩
  rw [← hentries]
  constructor
  · exact fun hsame => hsame.1.entries
  · intro heq
    have hshape : SameShape a b :=
      ⟨fun l => (hshapeb.mask l).trans (hshapea.mask l).symm,
        fun l => (hshapeb.slotCount l).trans (hshapea.slotCount l).symm,
        hshapeb.capacity.trans hshapea.capacity.symm, hshapeb.ratio.trans hshapea.ratio.symm,
        hshapeb.tick.trans hshapea.tick.symm⟩
    refine ⟨sameContents_of_held hlinkeda hlinkedb hshape (hticka.trans htickb.symm) heq, ?_⟩
    have hpending : a.pending = b.pending := by
      funext k
      rw [pending_of_held, pending_of_held, heq k]
    unfold Released at hreleaseda hreleasedb
    rw [hpending] at hreleaseda
    exact (hreleaseda.perm hreleasedb).filterMap _

/-- Four slots of one millisecond; a tick of `L1` is no divisor of `2 ^ 64`. -/
def unevenConfig : WheelConfig :=
  { l0TickDuration := Duration.fromMillis 1
    l0SlotCount := 4
    l1TickDuration := Duration.fromMillis (3 * 2 ^ 61)
    l1SlotCount := 2 }

theorem sized_unevenConfig : Sized unevenConfig :=
  ⟨⟨2, by decide, rfl⟩, ⟨1, by decide, rfl⟩, by decide +kernel⟩

/-- Ten ticks before the end of the 64 bits an item due after twelve is inserted. -/
def nearTheEnd : List (WheelEvent Nat Nat) :=
  [.advance (Duration.fromMillis (2 ^ 64 - 10)) [], .insert 7 (Duration.fromMillis 12)]

def nearTheEndHistory : History (SlotMap.appending (WheelEntry Nat Nat)) :=
  (replay History.next (fun _ _ => true) (History.new _ unevenConfig) nearTheEnd).get
    (by decide +kernel)

theorem nearTheEnd_reached :
    Run History.Step Always
      (fun g => g = History.new (SlotMap.appending (WheelEntry Nat Nat)) unevenConfig)
      nearTheEndHistory := by
  have hreplay : replay History.next (fun _ _ => true) (History.new _ unevenConfig) nearTheEnd =
      some nearTheEndHistory := (Option.some_get _).symm
  have hstart : Run History.Step Always
      (fun g => g = History.new (SlotMap.appending (WheelEntry Nat Nat)) unevenConfig)
      (History.new _ unevenConfig) := Run.start rfl
  exact hstart.replay (fun _ _ _ hs => hs) (fun _ _ _ => trivial) hreplay

/-- The contents differ after an advance by twelve ticks at once and by one after the
other. -/
theorem advance_by_ticks_misses :
    ∃ a b out out', nearTheEndHistory.wheel.advance (Duration.fromMillis 12) [] = some (a, out) ∧
      advanceTicks 12 nearTheEndHistory.wheel [] = some (b, out') ∧
      ¬ (SameContents a b ∧ out.Perm out') := by
  obtain ⟨a, b, out, out', hrun, hticks, hiff, -⟩ := advance_by_ticks _ sized_unevenConfig
    nearTheEnd_reached (Duration.fromMillis 12) []
  have hcount : nearTheEndHistory.wheel.delayToTicks (Duration.fromMillis 12) = 12 := by
    decide +kernel
  have hheld : nearTheEndHistory.wheel.held 0 = some ⟨some 7, 2, .l1⟩ := by decide +kernel
  have hmissed : nearTheEndHistory.wheel.gauge.Missed nearTheEndHistory.wheel.globalTick 12
      (⟨some 7, 2, .l1⟩ : Held Nat) := by decide +kernel
  rw [hcount] at hticks hiff
  exact ⟨a, b, out, out', hrun, hticks, fun hsame => hiff.mp hsame ⟨0, _, hheld, hmissed⟩⟩

/-- The item comes out of twelve ticks and not out of the advance by twelve ticks. -/
theorem advance_by_ticks_differs :
    ¬ ∀ (config : WheelConfig), Sized config →
      ∀ (h : History (SlotMap.appending (WheelEntry Nat Nat))),
        Run History.Step Always (fun g => g = History.new _ config) h → ∀ elapsed a b out out',
          h.wheel.advance elapsed [] = some (a, out) →
          advanceTicks (h.wheel.delayToTicks elapsed) h.wheel [] = some (b, out') →
          SameContents a b ∧ out.Perm out' := by
  intro hclaim
  have hbatch : (nearTheEndHistory.wheel.advance (Duration.fromMillis 12) []).map Prod.snd =
      some [] := by decide +kernel
  have hticks : (advanceTicks (nearTheEndHistory.wheel.delayToTicks (Duration.fromMillis 12))
      nearTheEndHistory.wheel []).map Prod.snd = some [7] := by decide +kernel
  obtain ⟨⟨a, out⟩, hrun, rfl⟩ := Option.map_eq_some_iff.mp hbatch
  obtain ⟨⟨b, out'⟩, hrun', heq⟩ := Option.map_eq_some_iff.mp hticks
  have hperm := (hclaim unevenConfig sized_unevenConfig nearTheEndHistory nearTheEnd_reached _ _ _ _
    _ hrun hrun').2
  rw [show out' = [7] from heq] at hperm
  exact absurd hperm.length_eq (by decide)

end Veloq.Timing.Wheel
