import Veloq.Timing.Linked
import Mathlib.Data.Nat.Bitwise
set_option autoImplicit false

/-!
# Timing: what a step of the wheel delivers

`Timed` ties the deadline of every linked entry to the tick up to which the levels
have been emptied: an entry of `L0` is due within the next rotation of `L0`, an
entry of `L1` only after the next multiple of the ratio.  So the slot of `L0` that
belongs to a tick holds exactly the entries due at it, and the slot of `L1` that
falls due holds every entry that has to move down.

Each function of the wheel has one lemma here: it returns, keeps `Linked` and
`Timed`, and what it appends to `expired` is a `Batch` of the pending items.
-/

namespace Veloq.Timing.Wheel

open Veloq.Foundation

variable {Key T : Type} [DecidableEq Key] {S : SlotMap Key (WheelEntry Key T)}
  {w w' w'' : Wheel S} {k : Key} {entry : WheelEntry Key T} {detached : List Key}
  {first horizon l1First : Nat}

/-- The items that are stored and not cancelled, with their deadlines. -/
def pending (w : Wheel S) : Agenda Key T := fun k =>
  (S.get w.tasks k).bind fun entry => entry.item.map fun item => (item, entry.deadline)

/-- A configuration with power-of-two slot counts and a ratio that `L0` covers. -/
structure WellShaped (w : Wheel S) : Prop where
  slotCount : ∀ level, ∃ a, a ≤ 63 ∧ (w.levels level).slotCount = 2 ^ a
  mask : ∀ level, (w.levels level).mask = (w.levels level).slotCount - 1
  capacity : w.l0CapacityTicks = (w.levels .l0).slotCount
  ratio_pos : 1 ≤ w.l1TickRatio
  ratio_le : w.l1TickRatio ≤ (w.levels .l0).slotCount
  tick_pos : 1 ≤ w.tickDurationMs

/-- The fields that no operation changes. -/
structure SameShape (w w' : Wheel S) : Prop where
  mask : ∀ level, (w'.levels level).mask = (w.levels level).mask
  slotCount : ∀ level, (w'.levels level).slotCount = (w.levels level).slotCount
  capacity : w'.l0CapacityTicks = w.l0CapacityTicks
  ratio : w'.l1TickRatio = w.l1TickRatio
  tick : w'.tickDurationMs = w.tickDurationMs

/-- The linked entries of `L0` are due from `first` on and before `horizon`, those
of `L1` from the multiple `l1First` of the ratio on. -/
structure Timed (w : Wheel S) (first horizon l1First : Nat) (detached : List Key) : Prop where
  l0 : ∀ k entry, S.get w.tasks k = some entry → k ∉ detached → entry.level = .l0 →
    first ≤ entry.deadline ∧ entry.deadline < horizon
  l1 : ∀ k entry, S.get w.tasks k = some entry → k ∉ detached → entry.level = .l1 →
    l1First ≤ entry.deadline / w.l1TickRatio
  bound : ∀ k entry, S.get w.tasks k = some entry → entry.deadline < 2 ^ 64

/-! ## The shape -/

namespace SameShape

theorem refl (w : Wheel S) : SameShape w w :=
  ⟨fun _ => rfl, fun _ => rfl, rfl, rfl, rfl⟩

theorem trans (h : SameShape w w') (h' : SameShape w' w'') : SameShape w w'' :=
  ⟨fun l => (h'.mask l).trans (h.mask l), fun l => (h'.slotCount l).trans (h.slotCount l),
    h'.capacity.trans h.capacity, h'.ratio.trans h.ratio, h'.tick.trans h.tick⟩

theorem of_tasks (w : Wheel S) (tasks : S.Map) : SameShape w { w with tasks := tasks } :=
  ⟨fun _ => rfl, fun _ => rfl, rfl, rfl, rfl⟩

theorem setSlot (w : Wheel S) (level : LevelIdx) (idx : Nat) (head : Option Key) :
    SameShape w (w.setSlot level idx head) :=
  ⟨setSlot_mask w level idx head, setSlot_slotCount w level idx head, rfl, rfl, rfl⟩

theorem link (w : Wheel S) (k : Key) (level : LevelIdx) (idx : Nat) :
    SameShape w (w.link k level idx) :=
  ⟨setSlot_mask _ level idx _, setSlot_slotCount _ level idx _, rfl, rfl, rfl⟩

end SameShape

namespace WellShaped

theorem of_sameShape (h : WellShaped w) (hs : SameShape w w') : WellShaped w' where
  slotCount := fun level => by rw [hs.slotCount]; exact h.slotCount level
  mask := fun level => by rw [hs.mask, hs.slotCount]; exact h.mask level
  capacity := by rw [hs.capacity, hs.slotCount]; exact h.capacity
  ratio_pos := by rw [hs.ratio]; exact h.ratio_pos
  ratio_le := by rw [hs.ratio, hs.slotCount]; exact h.ratio_le
  tick_pos := by rw [hs.tick]; exact h.tick_pos

theorem slotCount_pos (h : WellShaped w) (level : LevelIdx) : 0 < (w.levels level).slotCount := by
  obtain ⟨a, _, ha⟩ := h.slotCount level
  rw [ha]
  exact Nat.two_pow_pos a

/-- Masking is the remainder by the number of slots. -/
theorem and_mask (h : WellShaped w) (level : LevelIdx) (n : Nat) :
    n &&& (w.levels level).mask = n % (w.levels level).slotCount := by
  obtain ⟨a, _, ha⟩ := h.slotCount level
  rw [h.mask, ha, Nat.and_two_pow_sub_one_eq_mod]

theorem slotOf_l0 (h : WellShaped w) (deadline : Nat) :
    w.slotOf .l0 deadline = deadline % (w.levels .l0).slotCount :=
  h.and_mask .l0 deadline

theorem slotOf_l1 (h : WellShaped w) (deadline : Nat) :
    w.slotOf .l1 deadline = deadline / w.l1TickRatio % (w.levels .l1).slotCount :=
  h.and_mask .l1 _

end WellShaped

/-- Where an entry goes: to `L0` when it is due within the next rotation. -/
theorem determineLocation_spec (h : WellShaped w) {deadline : Nat} (hle : w.globalTick ≤ deadline)
    (hlt : deadline < 2 ^ 64) :
    ∃ level, w.determineLocation deadline = some (level, w.slotOf level deadline) ∧
      (level = .l0 → deadline < w.globalTick + (w.levels .l0).slotCount) ∧
      (level = .l1 → w.globalTick + (w.levels .l0).slotCount ≤ deadline) := by
  unfold determineLocation
  simp only [wrappingSub_of_le hlt hle, h.capacity]
  have hratio := h.ratio_pos
  by_cases hnear : deadline - w.globalTick < (w.levels .l0).slotCount
  · refine ⟨.l0, ?_, fun _ => by omega, fun hl => absurd hl (by simp)⟩
    rw [if_pos hnear]
    rfl
  · refine ⟨.l1, ?_, fun hl => absurd hl (by simp), fun _ => by omega⟩
    rw [if_neg hnear, if_neg (by omega)]
    rfl

/-- An entry of `L1` is not due before the next multiple of the ratio. -/
theorem div_lt_div_of_far (h : WellShaped w) {tick deadline : Nat}
    (hfar : tick + (w.levels .l0).slotCount ≤ deadline) :
    tick / w.l1TickRatio + 1 ≤ deadline / w.l1TickRatio := by
  have hratio := h.ratio_pos
  have hle : tick + w.l1TickRatio ≤ deadline := Nat.le_trans (by have := h.ratio_le; omega) hfar
  calc tick / w.l1TickRatio + 1
      = (tick + w.l1TickRatio) / w.l1TickRatio := (Nat.add_div_right tick hratio).symm
    _ ≤ deadline / w.l1TickRatio := Nat.div_le_div_right hle

/-! ## Pending items -/

theorem pending_congr (h : S.get w'.tasks k = S.get w.tasks k) : w'.pending k = w.pending k := by
  rw [pending, pending, h]

theorem pending_of_get (h : S.get w.tasks k = some entry) :
    w.pending k = entry.item.map fun item => (item, entry.deadline) := by
  rw [pending, h]
  rfl

theorem entry_of_dueAt {t : Nat} (h : w.pending.DueAt k t) :
    ∃ entry, S.get w.tasks k = some entry ∧ entry.item ≠ none ∧ entry.deadline = t := by
  obtain ⟨item, hitem⟩ := h
  obtain ⟨entry, hget, hmap⟩ := Option.bind_eq_some_iff.mp hitem
  obtain ⟨item', hsome, heq⟩ := Option.map_eq_some_iff.mp hmap
  refine ⟨entry, hget, by rw [hsome]; simp, ?_⟩
  cases heq
  rfl

/-- After a `link` the same items are pending. -/
theorem pending_link (w : Wheel S) (k : Key) (level : LevelIdx) (idx : Nat) :
    (w.link k level idx).pending = w.pending := by
  funext j
  unfold pending
  rw [show (w.link k level idx).tasks = S.modify w.tasks k _ from rfl, S.get_modify]
  split
  · rename_i hj
    subst hj
    cases S.get w.tasks j with
    | none => rfl
    | some e => rfl
  · rfl

/-! ## `drain_list` and the slots of `L0` -/

/-- `drain_list` removes the detached entries and appends their items. -/
theorem drainList_spec (fuel : Nat) (w : Wheel S) (current : Option Key) (detached : List Key)
    (expired : List T) (h : Linked w current detached) (hfuel : detached.length ≤ fuel) :
    ∃ tasks, drainList S fuel w.tasks current expired =
        some (tasks, expired ++ w.pending.items detached) ∧
      Linked { w with tasks := tasks } none [] ∧
      ∀ k, S.get tasks k = if k ∈ detached then none else S.get w.tasks k := by
  induction detached generalizing fuel w current expired with
  | nil =>
    cases current with
    | some key => exact absurd h.chain id
    | none =>
      refine ⟨w.tasks, ?_, h, by simp⟩
      rw [drainList]
      simp [Agenda.items]
  | cons key tail ih =>
    cases current with
    | none => exact absurd h.chain id
    | some key' =>
      obtain ⟨entry, tail', hcons, hget⟩ := h.exists_entry
      cases hcons
      cases fuel with
      | zero => exact absurd hfuel (by simp)
      | succ fuel =>
        have hrest := h.remove hget
        obtain ⟨tasks, hrun, hlinked, hgets⟩ := ih fuel { w with tasks := (S.remove w.tasks key).1 }
          entry.next (expired ++ entry.item.toList) hrest (by simpa using hfuel)
        have hnotin : key ∉ tail := (List.nodup_cons.mp h.nodup).1
        have hitems : entry.item.toList ++
            Agenda.items (pending { w with tasks := (S.remove w.tasks key).1 }) tail =
            w.pending.items (key :: tail) := by
          have htail : Agenda.items (pending { w with tasks := (S.remove w.tasks key).1 }) tail =
              w.pending.items tail := by
            refine List.filterMap_congr ?_
            intro j hj
            have hne : j ≠ key := fun hjk => hnotin (hjk ▸ hj)
            rw [pending_congr (get_remove_of_ne hne)]
          rw [htail]
          unfold Agenda.items
          rw [List.filterMap_cons, pending_of_get hget]
          cases entry.item <;> rfl
        refine ⟨tasks, ?_, hlinked, ?_⟩
        · rw [drainList]
          simp only [S.remove_value, hget]
          rw [hrun, List.append_assoc, hitems]
        · intro j
          rw [hgets j, S.get_remove]
          by_cases hj : j ∈ tail <;> by_cases hk : j = key <;> simp [hj, hk]

/-- A slot of `L0` is emptied: exactly the entries filed in it are gone. -/
theorem drainSlot_spec (h : Linked w none []) (idx : Nat) (expired : List T) :
    ∃ w' keys, drainSlot w idx expired = some (w', expired ++ w.pending.items keys) ∧
      Linked w' none [] ∧ SameShape w w' ∧ w'.globalTick = w.globalTick ∧ keys.Nodup ∧
      (∀ k, k ∈ keys ↔ w.Filed k .l0 idx) ∧
      ∀ k, S.get w'.tasks k = if k ∈ keys then none else S.get w.tasks k := by
  obtain ⟨keys, htaken, hfiled⟩ := h.take .l0 idx
  cases hhead : (w.levels .l0).slots idx with
  | none =>
    have hnil : keys = [] := Chain.nil_of_none (by rw [← hhead]; exact htaken.chain)
    subst hnil
    refine ⟨w, [], ?_, h, SameShape.refl w, rfl, List.nodup_nil, hfiled, by simp⟩
    unfold drainSlot
    rw [hhead]
    simp [Agenda.items]
  | some head =>
    rw [hhead] at htaken
    obtain ⟨tasks, hrun, hlinked, hgets⟩ := drainList_spec (S.len w.tasks) _ _ _ expired htaken
      htaken.length_le
    refine ⟨{ w.setSlot .l0 idx none with tasks := tasks }, keys, ?_, hlinked, ?_, rfl,
      htaken.nodup, hfiled, hgets⟩
    · unfold drainSlot
      rw [hhead]
      simp only [show (w.setSlot .l0 idx none).tasks = w.tasks from rfl] at hrun
      simp only [hrun]
      rfl
    · exact (SameShape.setSlot w .l0 idx none).trans (SameShape.of_tasks _ tasks)

namespace Timed

/-- Removing entries keeps the times of the others. -/
theorem of_get (h : Timed w first horizon l1First detached)
    (hratio : w'.l1TickRatio = w.l1TickRatio)
    (hget : ∀ k entry, S.get w'.tasks k = some entry → S.get w.tasks k = some entry) :
    Timed w' first horizon l1First detached where
  l0 := fun k entry hk => h.l0 k entry (hget k entry hk)
  l1 := fun k entry hk hnot hl => by rw [hratio]; exact h.l1 k entry (hget k entry hk) hnot hl
  bound := fun k entry hk => h.bound k entry (hget k entry hk)

end Timed

/-- Entries that are all due at one tick form a batch. -/
theorem batch_of_drained {keys : List Key} {t : Nat} (hnodup : keys.Nodup)
    (hdue : ∀ k ∈ keys, ∀ entry, S.get w.tasks k = some entry → entry.deadline = t)
    (hget : ∀ k, S.get w'.tasks k = if k ∈ keys then none else S.get w.tasks k) :
    ∃ keys', Batch w.pending w'.pending t t keys' ∧
      w.pending.items keys' = w.pending.items keys := by
  refine Batch.of_gone hnodup ?_ fun k => ?_
  · intro k hk u hu
    obtain ⟨entry, hentry, _, hdead⟩ := entry_of_dueAt hu
    exact hdead.symm.trans (hdue k hk entry hentry)
  · rw [pending, hget k]
    split <;> rfl

/-- The slot of the tick `first` holds exactly the entries of `L0` due at it. -/
theorem drainTick_spec (h : Linked w none []) (hs : WellShaped w)
    (ht : Timed w first horizon l1First [])
    (hwin : horizon ≤ first + (w.levels .l0).slotCount) (expired : List T) :
    ∃ w' keys, drainSlot w (first &&& (w.levels .l0).mask) expired =
        some (w', expired ++ w.pending.items keys) ∧
      Linked w' none [] ∧ SameShape w w' ∧ w'.globalTick = w.globalTick ∧
      Timed w' (first + 1) horizon l1First [] ∧ Batch w.pending w'.pending first first keys := by
  obtain ⟨w', keys, hrun, hlinked, hshape, htick, hnodup, hfiled, hget⟩ :=
    drainSlot_spec h (first &&& (w.levels .l0).mask) expired
  have hdue : ∀ k ∈ keys, ∀ entry, S.get w.tasks k = some entry → entry.deadline = first := by
    intro k hk entry hentry
    obtain ⟨entry', hentry', hlevel, hslot⟩ := (hfiled k).mp hk
    rw [hentry] at hentry'
    cases hentry'
    obtain ⟨hlo, hhi⟩ := ht.l0 k entry hentry (List.not_mem_nil) hlevel
    rw [hs.slotOf_l0, hs.and_mask] at hslot
    -- both lie within one rotation and fall into the same slot
    exact eq_of_mod_eq hslot hlo (by omega)
  obtain ⟨keys', hbatch, hitems⟩ := batch_of_drained hnodup hdue hget
  refine ⟨w', keys', by rw [hrun, hitems], hlinked, hshape, htick, ⟨?_, ?_, ?_⟩, hbatch⟩
  all_goals
    intro k entry hk
    rw [hget k] at hk
    split at hk
    · exact absurd hk (by simp)
  · rename_i hnotin
    intro hnot hlevel
    obtain ⟨hlo, hhi⟩ := ht.l0 k entry hk hnot hlevel
    refine ⟨Nat.lt_of_le_of_ne hlo ?_, hhi⟩
    intro heq
    refine hnotin ((hfiled k).mpr ⟨entry, hk, hlevel, ?_⟩)
    rw [← heq]
    rfl
  · intro hnot hlevel
    rw [hshape.ratio]
    exact ht.l1 k entry hk hnot hlevel
  · exact ht.bound k entry hk

/-- The slots of `n` successive ticks, one after the other. -/
theorem drainSlots_spec (n : Nat) (w : Wheel S) (first : Nat) (expired : List T)
    (h : Linked w none []) (hs : WellShaped w) (ht : Timed w first horizon l1First [])
    (hwin : horizon ≤ first + (w.levels .l0).slotCount) :
    ∃ w' keys, drainSlots ((List.range' first n).map (· &&& (w.levels .l0).mask)) w expired =
        some (w', expired ++ w.pending.items keys) ∧
      Linked w' none [] ∧ SameShape w w' ∧ w'.globalTick = w.globalTick ∧
      Timed w' (first + n) horizon l1First [] ∧
      Batch w.pending w'.pending first (first + n - 1) keys := by
  induction n generalizing w first expired with
  | zero =>
    refine ⟨w, [], ?_, h, SameShape.refl w, rfl, ht, Batch.refl _ _ _⟩
    simp [drainSlots, Agenda.items]
  | succ n ih =>
    obtain ⟨w₁, keys₁, hrun₁, hlinked₁, hshape₁, htick₁, ht₁, hbatch₁⟩ :=
      drainTick_spec h hs ht hwin expired
    obtain ⟨w₂, keys₂, hrun₂, hlinked₂, hshape₂, htick₂, ht₂, hbatch₂⟩ :=
      ih w₁ (first + 1) (expired ++ w.pending.items keys₁) hlinked₁ (hs.of_sameShape hshape₁) ht₁
        (by rw [hshape₁.slotCount]; omega)
    refine ⟨w₂, keys₁ ++ keys₂, ?_, hlinked₂, hshape₁.trans hshape₂, htick₂.trans htick₁, ?_, ?_⟩
    · rw [List.range'_succ, List.map_cons, drainSlots, hrun₁, Option.bind_some,
        ← hshape₁.mask .l0, hrun₂, List.append_assoc, hbatch₁.items_append hbatch₂]
    · rw [show first + (n + 1) = first + 1 + n by omega]
      exact ht₂
    · cases n with
      | zero =>
        -- the last tick: the second batch is empty
        have hlast : first + 1 + 0 - 1 ≤ first := by omega
        refine hbatch₁.trans (hbatch₂.mono (Nat.le_succ first) hlast) ?_ ?_ ?_ <;> omega
      | succ n =>
        rw [show first + (n + 1 + 1) - 1 = first + 1 + (n + 1) - 1 by omega]
        exact hbatch₁.trans hbatch₂ (by omega) (by omega) (by omega)

/-! ## `cascade_list` and the slot of `L1` that falls due -/

/-- Linking a detached entry anew files it by its distance from the current tick. -/
theorem Timed.link {level : LevelIdx} (ht : Timed w (w.globalTick + 1)
      (w.globalTick + (w.levels .l0).slotCount) (w.globalTick / w.l1TickRatio + 1) (k :: detached))
    (hs : WellShaped w) (hget : S.get w.tasks k = some entry)
    (hfuture : w.globalTick < entry.deadline)
    (hnear : level = .l0 → entry.deadline < w.globalTick + (w.levels .l0).slotCount)
    (hfar : level = .l1 → w.globalTick + (w.levels .l0).slotCount ≤ entry.deadline) (idx : Nat) :
    Timed (w.link k level idx) (w.globalTick + 1) (w.globalTick + (w.levels .l0).slotCount)
      (w.globalTick / w.l1TickRatio + 1) detached := by
  have hgets : ∀ j e, S.get (w.link k level idx).tasks j = some e →
      (j = k ∧ e.deadline = entry.deadline ∧ e.level = level) ∨
      (j ≠ k ∧ S.get w.tasks j = some e) := by
    intro j e he
    rw [show (w.link k level idx).tasks = S.modify w.tasks k _ from rfl, S.get_modify] at he
    split at he
    · rename_i hj
      rw [hget] at he
      cases he
      exact Or.inl ⟨hj, rfl, rfl⟩
    · rename_i hj
      exact Or.inr ⟨hj, he⟩
  refine ⟨?_, ?_, ?_⟩
  · intro j e he hnot hlevel
    rcases hgets j e he with ⟨rfl, hdead, hl⟩ | ⟨hj, he⟩
    · rw [hdead]
      exact ⟨hfuture, hnear (hl.symm.trans hlevel)⟩
    · exact ht.l0 j e he (by simp [hj, hnot]) hlevel
  · intro j e he hnot hlevel
    rcases hgets j e he with ⟨rfl, hdead, hl⟩ | ⟨hj, he⟩
    · rw [hdead]
      exact div_lt_div_of_far hs (hfar (hl.symm.trans hlevel))
    · exact ht.l1 j e he (by simp [hj, hnot]) hlevel
  · intro j e he
    rcases hgets j e he with ⟨rfl, hdead, _⟩ | ⟨_, he⟩
    · rw [hdead]
      exact ht.bound j entry hget
    · exact ht.bound j e he

/-- Removing a detached entry. -/
theorem Timed.remove (ht : Timed w first horizon l1First (k :: detached)) :
    Timed { w with tasks := (S.remove w.tasks k).1 } first horizon l1First detached := by
  have hgets : ∀ j e, S.get (S.remove w.tasks k).1 j = some e → j ≠ k ∧ S.get w.tasks j = some e := by
    intro j e he
    rw [S.get_remove] at he
    split at he
    · exact absurd he (by simp)
    · exact ⟨by assumption, he⟩
  refine ⟨?_, ?_, ?_⟩
  · intro j e he hnot
    obtain ⟨hj, he⟩ := hgets j e he
    exact ht.l0 j e he (by simp [hj, hnot])
  · intro j e he hnot
    obtain ⟨hj, he⟩ := hgets j e he
    exact ht.l1 j e he (by simp [hj, hnot])
  · intro j e he
    exact ht.bound j e (hgets j e he).2

/-- One entry of the list of `L1` that falls due. -/
theorem cascadeEntry_spec (h : Linked w (some k) (k :: detached)) (hs : WellShaped w)
    (ht : Timed w (w.globalTick + 1) (w.globalTick + (w.levels .l0).slotCount)
      (w.globalTick / w.l1TickRatio + 1) (k :: detached))
    (hget : S.get w.tasks k = some entry) (hdue : w.globalTick ≤ entry.deadline)
    (expired : List T) :
    ∃ w' keys, cascadeEntry w k entry expired = some (w', expired ++ w.pending.items keys) ∧
      Linked w' entry.next detached ∧ SameShape w w' ∧ w'.globalTick = w.globalTick ∧
      Timed w' (w.globalTick + 1) (w.globalTick + (w.levels .l0).slotCount)
        (w.globalTick / w.l1TickRatio + 1) detached ∧
      Batch w.pending w'.pending w.globalTick w.globalTick keys ∧
      ∀ j, j ≠ k → S.get w'.tasks j = S.get w.tasks j := by
  have hremoved := SameShape.of_tasks w (S.remove w.tasks k).1
  have hrest : pending { w with tasks := (S.remove w.tasks k).1 } = w.pending.drop k := by
    funext j
    unfold pending Agenda.drop
    rw [S.get_remove]
    split <;> rfl
  cases hitem : entry.item with
  | none =>
    refine ⟨{ w with tasks := (S.remove w.tasks k).1 }, [], ?_, h.remove hget, hremoved, rfl,
      ht.remove, ?_, fun j hj => get_remove_of_ne hj⟩
    · simp [cascadeEntry, hitem, Agenda.items]
    · -- a cancelled entry has no item to lose
      have hsame : w.pending.drop k = w.pending := by
        funext j
        unfold Agenda.drop
        split
        · rename_i hj
          subst hj
          rw [pending_of_get hget, hitem]
          rfl
        · rfl
      rw [hrest, hsame]
      exact Batch.refl _ _ _
  | some item =>
    have hpending : w.pending k = some (item, entry.deadline) := by
      rw [pending_of_get hget, hitem]
      rfl
    by_cases hnow : entry.deadline ≤ w.globalTick
    · refine ⟨{ w with tasks := (S.remove w.tasks k).1 }, [k], ?_, h.remove hget, hremoved, rfl,
        ht.remove, ?_, fun j hj => get_remove_of_ne hj⟩
      · simp [cascadeEntry, hitem, hnow, S.remove_value, hget, Agenda.items, hpending]
      · rw [hrest]
        exact Batch.single ⟨item, hpending⟩ hdue hnow
    · obtain ⟨level, hloc, hnear, hfar⟩ := determineLocation_spec hs hdue (ht.bound k entry hget)
      refine ⟨w.link k level (w.slotOf level entry.deadline), [], ?_, h.link hget rfl,
        SameShape.link w k level _, rfl, ht.link hs hget (by omega) hnear hfar _, ?_, ?_⟩
      · simp [cascadeEntry, hitem, hnow, hloc, Agenda.items]
      · rw [pending_link]
        exact Batch.refl _ _ _
      · exact fun j hj => get_modify_of_ne _ hj

/-- `cascade_list` ends with nothing detached, after delivering what is due now. -/
theorem cascadeList_spec (fuel : Nat) (w : Wheel S) (current : Option Key) (detached : List Key)
    (expired : List T) (h : Linked w current detached) (hs : WellShaped w)
    (ht : Timed w (w.globalTick + 1) (w.globalTick + (w.levels .l0).slotCount)
      (w.globalTick / w.l1TickRatio + 1) detached)
    (hdue : ∀ k ∈ detached, ∀ entry, S.get w.tasks k = some entry → w.globalTick ≤ entry.deadline)
    (hfuel : detached.length ≤ fuel) :
    ∃ w' keys, cascadeList fuel w current expired = some (w', expired ++ w.pending.items keys) ∧
      Linked w' none [] ∧ SameShape w w' ∧ w'.globalTick = w.globalTick ∧
      Timed w' (w.globalTick + 1) (w.globalTick + (w.levels .l0).slotCount)
        (w.globalTick / w.l1TickRatio + 1) [] ∧
      Batch w.pending w'.pending w.globalTick w.globalTick keys := by
  induction detached generalizing fuel w current expired with
  | nil =>
    cases current with
    | some key => exact absurd h.chain id
    | none =>
      refine ⟨w, [], ?_, h, SameShape.refl w, rfl, ht, Batch.refl _ _ _⟩
      rw [cascadeList]
      simp [Agenda.items]
  | cons key tail ih =>
    cases current with
    | none => exact absurd h.chain id
    | some key' =>
      obtain ⟨entry, tail', hcons, hget⟩ := h.exists_entry
      cases hcons
      cases fuel with
      | zero => exact absurd hfuel (by simp)
      | succ fuel =>
        have hnotin : key ∉ tail := (List.nodup_cons.mp h.nodup).1
        obtain ⟨w₁, keys₁, hrun₁, hlinked₁, hshape₁, htick₁, ht₁, hbatch₁, hother⟩ :=
          cascadeEntry_spec h hs ht hget (hdue key (List.mem_cons_self ..) entry hget) expired
        rw [← htick₁, ← hshape₁.slotCount .l0, ← hshape₁.ratio] at ht₁
        have hdue₁ : ∀ j ∈ tail, ∀ e, S.get w₁.tasks j = some e →
            w₁.globalTick ≤ e.deadline := by
          intro j hj e he
          rw [hother j fun hjk => hnotin (hjk ▸ hj)] at he
          rw [htick₁]
          exact hdue j (List.mem_cons_of_mem _ hj) e he
        obtain ⟨w₂, keys₂, hrun₂, hlinked₂, hshape₂, htick₂, ht₂, hbatch₂⟩ :=
          ih fuel w₁ entry.next (expired ++ w.pending.items keys₁) hlinked₁
            (hs.of_sameShape hshape₁) ht₁ hdue₁ (by simpa using hfuel)
        rw [htick₁, hshape₁.slotCount .l0, hshape₁.ratio] at ht₂
        rw [htick₁] at hbatch₂
        refine ⟨w₂, keys₁ ++ keys₂, ?_, hlinked₂, hshape₁.trans hshape₂, htick₂.trans htick₁, ht₂,
          hbatch₁.trans hbatch₂ (Nat.le_refl _) (Nat.le_refl _) (Nat.le_refl _)⟩
        rw [cascadeList]
        simp only [hget]
        rw [hrun₁, Option.bind_some, hrun₂, List.append_assoc, hbatch₁.items_append hbatch₂]

/-- At a multiple of the ratio the slot of `L1` that falls due moves down; elsewhere
nothing happens. -/
theorem cascade_spec (h : Linked w none []) (hs : WellShaped w)
    (ht : Timed w (w.globalTick + 1) (w.globalTick + (w.levels .l0).slotCount) l1First [])
    (hl1 : if w.globalTick % w.l1TickRatio = 0 then l1First = w.globalTick / w.l1TickRatio
      else l1First = w.globalTick / w.l1TickRatio + 1) (expired : List T) :
    ∃ w' keys, cascade w expired = some (w', expired ++ w.pending.items keys) ∧
      Linked w' none [] ∧ SameShape w w' ∧ w'.globalTick = w.globalTick ∧
      Timed w' (w.globalTick + 1) (w.globalTick + (w.levels .l0).slotCount)
        (w.globalTick / w.l1TickRatio + 1) [] ∧
      Batch w.pending w'.pending w.globalTick w.globalTick keys := by
  unfold cascade
  by_cases hmul : w.globalTick % w.l1TickRatio = 0
  · rw [if_pos hmul] at hl1
    rw [if_pos hmul]
    subst hl1
    obtain ⟨keys, htaken, hfiled⟩ := h.take .l1
      ((w.globalTick / w.l1TickRatio) &&& (w.levels .l1).mask)
    have hshape := SameShape.setSlot w .l1
      ((w.globalTick / w.l1TickRatio) &&& (w.levels .l1).mask) none
    -- what stays in `L1` belongs to a later multiple of the ratio
    have ht' : Timed w (w.globalTick + 1) (w.globalTick + (w.levels .l0).slotCount)
        (w.globalTick / w.l1TickRatio + 1) keys := by
      refine ⟨fun k e he _ => ht.l0 k e he (List.not_mem_nil), ?_, ht.bound⟩
      intro k e he hnot hlevel
      have hle := ht.l1 k e he (List.not_mem_nil) hlevel
      refine Nat.lt_of_le_of_ne hle ?_
      intro heq
      refine hnot ((hfiled k).mpr ⟨e, he, hlevel, ?_⟩)
      rw [heq]
      rfl
    have hdue : ∀ k ∈ keys, ∀ e, S.get w.tasks k = some e → w.globalTick ≤ e.deadline := by
      intro k hk e he
      obtain ⟨e', he', hlevel, _⟩ := (hfiled k).mp hk
      rw [he] at he'
      cases he'
      have hle := ht.l1 k e he (List.not_mem_nil) hlevel
      calc w.globalTick = w.globalTick / w.l1TickRatio * w.l1TickRatio :=
            (Nat.div_mul_cancel (Nat.dvd_of_mod_eq_zero hmul)).symm
        _ ≤ e.deadline := (Nat.le_div_iff_mul_le hs.ratio_pos).mp hle
    cases hhead : (w.levels .l1).slots ((w.globalTick / w.l1TickRatio) &&& (w.levels .l1).mask) with
    | none =>
      have hnil : keys = [] := Chain.nil_of_none (by rw [← hhead]; exact htaken.chain)
      subst hnil
      refine ⟨w, [], ?_, h, SameShape.refl w, rfl, ht', Batch.refl _ _ _⟩
      simp [hhead, Agenda.items]
    | some head =>
      rw [hhead] at htaken
      have ht'' : Timed (w.setSlot .l1
          ((w.globalTick / w.l1TickRatio) &&& (w.levels .l1).mask) none) (w.globalTick + 1)
          (w.globalTick + (w.levels .l0).slotCount) (w.globalTick / w.l1TickRatio + 1) keys :=
        ht'.of_get rfl fun _ _ he => he
      rw [← hshape.slotCount .l0] at ht''
      obtain ⟨w', keys', hrun, hlinked, hshape', htick, ht₂, hbatch⟩ := cascadeList_spec
        (S.len w.tasks) _ (some head) keys expired htaken (hs.of_sameShape hshape) ht'' hdue
        htaken.length_le
      rw [hshape.slotCount .l0] at ht₂
      simp only [hhead]
      exact ⟨w', keys', hrun, hlinked, hshape.trans hshape', htick, ht₂, hbatch⟩
  · rw [if_neg hmul] at hl1
    rw [if_neg hmul]
    subst hl1
    refine ⟨w, [], ?_, h, SameShape.refl w, rfl, ht, Batch.refl _ _ _⟩
    simp [Agenda.items]

end Veloq.Timing.Wheel
