import Veloq.Foundation.Chain
import Veloq.Foundation.Agenda
import Veloq.Timing.Model
set_option autoImplicit false

/-!
# Timing: how the entries of a wheel are linked

`Linked w current detached`: every slot of every level holds a list of exactly the
stored entries that belong there, except that `detached`, the list starting at
`current`, has been taken out of its slot and is being worked on.  Between the
operations of the wheel nothing is detached.

One lemma for each elementary step (a slot is taken, an entry is stored, linked,
removed or changed in place) says how the two lists move.
-/

namespace Veloq.Timing.Wheel

open Veloq.Foundation

variable {Key T : Type} [DecidableEq Key] {S : SlotMap Key (WheelEntry Key T)}
  {w : Wheel S} {k : Key} {entry : WheelEntry Key T} {level : LevelIdx} {idx : Nat}
  {current : Option Key} {detached : List Key}

/-- The successor of a stored entry. -/
def nextOf (S : SlotMap Key (WheelEntry Key T)) (tasks : S.Map) (k : Key) : Option (Option Key) :=
  (S.get tasks k).map WheelEntry.next

/-- The slot of a level in which a deadline is filed. -/
def slotOf (w : Wheel S) : LevelIdx → Nat → Nat
  | .l0, deadline => deadline &&& (w.levels .l0).mask
  | .l1, deadline => (deadline / w.l1TickRatio) &&& (w.levels .l1).mask

/-- The entry `k` is stored and belongs to slot `idx` of `level`. -/
def Filed (w : Wheel S) (k : Key) (level : LevelIdx) (idx : Nat) : Prop :=
  ∃ entry, S.get w.tasks k = some entry ∧ entry.level = level ∧
    w.slotOf level entry.deadline = idx

structure Linked (w : Wheel S) (current : Option Key) (detached : List Key) : Prop where
  slots : ∀ level idx, ∃ keys, Chain (nextOf S w.tasks) ((w.levels level).slots idx) keys ∧
    keys.Nodup ∧ ∀ k, k ∈ keys ↔ k ∉ detached ∧ w.Filed k level idx
  chain : Chain (nextOf S w.tasks) current detached
  nodup : detached.Nodup

/-! ## Reading the slot map after a step -/

theorem nextOf_of_get (h : S.get w.tasks k = some entry) :
    nextOf S w.tasks k = some entry.next := by
  rw [nextOf, h]
  rfl

theorem nextOf_congr {tasks tasks' : S.Map} (h : S.get tasks' k = S.get tasks k) :
    nextOf S tasks' k = nextOf S tasks k := by
  rw [nextOf, nextOf, h]

theorem get_modify_of_ne {tasks : S.Map} {k' : Key} (f : WheelEntry Key T → WheelEntry Key T)
    (h : k' ≠ k) : S.get (S.modify tasks k f) k' = S.get tasks k' := by
  rw [S.get_modify, if_neg h]

theorem get_remove_of_ne {tasks : S.Map} {k' : Key} (h : k' ≠ k) :
    S.get (S.remove tasks k).1 k' = S.get tasks k' := by
  rw [S.get_remove, if_neg h]

/-! ## Reading the levels after a slot was written -/

theorem setSlot_slots (w : Wheel S) (level : LevelIdx) (idx : Nat) (head : Option Key)
    (level' : LevelIdx) (idx' : Nat) :
    ((w.setSlot level idx head).levels level').slots idx' =
      if level' = level ∧ idx' = idx then head else (w.levels level').slots idx' := by
  unfold setSlot
  by_cases hl : level' = level
  · subst hl
    by_cases hi : idx' = idx
    · subst hi
      simp
    · simp [hi]
  · simp [hl]

theorem setSlot_mask (w : Wheel S) (level : LevelIdx) (idx : Nat) (head : Option Key)
    (level' : LevelIdx) : ((w.setSlot level idx head).levels level').mask
      = (w.levels level').mask := by
  unfold setSlot
  by_cases hl : level' = level
  · subst hl
    simp
  · simp [hl]

theorem setSlot_slotCount (w : Wheel S) (level : LevelIdx) (idx : Nat) (head : Option Key)
    (level' : LevelIdx) : ((w.setSlot level idx head).levels level').slotCount
      = (w.levels level').slotCount := by
  unfold setSlot
  by_cases hl : level' = level
  · subst hl
    simp
  · simp [hl]

theorem slotOf_setSlot (w : Wheel S) (level : LevelIdx) (idx : Nat) (head : Option Key) :
    (w.setSlot level idx head).slotOf = w.slotOf := by
  funext level' deadline
  cases level' with
  | l0 => exact congrArg (deadline &&& ·) (setSlot_mask w level idx head .l0)
  | l1 => exact congrArg (deadline / w.l1TickRatio &&& ·) (setSlot_mask w level idx head .l1)

theorem filed_setSlot (w : Wheel S) (level : LevelIdx) (idx : Nat) (head : Option Key) :
    (w.setSlot level idx head).Filed = w.Filed := by
  funext k level' idx'
  unfold Filed
  rw [slotOf_setSlot]
  rfl

/-- Whether an entry is filed somewhere depends on this entry alone. -/
theorem filed_congr {tasks : S.Map} (h : S.get tasks k = S.get w.tasks k) :
    Filed { w with tasks := tasks } k level idx ↔ w.Filed k level idx := by
  unfold Filed
  rw [show S.get ({ w with tasks := tasks } : Wheel S).tasks k = S.get w.tasks k from h]
  exact Iff.rfl

/-! ## The elementary steps -/

namespace Linked

/-- A list whose keys are all detached from no slot: nothing else is detached. -/
theorem of_tick (h : Linked w current detached) (tick : Nat) :
    Linked { w with globalTick := tick } current detached :=
  ⟨h.slots, h.chain, h.nodup⟩

/-- The new wheel is empty. -/
theorem new (S : SlotMap Key (WheelEntry Key T)) (config : WheelConfig) :
    Linked (Wheel.new S config) none [] := by
  refine ⟨?_, Chain.nil, List.nodup_nil⟩
  intro level idx
  refine ⟨[], ?_, List.nodup_nil, ?_⟩
  · cases level <;> exact Chain.nil
  · intro k
    constructor
    · intro hk
      exact absurd hk (List.not_mem_nil)
    · rintro ⟨_, entry, hget, _⟩
      have hnone : S.get S.new k = none := S.get_new k
      rw [show S.get (Wheel.new S config).tasks k = none from hnone] at hget
      exact absurd hget (by simp)

/-- Taking the list of a slot detaches it. -/
theorem take (h : Linked w none []) (level : LevelIdx) (idx : Nat) :
    ∃ keys, Linked (w.setSlot level idx none) ((w.levels level).slots idx) keys ∧
      ∀ k, k ∈ keys ↔ w.Filed k level idx := by
  obtain ⟨keys, hchain, hnodup, hmem⟩ := h.slots level idx
  have hfiled : ∀ k, k ∈ keys ↔ w.Filed k level idx := by
    intro k
    rw [hmem k]
    simp
  refine ⟨keys, ⟨?_, hchain, hnodup⟩, hfiled⟩
  intro level' idx'
  rw [setSlot_slots, filed_setSlot]
  by_cases hslot : level' = level ∧ idx' = idx
  · rw [if_pos hslot]
    obtain ⟨rfl, rfl⟩ := hslot
    refine ⟨[], Chain.nil, List.nodup_nil, ?_⟩
    intro k
    rw [hfiled k]
    simp
  · rw [if_neg hslot]
    obtain ⟨keys', hchain', hnodup', hmem'⟩ := h.slots level' idx'
    refine ⟨keys', hchain', hnodup', ?_⟩
    intro k
    rw [hmem' k, hfiled k]
    -- an entry is filed in one slot only
    constructor
    · rintro ⟨_, hk⟩
      refine ⟨?_, hk⟩
      rintro ⟨entry, hget, hlevel, hidx⟩
      obtain ⟨entry', hget', hlevel', hidx'⟩ := hk
      rw [hget] at hget'
      cases hget'
      rw [← hlevel, hlevel'] at hslot hidx
      exact hslot ⟨rfl, by rw [← hidx', hidx]⟩
    · rintro ⟨_, hk⟩
      exact ⟨List.not_mem_nil, hk⟩

/-- Storing an entry detaches it: it is not linked anywhere yet. -/
theorem store (h : Linked w none []) (hnext : entry.next = none) :
    Linked { w with tasks := (S.insert w.tasks entry).1 } (some (S.insert w.tasks entry).2)
      [(S.insert w.tasks entry).2] := by
  set key := (S.insert w.tasks entry).2 with hkey
  have hfresh : S.get w.tasks key = none := S.get_key w.tasks entry
  have hother : ∀ j, j ≠ key → S.get (S.insert w.tasks entry).1 j = S.get w.tasks j := by
    intro j hj
    rw [S.get_insert, if_neg hj]
  refine ⟨?_, ?_, List.nodup_singleton key⟩
  · intro level idx
    obtain ⟨keys, hchain, hnodup, hmem⟩ := h.slots level idx
    have hnotin : key ∉ keys := by
      intro hin
      obtain ⟨_, e, hget, _⟩ := (hmem key).mp hin
      rw [hfresh] at hget
      exact absurd hget (by simp)
    refine ⟨keys, hchain.congr ?_, hnodup, ?_⟩
    · intro j hj
      exact nextOf_congr (hother j fun hjk => hnotin (hjk ▸ hj))
    · intro j
      rw [hmem j, List.mem_singleton]
      by_cases hj : j = key
      · subst hj
        refine ⟨fun hk => absurd ((hmem key).mpr hk) hnotin, fun hk => absurd rfl hk.1⟩
      · rw [filed_congr (hother j hj)]
        simp [hj]
  · refine Chain.cons ?_ Chain.nil
    have hget : S.get (S.insert w.tasks entry).1 key = some entry := by
      rw [S.get_insert, if_pos hkey]
    rw [nextOf, hget, ← hnext]
    rfl

/-- The first detached entry is linked into the slot it belongs to. -/
theorem link (h : Linked w (some k) (k :: detached)) (hget : S.get w.tasks k = some entry)
    (hidx : w.slotOf level entry.deadline = idx) :
    Linked (w.link k level idx) entry.next detached := by
  have hnotin : k ∉ detached := (List.nodup_cons.mp h.nodup).1
  set tasks := S.modify w.tasks k fun e =>
    { e with next := (w.levels level).slots idx, level := level, slotIndex := idx % 2 ^ 32 }
    with htasks
  have hother : ∀ j, j ≠ k → S.get tasks j = S.get w.tasks j := fun j hj =>
    get_modify_of_ne _ hj
  have hself : S.get tasks k = some { entry with
      next := (w.levels level).slots idx, level := level, slotIndex := idx % 2 ^ 32 } := by
    rw [htasks, S.get_modify, if_pos rfl, hget]
    rfl
  refine ⟨?_, ?_, (List.nodup_cons.mp h.nodup).2⟩
  · intro level' idx'
    obtain ⟨keys, hchain, hnodup, hmem⟩ := h.slots level' idx'
    have hknot : k ∉ keys := fun hin => ((hmem k).mp hin).1 (List.mem_cons_self ..)
    have hchain' : Chain (nextOf S tasks) ((w.levels level').slots idx') keys :=
      hchain.congr fun j hj => nextOf_congr (hother j fun hjk => hknot (hjk ▸ hj))
    have hfiled : ∀ j, j ≠ k → ((w.link k level idx).Filed j level' idx' ↔
        w.Filed j level' idx') := by
      intro j hj
      unfold Wheel.link
      rw [filed_setSlot]
      exact filed_congr (hother j hj)
    have hkfiled : (w.link k level idx).Filed k level' idx' ↔ level' = level ∧ idx' = idx := by
      unfold Wheel.link
      rw [filed_setSlot]
      unfold Filed
      constructor
      · rintro ⟨e, he, hl, hi⟩
        rw [show S.get ({ w with tasks := tasks } : Wheel S).tasks k = _ from hself] at he
        cases he
        subst hl
        exact ⟨rfl, hi.symm.trans hidx⟩
      · rintro ⟨rfl, rfl⟩
        exact ⟨_, hself, rfl, hidx⟩
    have hslots : ((w.link k level idx).levels level').slots idx' =
        if level' = level ∧ idx' = idx then some k else (w.levels level').slots idx' :=
      setSlot_slots { w with tasks := tasks } level idx (some k) level' idx'
    have hmem' : ∀ j, j ≠ k → (j ∈ keys ↔ j ∉ detached ∧
        (w.link k level idx).Filed j level' idx') := by
      intro j hj
      rw [hfiled j hj, hmem j, List.mem_cons]
      simp [hj]
    rw [hslots]
    by_cases hslot : level' = level ∧ idx' = idx
    · rw [if_pos hslot]
      refine ⟨k :: keys, ?_, List.nodup_cons.mpr ⟨hknot, hnodup⟩, ?_⟩
      · refine Chain.cons ?_ hchain'
        obtain ⟨rfl, rfl⟩ := hslot
        rw [show (w.link k level' idx').tasks = tasks from rfl, nextOf, hself]
        rfl
      · intro j
        by_cases hj : j = k
        · subst hj
          exact ⟨fun _ => ⟨hnotin, hkfiled.mpr hslot⟩, fun _ => List.mem_cons_self ..⟩
        · rw [← hmem' j hj, List.mem_cons]
          simp [hj]
    · rw [if_neg hslot]
      refine ⟨keys, hchain', hnodup, ?_⟩
      intro j
      by_cases hj : j = k
      · subst hj
        exact ⟨fun hin => absurd hin hknot, fun hk => absurd (hkfiled.mp hk.2) hslot⟩
      · exact hmem' j hj
  · obtain ⟨rest, tail, hcons, hnext, htail⟩ := Chain.exists_of_some h.chain
    cases hcons
    rw [nextOf_of_get hget] at hnext
    cases hnext
    exact htail.congr fun j hj => nextOf_congr (hother j fun hjk => hnotin (hjk ▸ hj))

/-- The first detached entry is removed from the slot map. -/
theorem remove (h : Linked w (some k) (k :: detached)) (hget : S.get w.tasks k = some entry) :
    Linked { w with tasks := (S.remove w.tasks k).1 } entry.next detached := by
  have hnotin : k ∉ detached := (List.nodup_cons.mp h.nodup).1
  have hother : ∀ j, j ≠ k → S.get (S.remove w.tasks k).1 j = S.get w.tasks j := fun j hj =>
    get_remove_of_ne hj
  refine ⟨?_, ?_, (List.nodup_cons.mp h.nodup).2⟩
  · intro level idx
    obtain ⟨keys, hchain, hnodup, hmem⟩ := h.slots level idx
    have hknot : k ∉ keys := fun hin => ((hmem k).mp hin).1 (List.mem_cons_self ..)
    refine ⟨keys, hchain.congr ?_, hnodup, ?_⟩
    · intro j hj
      exact nextOf_congr (hother j fun hjk => hknot (hjk ▸ hj))
    · intro j
      by_cases hj : j = k
      · subst hj
        refine ⟨fun hin => absurd hin hknot, ?_⟩
        rintro ⟨_, e, he, _⟩
        have hnone : S.get (S.remove w.tasks j).1 j = none := by
          rw [S.get_remove, if_pos rfl]
        rw [show S.get ({ w with tasks := (S.remove w.tasks j).1 } : Wheel S).tasks j = none
          from hnone] at he
        exact absurd he (by simp)
      · rw [filed_congr (hother j hj), hmem j, List.mem_cons]
        simp [hj]
  · obtain ⟨rest, tail, hcons, hnext, htail⟩ := Chain.exists_of_some h.chain
    cases hcons
    rw [nextOf_of_get hget] at hnext
    cases hnext
    exact htail.congr fun j hj => nextOf_congr (hother j fun hjk => hnotin (hjk ▸ hj))

/-- A change in place that keeps the deadline, the successor and the level of the
entry keeps the links. -/
theorem modify (h : Linked w current detached) (f : WheelEntry Key T → WheelEntry Key T)
    (hf : ∀ e, (f e).deadline = e.deadline ∧ (f e).next = e.next ∧ (f e).level = e.level) :
    Linked { w with tasks := S.modify w.tasks k f } current detached := by
  have hnext : ∀ j, nextOf S (S.modify w.tasks k f) j = nextOf S w.tasks j := by
    intro j
    unfold nextOf
    rw [S.get_modify]
    split
    · rename_i hj
      subst hj
      cases S.get w.tasks j with
      | none => rfl
      | some e => exact congrArg some (hf e).2.1
    · rfl
  have hfiled : ∀ j level idx,
      Filed { w with tasks := S.modify w.tasks k f } j level idx ↔ w.Filed j level idx := by
    intro j level idx
    by_cases hj : j = k
    · subst hj
      unfold Filed
      constructor
      · rintro ⟨e, he, hl, hi⟩
        rw [show S.get ({ w with tasks := S.modify w.tasks j f } : Wheel S).tasks j =
          (S.get w.tasks j).map f by rw [S.get_modify, if_pos rfl]] at he
        obtain ⟨e', he', rfl⟩ := Option.map_eq_some_iff.mp he
        refine ⟨e', he', (hf e').2.2 ▸ hl, ?_⟩
        rw [← (hf e').1]
        exact hi
      · rintro ⟨e, he, hl, hi⟩
        refine ⟨f e, ?_, (hf e).2.2.trans hl, ?_⟩
        · rw [S.get_modify, if_pos rfl, he]
          rfl
        · rw [(hf e).1]
          exact hi
    · exact filed_congr (get_modify_of_ne f hj)
  refine ⟨?_, h.chain.congr fun j _ => hnext j, h.nodup⟩
  intro level idx
  obtain ⟨keys, hchain, hnodup, hmem⟩ := h.slots level idx
  refine ⟨keys, hchain.congr fun j _ => hnext j, hnodup, ?_⟩
  intro j
  rw [hmem j, hfiled]

/-- A detached list is no longer than the number of entries stored. -/
theorem length_le (h : Linked w current detached) : detached.length ≤ S.len w.tasks := by
  refine S.length_le_len w.tasks detached h.nodup ?_
  intro k hk hnone
  refine h.chain.stored k hk ?_
  rw [nextOf, hnone]
  rfl

/-- The first detached entry is stored. -/
theorem exists_entry (h : Linked w (some k) detached) :
    ∃ entry tail, detached = k :: tail ∧ S.get w.tasks k = some entry := by
  obtain ⟨rest, tail, rfl, hnext, _⟩ := Chain.exists_of_some h.chain
  unfold nextOf at hnext
  obtain ⟨entry, hentry, _⟩ := Option.map_eq_some_iff.mp hnext
  exact ⟨entry, tail, rfl, hentry⟩

end Linked

end Veloq.Timing.Wheel
