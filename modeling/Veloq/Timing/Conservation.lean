import Mathlib.Data.List.Forall2
import Veloq.Foundation.Run
import Veloq.Timing.Runs
set_option autoImplicit false

/-!
# Timing: the wheel loses and repeats nothing

What the wheel does with its lists does not depend on the deadlines, on the
configuration or on the size of the tick count: `Linked` is kept by every operation that
returns, and only a ratio of zero keeps one from returning.  The items are therefore
followed here without their deadlines (`Agenda.undated`), which turns what an operation
hands out into a `Batch` over a single point in time.

`History` records what was inserted under which id and what came out, by `cancel` or by
`advance`.  The ids that have left are a list that only grows, in step with the output.
-/

namespace Veloq.Timing.Wheel

open Veloq.Foundation

variable {Key T : Type} [DecidableEq Key] {S : SlotMap Key (WheelEntry Key T)}
  {w w' : Wheel S} {k : Key} {entry : WheelEntry Key T} {detached : List Key}

/-- `keys` lost their items between two wheels, each once. -/
abbrev Released (w w' : Wheel S) (keys : List Key) : Prop :=
  Batch w.pending.undated w'.pending.undated 0 0 keys

theorem Released.refl (w : Wheel S) : Released w w [] := Batch.refl _ 0 0

theorem Released.trans {w'' : Wheel S} {keys keys' : List Key} (h : Released w w' keys)
    (h' : Released w' w'' keys') : Released w w'' (keys ++ keys') :=
  Batch.trans h h' (Nat.le_refl 0) (Nat.le_refl 0) (Nat.le_refl 0)

theorem Released.items_append {w'' : Wheel S} {keys keys' : List Key} (h : Released w w' keys)
    (h' : Released w' w'' keys') :
    w.pending.items keys ++ w'.pending.items keys' = w.pending.items (keys ++ keys') := by
  have happend := Batch.items_append h h'
  rw [Agenda.items_undated, Agenda.items_undated, Agenda.items_undated] at happend
  exact happend

/-- Entries that leave the slot map take their items along. -/
theorem released_of_gone {keys : List Key} (hnodup : keys.Nodup)
    (hget : ∀ k, S.get w'.tasks k = if k ∈ keys then none else S.get w.tasks k) :
    ∃ keys', Released w w' keys' ∧ w.pending.items keys' = w.pending.items keys := by
  have hrest : ∀ k, w'.pending.undated k = if k ∈ keys then none else w.pending.undated k := by
    intro k
    unfold Agenda.undated pending
    rw [hget k]
    split <;> rfl
  have hdue : ∀ k ∈ keys, ∀ u, w.pending.undated.DueAt k u → u = 0 := by
    rintro k _ u ⟨item, hitem⟩
    obtain ⟨p, _, hp⟩ := Option.map_eq_some_iff.mp hitem
    exact (congrArg Prod.snd hp).symm
  obtain ⟨keys', hbatch, hitems⟩ := Batch.of_gone hnodup hdue hrest
  rw [Agenda.items_undated, Agenda.items_undated] at hitems
  exact ⟨keys', hbatch, hitems⟩

/-! ## The operations, whatever the deadlines -/

/-- An entry always goes to the slot of its deadline. -/
theorem determineLocation_slotOf {deadline : Nat} {location : LevelIdx × Nat}
    (h : w.determineLocation deadline = some location) :
    w.slotOf location.1 deadline = location.2 := by
  unfold determineLocation at h
  simp only at h
  split at h
  · cases h
    rfl
  · split at h
    · exact absurd h (by simp)
    · cases h
      rfl

/-- Only a ratio of zero leaves an entry without a place. -/
theorem determineLocation_isSome (hratio : w.l1TickRatio ≠ 0) (deadline : Nat) :
    ∃ location, w.determineLocation deadline = some location := by
  unfold determineLocation
  simp only [if_neg hratio]
  split <;> exact ⟨_, rfl⟩

/-- `insert` stores the item under a new id. -/
theorem insert_linked (h : Linked w none []) {item : T} {delay : Duration}
    (hrun : w.insert item delay = some (w', k)) :
    Linked w' none [] ∧ w'.l1TickRatio = w.l1TickRatio ∧ w.pending k = none ∧
      ∃ due, w'.pending = w.pending.add k item due := by
  unfold insert at hrun
  obtain ⟨location, hloc, hstored⟩ := Option.map_eq_some_iff.mp hrun
  simp only [Prod.mk.injEq] at hstored
  obtain ⟨rfl, rfl⟩ := hstored
  set due := wrappingAdd w.globalTick (max (w.delayToTicks delay) 1)
  set entry : WheelEntry Key T :=
    { item := some item, deadline := due, next := none, level := location.1,
      slotIndex := location.2 % 2 ^ 32 }
  have hget : S.get (S.insert w.tasks entry).1 (S.insert w.tasks entry).2 = some entry := by
    rw [S.get_insert, if_pos rfl]
  refine ⟨(h.store rfl).link hget (determineLocation_slotOf hloc), rfl, ?_, due, ?_⟩
  · rw [pending, S.get_key w.tasks entry]
    rfl
  · rw [pending_link]
    funext j
    unfold pending Agenda.add
    rw [S.get_insert]
    split <;> rfl

/-- The slots of `L0`, one after the other. -/
theorem drainSlots_linked (idxs : List Nat) (w : Wheel S) (expired : List T)
    (h : Linked w none []) :
    ∃ w' keys, drainSlots idxs w expired = some (w', expired ++ w.pending.items keys) ∧
      Linked w' none [] ∧ SameShape w w' ∧ Released w w' keys := by
  induction idxs generalizing w expired with
  | nil =>
    refine ⟨w, [], ?_, h, SameShape.refl w, Released.refl w⟩
    simp [drainSlots, Agenda.items]
  | cons idx idxs ih =>
    obtain ⟨w₁, keys, hrun₁, hlinked₁, hshape₁, -, hnodup, -, hget⟩ := drainSlot_spec h idx expired
    obtain ⟨keys₁, hreleased₁, hitems⟩ := released_of_gone hnodup hget
    rw [← hitems] at hrun₁
    obtain ⟨w₂, keys₂, hrun₂, hlinked₂, hshape₂, hreleased₂⟩ :=
      ih w₁ (expired ++ w.pending.items keys₁) hlinked₁
    refine ⟨w₂, keys₁ ++ keys₂, ?_, hlinked₂, hshape₁.trans hshape₂, hreleased₁.trans hreleased₂⟩
    rw [drainSlots, hrun₁, Option.bind_some, hrun₂, List.append_assoc,
      hreleased₁.items_append hreleased₂]

/-- One entry of a list of `L1` is dropped, handed out or linked anew. -/
theorem cascadeEntry_linked (h : Linked w (some k) (k :: detached)) (hratio : w.l1TickRatio ≠ 0)
    (hget : S.get w.tasks k = some entry) (expired : List T) :
    ∃ w' keys, cascadeEntry w k entry expired = some (w', expired ++ w.pending.items keys) ∧
      Linked w' entry.next detached ∧ SameShape w w' ∧ Released w w' keys := by
  have hremoved := SameShape.of_tasks w (S.remove w.tasks k).1
  have hgone : ∀ j, S.get (S.remove w.tasks k).1 j = if j ∈ [k] then none else S.get w.tasks j := by
    intro j
    rw [S.get_remove]
    simp only [List.mem_singleton]
  obtain ⟨keys, hreleased, hitems⟩ : ∃ keys,
      Released w { w with tasks := (S.remove w.tasks k).1 } keys ∧
        w.pending.items keys = w.pending.items [k] :=
    released_of_gone (List.nodup_singleton k) hgone
  have hown : w.pending.items [k] = entry.item.toList := by
    unfold Agenda.items
    rw [List.filterMap_cons, pending_of_get hget]
    cases entry.item <;> rfl
  rw [hown] at hitems
  cases hitem : entry.item with
  | none =>
    refine ⟨_, keys, ?_, h.remove hget, hremoved, hreleased⟩
    rw [hitems, hitem]
    simp [cascadeEntry, hitem]
  | some item =>
    by_cases hnow : entry.deadline ≤ w.globalTick
    · refine ⟨_, keys, ?_, h.remove hget, hremoved, hreleased⟩
      rw [hitems, hitem]
      simp [cascadeEntry, hitem, hnow, S.remove_value, hget]
    · obtain ⟨location, hloc⟩ := determineLocation_isSome hratio entry.deadline
      refine ⟨w.link k location.1 location.2, [], ?_, h.link hget (determineLocation_slotOf hloc),
        SameShape.link w k location.1 location.2, ?_⟩
      · simp [cascadeEntry, hitem, hnow, hloc, Agenda.items]
      · unfold Released
        rw [pending_link]
        exact Batch.refl _ 0 0

/-- `cascade_list` walks the list it detached, to its end. -/
theorem cascadeList_linked (fuel : Nat) (w : Wheel S) (current : Option Key) (detached : List Key)
    (expired : List T) (h : Linked w current detached) (hratio : w.l1TickRatio ≠ 0)
    (hfuel : detached.length ≤ fuel) :
    ∃ w' keys, cascadeList fuel w current expired = some (w', expired ++ w.pending.items keys) ∧
      Linked w' none [] ∧ SameShape w w' ∧ Released w w' keys := by
  induction detached generalizing fuel w current expired with
  | nil =>
    cases current with
    | some key => exact absurd h.chain id
    | none =>
      refine ⟨w, [], ?_, h, SameShape.refl w, Released.refl w⟩
      rw [cascadeList]
      simp [Agenda.items]
  | cons key tail ih =>
    cases current with
    | none => exact absurd h.chain id
    | some key' =>
      obtain ⟨entry, tail', hcons, hget⟩ := h.exists_entry
      cases hcons
      cases fuel with
      | zero => exact absurd hfuel (by simp)
      | succ fuel =>
        obtain ⟨w₁, keys₁, hrun₁, hlinked₁, hshape₁, hreleased₁⟩ :=
          cascadeEntry_linked h hratio hget expired
        obtain ⟨w₂, keys₂, hrun₂, hlinked₂, hshape₂, hreleased₂⟩ :=
          ih fuel w₁ entry.next (expired ++ w.pending.items keys₁) hlinked₁
            (by rw [hshape₁.ratio]; exact hratio) (by simpa using hfuel)
        refine ⟨w₂, keys₁ ++ keys₂, ?_, hlinked₂, hshape₁.trans hshape₂,
          hreleased₁.trans hreleased₂⟩
        rw [cascadeList]
        simp only [hget]
        rw [hrun₁, Option.bind_some, hrun₂, List.append_assoc, hreleased₁.items_append hreleased₂]

/-- The slot of `L1` that falls due. -/
theorem cascade_linked (h : Linked w none []) (hratio : w.l1TickRatio ≠ 0) (expired : List T) :
    ∃ w' keys, cascade w expired = some (w', expired ++ w.pending.items keys) ∧
      Linked w' none [] ∧ SameShape w w' ∧ Released w w' keys := by
  have hnothing : some (w, expired) = some (w, expired ++ w.pending.items []) := by
    simp [Agenda.items]
  unfold cascade
  by_cases hmul : w.globalTick % w.l1TickRatio = 0
  · rw [if_pos hmul]
    set idx := (w.globalTick / w.l1TickRatio) &&& (w.levels .l1).mask
    cases hhead : (w.levels .l1).slots idx with
    | none =>
      simp only [hhead]
      exact ⟨w, [], hnothing, h, SameShape.refl w, Released.refl w⟩
    | some head =>
      obtain ⟨keys, htaken, -⟩ := h.take .l1 idx
      rw [hhead] at htaken
      obtain ⟨w', keys', hrun, hlinked, hshape, hreleased⟩ := cascadeList_linked (S.len w.tasks) _
        (some head) keys expired htaken hratio htaken.length_le
      simp only [hhead]
      exact ⟨w', keys', hrun, hlinked, (SameShape.setSlot w .l1 idx none).trans hshape, hreleased⟩
  · rw [if_neg hmul]
    exact ⟨w, [], hnothing, h, SameShape.refl w, Released.refl w⟩

/-- One step of `advance`. -/
theorem advanceStep_linked (h : Linked w none []) (hratio : w.l1TickRatio ≠ 0) (step : Nat)
    (expired : List T) :
    ∃ w' keys, advanceStep w step expired = some (w', expired ++ w.pending.items keys) ∧
      Linked w' none [] ∧ SameShape w w' ∧ Released w w' keys := by
  obtain ⟨w₁, keys₁, hrun₁, hlinked₁, hshape₁, hreleased₁⟩ :=
    drainSlots_linked (w.stepSlots step) w expired h
  obtain ⟨w₂, keys₂, hrun₂, hlinked₂, hshape₂, hreleased₂⟩ := cascade_linked
    (hlinked₁.of_tick (wrappingAdd w₁.globalTick step)) (by rw [← hshape₁.ratio] at hratio; exact hratio)
    (expired ++ w.pending.items keys₁)
  have hmoved : SameShape w { w₁ with globalTick := wrappingAdd w₁.globalTick step } :=
    ⟨hshape₁.mask, hshape₁.slotCount, hshape₁.capacity, hshape₁.ratio, hshape₁.tick⟩
  refine ⟨w₂, keys₁ ++ keys₂, ?_, hlinked₂, hmoved.trans hshape₂,
    Released.trans hreleased₁ hreleased₂⟩
  unfold advanceStep
  rw [hrun₁, Option.bind_some, hrun₂, List.append_assoc]
  exact congrArg (fun items => some (w₂, expired ++ items))
    (Released.items_append hreleased₁ hreleased₂)

/-- The loop of `advance` takes at least one tick a step. -/
theorem advanceLoop_linked (fuel : Nat) (w : Wheel S) (remaining : Nat) (expired : List T)
    (h : Linked w none []) (hratio : w.l1TickRatio ≠ 0) (hfuel : remaining ≤ fuel) :
    ∃ w' keys, advanceLoop fuel w remaining expired =
        some (w', expired ++ w.pending.items keys) ∧
      Linked w' none [] ∧ SameShape w w' ∧ Released w w' keys := by
  induction fuel generalizing w remaining expired with
  | zero =>
    obtain rfl : remaining = 0 := Nat.le_zero.mp hfuel
    refine ⟨w, [], ?_, h, SameShape.refl w, Released.refl w⟩
    simp [advanceLoop, Agenda.items]
  | succ fuel ih =>
    cases remaining with
    | zero =>
      refine ⟨w, [], ?_, h, SameShape.refl w, Released.refl w⟩
      simp [advanceLoop, Agenda.items]
    | succ remaining =>
      have hmod : w.globalTick % w.l1TickRatio < w.l1TickRatio :=
        Nat.mod_lt _ (Nat.pos_of_ne_zero hratio)
      have hpos : 0 < w.stepLength (remaining + 1) := by
        unfold stepLength
        omega
      obtain ⟨w₁, keys₁, hrun₁, hlinked₁, hshape₁, hreleased₁⟩ :=
        advanceStep_linked h hratio (w.stepLength (remaining + 1)) expired
      obtain ⟨w₂, keys₂, hrun₂, hlinked₂, hshape₂, hreleased₂⟩ :=
        ih w₁ (remaining + 1 - w.stepLength (remaining + 1)) (expired ++ w.pending.items keys₁)
          hlinked₁ (by rw [hshape₁.ratio]; exact hratio) (by omega)
      refine ⟨w₂, keys₁ ++ keys₂, ?_, hlinked₂, hshape₁.trans hshape₂,
        hreleased₁.trans hreleased₂⟩
      rw [advanceLoop, if_neg hratio, hrun₁, Option.bind_some, hrun₂, List.append_assoc,
        hreleased₁.items_append hreleased₂]

/-- `advance` appends the items that leave.  With a ratio of zero it returns only when
no tick passes. -/
theorem advance_linked (h : Linked w none []) {elapsed : Duration} {expired expired' : List T}
    (hrun : w.advance elapsed expired = some (w', expired')) :
    ∃ keys, expired' = expired ++ w.pending.items keys ∧ Linked w' none [] ∧ Released w w' keys := by
  unfold advance at hrun
  by_cases hratio : w.l1TickRatio = 0
  · cases hticks : w.delayToTicks elapsed with
    | zero =>
      simp only [hticks, advanceLoop] at hrun
      cases hrun
      exact ⟨[], by simp [Agenda.items], h, Released.refl w⟩
    | succ ticks =>
      simp only [hticks, advanceLoop, if_pos hratio] at hrun
      exact absurd hrun (by simp)
  · obtain ⟨w₁, keys, hrun₁, hlinked, -, hreleased⟩ :=
      advanceLoop_linked _ w (w.delayToTicks elapsed) expired h hratio (Nat.le_refl _)
    cases hrun₁.symm.trans hrun
    exact ⟨keys, rfl, hlinked, hreleased⟩

/-- `cancel` keeps the links; the item leaves if it was there. -/
theorem cancel_linked (h : Linked w none []) (k : Key) :
    Linked (w.cancel k).1 none [] ∧ ∃ keys, (w.cancel k).2.toList = w.pending.items keys ∧
      Released w (w.cancel k).1 keys := by
  obtain ⟨hitem, hpending⟩ := cancel_pending w k
  refine ⟨h.modify _ fun e => ⟨rfl, rfl, rfl⟩, ?_⟩
  have hrest : (w.cancel k).1.pending.undated = w.pending.undated.drop k := by
    rw [hpending]
    funext j
    unfold Agenda.undated Agenda.drop
    split <;> rfl
  rw [hitem]
  unfold Released
  rw [hrest]
  cases hk : w.pending k with
  | none =>
    refine ⟨[], rfl, ?_⟩
    have hsame : w.pending.undated.drop k = w.pending.undated := by
      funext j
      unfold Agenda.drop
      split
      · rename_i hj
        rw [hj, Agenda.undated, hk]
        rfl
      · rfl
    rw [hsame]
    exact Batch.refl _ 0 0
  | some p =>
    refine ⟨[k], by simp [Agenda.items, hk], ?_⟩
    have hdue : w.pending.undated.DueAt k 0 := ⟨p.1, by rw [Agenda.undated, hk]; rfl⟩
    exact Batch.single hdue (Nat.le_refl 0) (Nat.le_refl 0)

/-! ## Histories -/

/-- What users of a wheel do. -/
inductive WheelEvent (Key T : Type) where
  | insert (item : T) (delay : Duration)
  | cancel (k : Key)
  | advance (elapsed : Duration) (expired : List T)

/-- A wheel with what was inserted into it, under the ids it gave out, and what came out
of it again, in order. -/
structure History (S : SlotMap Key (WheelEntry Key T)) where
  wheel : Wheel S
  inserted : List (Key × T)
  out : List T

namespace History

def new (S : SlotMap Key (WheelEntry Key T)) (config : WheelConfig) : History S :=
  { wheel := Wheel.new S config
    inserted := []
    out := [] }

/-- One operation, if it returns. -/
def next (h : History S) : WheelEvent Key T → Option (History S)
  | .insert item delay => (h.wheel.insert item delay).map fun r =>
      { wheel := r.1
        inserted := h.inserted ++ [(r.2, item)]
        out := h.out }
  | .cancel k => some
      { wheel := (h.wheel.cancel k).1
        inserted := h.inserted
        out := h.out ++ (h.wheel.cancel k).2.toList }
  | .advance elapsed expired => (h.wheel.advance elapsed expired).map fun r =>
      { wheel := r.1
        inserted := h.inserted
        out := h.out ++ r.2.drop expired.length }

/-- Operations as steps. -/
def Step (h : History S) (e : WheelEvent Key T) (h' : History S) : Prop := h.next e = some h'

/-- The slot map does not give out an id again. -/
def FreshId (h : History S) (e : WheelEvent Key T) : Prop :=
  ∀ item delay, e = .insert item delay → ∀ w' k, h.wheel.insert item delay = some (w', k) →
    k ∉ h.inserted.map Prod.fst

/-- The ids in `left` have paid out their items, the others still hold them. -/
structure Settled (h : History S) (left : List Key) : Prop where
  linked : Linked h.wheel none []
  ids : (h.inserted.map Prod.fst).Nodup
  nodup : left.Nodup
  paid : List.Forall₂ (fun k item => (k, item) ∈ h.inserted) left h.out
  held : ∀ k item, (k, item) ∈ h.inserted → k ∉ left →
    (h.wheel.pending k).map Prod.fst = some item
  gone : ∀ k ∈ left, h.wheel.pending k = none
  known : ∀ k p, h.wheel.pending k = some p → k ∈ h.inserted.map Prod.fst

namespace Settled

variable {h h' : History S} {left : List Key}

theorem new (S : SlotMap Key (WheelEntry Key T)) (config : WheelConfig) :
    Settled (History.new S config) [] := by
  refine ⟨Linked.new S config, List.nodup_nil, List.nodup_nil, List.Forall₂.nil, ?_, ?_, ?_⟩
  · exact fun k item hin => absurd hin (List.not_mem_nil)
  · exact fun k hin => absurd hin (List.not_mem_nil)
  · intro k p hp
    have hnone : pending (Wheel.new S config) k = none := by
      rw [pending, show S.get (Wheel.new S config).tasks k = none from S.get_new k]
      rfl
    exact absurd (hnone.symm.trans hp) (by simp)

/-- Items that leave are paid out once. -/
theorem release {w' : Wheel S} {keys : List Key} (hs : Settled h left) (hlinked : Linked w' none [])
    (hreleased : Released h.wheel w' keys) :
    Settled ⟨w', h.inserted, h.out ++ h.wheel.pending.items keys⟩ (left ++ keys) := by
  have hrest : ∀ k, (w'.pending k).map Prod.fst =
      if k ∈ keys then none else (h.wheel.pending k).map Prod.fst := by
    intro k
    have hk := congrArg (Option.map Prod.fst) (hreleased.rest k)
    unfold Agenda.undated at hk
    rw [Option.map_map] at hk
    refine hk.trans ?_
    split
    · rfl
    · rw [Option.map_map]
      rfl
  -- what leaves was held, under an id that had not left
  have hheld : ∀ k ∈ keys, k ∉ left ∧ ∃ p, h.wheel.pending k = some p ∧ (k, p.1) ∈ h.inserted := by
    intro k hk
    obtain ⟨t, ⟨item, hitem⟩, -⟩ := hreleased.due k hk
    obtain ⟨p, hp, -⟩ := Option.map_eq_some_iff.mp hitem
    have hnot : k ∉ left := fun hin => absurd ((hs.gone k hin).symm.trans hp) (by simp)
    obtain ⟨⟨k', item'⟩, hin, rfl⟩ := List.mem_map.mp (hs.known k p hp)
    have hsame := hs.held k' item' hin hnot
    rw [hp] at hsame
    obtain rfl : p.1 = item' := Option.some.inj hsame
    exact ⟨hnot, p, hp, hin⟩
  refine ⟨hlinked, hs.ids, ?_, ?_, ?_, ?_, ?_⟩
  · exact List.Nodup.append hs.nodup hreleased.nodup fun k hin hk => (hheld k hk).1 hin
  · refine List.rel_append hs.paid ?_
    clear hreleased hrest
    induction keys with
    | nil => exact List.Forall₂.nil
    | cons k keys ih =>
      obtain ⟨-, p, hp, hin⟩ := hheld k (List.mem_cons_self ..)
      have hitems : h.wheel.pending.items (k :: keys) = p.1 :: h.wheel.pending.items keys := by
        unfold Agenda.items
        rw [List.filterMap_cons, hp]
        rfl
      rw [hitems]
      exact List.Forall₂.cons hin (ih fun j hj => hheld j (List.mem_cons_of_mem k hj))
  · intro k item hin hnot
    rw [hrest k, if_neg fun hk => hnot (List.mem_append_right left hk)]
    exact hs.held k item hin fun hk => hnot (List.mem_append_left keys hk)
  · intro k hk
    have hnone : (w'.pending k).map Prod.fst = none := by
      rw [hrest k]
      split
      · rfl
      · rename_i hnot
        rw [hs.gone k ((List.mem_append.mp hk).resolve_right hnot)]
        rfl
    exact Option.map_eq_none_iff.mp hnone
  · intro k p hp
    have hk := hrest k
    rw [hp] at hk
    split at hk
    · exact absurd hk (by simp)
    · obtain ⟨q, hq, -⟩ := Option.map_eq_some_iff.mp hk.symm
      exact hs.known k q hq

/-- What has left was inserted. -/
theorem issued (hs : Settled h left) (hk : k ∈ left) : ∃ item, (k, item) ∈ h.inserted := by
  have hpaid := hs.paid
  clear hs
  generalize h.out = out at hpaid
  induction hpaid with
  | nil => exact absurd hk (List.not_mem_nil)
  | cons hin _ ih =>
    rcases List.mem_cons.mp hk with rfl | hk
    · exact ⟨_, hin⟩
    · exact ih hk

/-- Every operation keeps the account; the ids that have left stay. -/
theorem step {e : WheelEvent Key T} (hs : Settled h left) (hfresh : h.FreshId e)
    (hstep : Step h e h') : ∃ keys, Settled h' (left ++ keys) := by
  cases e with
  | insert item delay =>
    obtain ⟨⟨w', k⟩, hrun, rfl⟩ := Option.map_eq_some_iff.mp hstep
    obtain ⟨hlinked, -, hnone, due, hpending⟩ := insert_linked hs.linked hrun
    have hnew := hfresh item delay rfl w' k hrun
    have hadd : ∀ j, w'.pending j = if j = k then some (item, due) else h.wheel.pending j := by
      intro j
      rw [hpending]
      rfl
    have hother : ∀ j item', (j, item') ∈ h.inserted → j ≠ k := by
      rintro j item' hin rfl
      exact hnew (List.mem_map_of_mem (f := Prod.fst) hin)
    refine ⟨[], ?_⟩
    rw [List.append_nil]
    refine ⟨hlinked, ?_, hs.nodup, ?_, ?_, ?_, ?_⟩
    · show ((h.inserted ++ [(k, item)]).map Prod.fst).Nodup
      rw [List.map_append]
      refine List.Nodup.append hs.ids (List.nodup_singleton k) fun j hj hk => ?_
      rw [List.map_singleton, List.mem_singleton] at hk
      rw [hk] at hj
      exact hnew hj
    · exact hs.paid.imp fun j item' hin => List.mem_append_left _ hin
    · intro j item' hin hnot
      rw [hadd j]
      rcases List.mem_append.mp hin with hold | hnew'
      · rw [if_neg (hother j item' hold)]
        exact hs.held j item' hold hnot
      · cases List.mem_singleton.mp hnew'
        rw [if_pos rfl]
        rfl
    · intro j hj
      obtain ⟨item', hin⟩ := hs.issued hj
      rw [hadd j, if_neg (hother j item' hin)]
      exact hs.gone j hj
    · intro j p hp
      show j ∈ (h.inserted ++ [(k, item)]).map Prod.fst
      rw [List.map_append, List.mem_append]
      rw [hadd j] at hp
      split at hp
      · rename_i hj
        exact Or.inr (by simp [hj])
      · exact Or.inl (hs.known j p hp)
  | cancel k =>
    cases hstep
    obtain ⟨hlinked, keys, hitems, hreleased⟩ := cancel_linked hs.linked k
    refine ⟨keys, ?_⟩
    rw [hitems]
    exact hs.release hlinked hreleased
  | advance elapsed expired =>
    obtain ⟨⟨w', expired'⟩, hrun, rfl⟩ := Option.map_eq_some_iff.mp hstep
    obtain ⟨keys, rfl, hlinked, hreleased⟩ := advance_linked hs.linked hrun
    refine ⟨keys, ?_⟩
    rw [List.drop_left]
    exact hs.release hlinked hreleased

/-- From a settled history on, only more ids leave. -/
theorem run (hs : Settled h left) (hrun : Run Step FreshId (fun g => g = h) h') :
    ∃ keys, Settled h' (left ++ keys) := by
  induction hrun with
  | start heq =>
    subst heq
    refine ⟨[], ?_⟩
    rw [List.append_nil]
    exact hs
  | next e _ hfresh hstep ih =>
    obtain ⟨keys, hsettled⟩ := ih
    obtain ⟨keys', hsettled'⟩ := hsettled.step hfresh hstep
    rw [List.append_assoc] at hsettled'
    exact ⟨_, hsettled'⟩

end Settled

end History

/-! ## Conservation -/

/-- Every entry is on the list of one slot of one level, and every list ends without
meeting an entry twice. -/
structure Threaded (w : Wheel S) (lists : LevelIdx → Nat → List Key) : Prop where
  chain : ∀ level idx, Chain (nextOf S w.tasks) ((w.levels level).slots idx) (lists level idx)
  nodup : ∀ level idx, (lists level idx).Nodup
  once : ∀ k, S.get w.tasks k ≠ none → ∃! slot : LevelIdx × Nat, k ∈ lists slot.1 slot.2
  inside : ∀ level idx, ∀ k ∈ lists level idx, idx ≤ (w.levels level).mask

/-- `insert` and `advance` return, and `advance` only appends to its buffer. -/
def Returns (w : Wheel S) : Prop :=
  (∀ item delay, ∃ w' k, w.insert item delay = some (w', k)) ∧
  ∀ elapsed expired, ∃ w' appended, w.advance elapsed expired = some (w', expired ++ appended)

/-- `cancel` returns nothing for `k` and changes nothing. -/
def Absent (w : Wheel S) (k : Key) : Prop :=
  (w.cancel k).2 = none ∧ (w.cancel k).1 = { w with tasks := (w.cancel k).1.tasks } ∧
    ∀ j, S.get (w.cancel k).1.tasks j = S.get w.tasks j

theorem Linked.threaded (h : Linked w none []) : ∃ lists, Threaded w lists := by
  choose lists hchain hnodup hmem using h.slots
  have hfiled : ∀ level idx k, k ∈ lists level idx ↔ w.Filed k level idx := by
    intro level idx k
    rw [hmem level idx k]
    simp
  refine ⟨lists, hchain, hnodup, ?_, ?_⟩
  · intro k hk
    obtain ⟨entry, hentry⟩ := Option.ne_none_iff_exists'.mp hk
    refine ⟨(entry.level, w.slotOf entry.level entry.deadline),
      (hfiled _ _ k).mpr ⟨entry, hentry, rfl, rfl⟩, ?_⟩
    rintro ⟨level, idx⟩ hin
    obtain ⟨entry', hentry', hlevel, hidx⟩ := (hfiled level idx k).mp hin
    cases hentry.symm.trans hentry'
    rw [← hidx, hlevel]
  · intro level idx k hk
    obtain ⟨entry, -, -, rfl⟩ := (hfiled level idx k).mp hk
    cases level with
    | l0 => exact Nat.and_le_right
    | l1 => exact Nat.and_le_right

theorem Linked.returns (h : Linked w none []) (hratio : w.l1TickRatio ≠ 0) : Returns w := by
  constructor
  · intro item delay
    obtain ⟨w', k, -, hrun, -⟩ := insert_stored w hratio item delay
    exact ⟨w', k, hrun⟩
  · intro elapsed expired
    obtain ⟨w', keys, hrun, -⟩ :=
      advanceLoop_linked _ w (w.delayToTicks elapsed) expired h hratio (Nat.le_refl _)
    exact ⟨w', _, hrun⟩

theorem absent_of_pending (h : w.pending k = none) : Absent w k := by
  obtain ⟨hitem, -⟩ := cancel_pending w k
  refine ⟨by rw [hitem, h]; rfl, rfl, fun j => ?_⟩
  show S.get (S.modify w.tasks k _) j = _
  rw [S.get_modify]
  split
  · rename_i hj
    subst hj
    cases hget : S.get w.tasks j with
    | none => rfl
    | some entry =>
      rw [pending_of_get hget, Option.map_eq_none_iff] at h
      show some { entry with item := none } = some entry
      rw [← h]
  · rfl

namespace History

/-- Every id is the id of one item.  The output consists of the items of `left`, each of
these once; an id of `left` cancels nothing now or later, and every other id still holds
its item. -/
structure Accounted (h : History S) (left : List Key) : Prop where
  ids : (h.inserted.map Prod.fst).Nodup
  once : left.Nodup
  out : List.Forall₂ (fun k item => (k, item) ∈ h.inserted) left h.out
  gone : ∀ k ∈ left, ∀ h', Run Step FreshId (fun g => g = h) h' → Absent h'.wheel k
  held : ∀ k item, (k, item) ∈ h.inserted → k ∉ left → (h.wheel.cancel k).2 = some item

theorem Settled.accounted {h : History S} {left : List Key} (hs : Settled h left) :
    Accounted h left := by
  refine ⟨hs.ids, hs.nodup, hs.paid, fun k hk h' hrun => ?_, fun k item hin hnot => ?_⟩
  · obtain ⟨keys, hsettled⟩ := hs.run hrun
    exact absent_of_pending (hsettled.gone k (List.mem_append_left keys hk))
  · rw [(cancel_pending h.wheel k).1]
    exact hs.held k item hin hnot

/-- **Wheel entries are conserved.**  In every run of `insert`, `cancel` and `advance`,
with any configuration and any delays, every entry is on exactly one list and every list
ends; so `advance` returns, unless the ratio is zero; and what came out are the items of
distinct ids, which stay absent from then on. -/
theorem wheel_conserves (S : SlotMap Key (WheelEntry Key T)) (config : WheelConfig)
    {h : History S} (hrun : Run Step FreshId (fun g => g = History.new S config) h) :
    (∃ lists, Threaded h.wheel lists) ∧ (h.wheel.l1TickRatio ≠ 0 → Returns h.wheel) ∧
      ∃ left, Accounted h left := by
  obtain ⟨left, hs⟩ := (Settled.new S config).run hrun
  exact ⟨hs.linked.threaded, hs.linked.returns, _, hs.accounted⟩

/-- Two items, of which one is cancelled and one expires after a move from `L1` to
`L0`. -/
def twoItems : List (WheelEvent Nat Nat) :=
  [.insert 7 (Duration.fromMillis 5), .insert 8 (Duration.fromMillis 1), .cancel 1,
    .advance (Duration.fromMillis 6) []]

/-- The id of an insertion is not in use yet. -/
def freshId (h : History S) : WheelEvent Key T → Bool
  | .insert item delay =>
      (h.wheel.insert item delay).all fun r => decide (r.2 ∉ h.inserted.map Prod.fst)
  | .cancel _ => true
  | .advance _ _ => true

theorem freshId_of_test {h : History S} {e : WheelEvent Key T} (htest : freshId h e = true) :
    FreshId h e := by
  rintro item delay rfl w' k hrun
  simp only [freshId, hrun, Option.all_some] at htest
  exact of_decide_eq_true htest

/-- The wheel after these operations. -/
def afterTwoItems : History (SlotMap.appending (WheelEntry Nat Nat)) :=
  (replay next freshId (History.new _ smallConfig) twoItems).get (by decide +kernel)

/-- Both items came out, and the id of the second has left. -/
theorem wheel_conserves_two_items :
    ∃ left, Accounted afterTwoItems left ∧ left.length = 2 ∧ afterTwoItems.out = [8, 7] := by
  have hstart : Run Step FreshId
      (fun g => g = History.new (SlotMap.appending (WheelEntry Nat Nat)) smallConfig)
      (History.new _ smallConfig) := Run.start rfl
  have hreplay : replay next freshId (History.new _ smallConfig) twoItems =
      some afterTwoItems := (Option.some_get _).symm
  have hrun := hstart.replay (fun _ _ _ hs => hs) (fun _ _ => freshId_of_test) hreplay
  obtain ⟨-, -, left, haccounted⟩ := wheel_conserves _ smallConfig hrun
  have hout : afterTwoItems.out = [8, 7] := by decide +kernel
  have hlen := haccounted.out.length_eq
  rw [hout] at hlen
  exact ⟨left, haccounted, hlen, hout⟩

end History

end Veloq.Timing.Wheel
