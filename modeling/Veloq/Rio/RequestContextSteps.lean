import Veloq.Rio.RequestContext
set_option autoImplicit false

/-!
# RIO: what the operations on request contexts do

An allocation opens one context, the value of an open context closes it, and every
other value changes nothing.
-/

namespace Veloq.Rio

open Foundation

namespace RequestContexts

variable {ι : Type} {c c' : RequestContexts ι} {id : RequestContextId} {init : ι}
  {index raw : Nat} {slot : ContextSlot ι}

/-! ## Taking a slot and giving it back -/

/-- The reserved slot is at the top of the free list, and nothing in use has changed. -/
structure Reserved (c : RequestContexts ι) (index : Nat) (c' : RequestContexts ι)
    (slot : ContextSlot ι) : Prop where
  found : c'.slots[index]? = some slot
  vacant : slot.inUse = false
  wf : Wf ⟨c'.slots, index :: c'.free⟩
  live : ∀ id, c'.live id = c.live id
  generationAt : ∀ i, c'.generationAt i = c.generationAt i
  inUse : c'.inUse = c.inUse

theorem reserve_pop {free : List Nat} (h : c.Wf) (hfree : c.free = index :: free) :
    ∃ slot, Reserved c index { c with free } slot := by
  obtain ⟨slot, hslot, hvacant⟩ := (h.free.mem_iff index).mp (hfree ▸ List.mem_cons_self ..)
  refine ⟨slot, hslot, by simpa [ContextSlot.vacant] using hvacant, ?_, fun _ => rfl,
    fun _ => rfl, rfl⟩
  exact ⟨hfree ▸ h.free, h.filled, h.length_le⟩

theorem length_lt (h : c.Wf) (hfree : c.free = []) (hroom : c.inUse < 2 ^ 24) :
    c.slots.length < 2 ^ 24 := by
  refine Nat.lt_of_le_of_lt (Nat.le_of_eq (Eq.symm ?_)) hroom
  refine List.countP_eq_length.mpr fun slot hslot => ?_
  obtain ⟨i, hi⟩ := List.getElem?_of_mem hslot
  cases hinUse : slot.inUse with
  | true => rfl
  | false =>
    have hmem := (h.free.mem_iff i).mpr ⟨slot, hi, by rw [ContextSlot.vacant, hinUse]; rfl⟩
    rw [hfree] at hmem
    exact absurd hmem List.not_mem_nil

theorem reserve_push (h : c.Wf) (hfree : c.free = []) (hroom : c.inUse < 2 ^ 24) :
    Reserved c c.slots.length ⟨c.slots ++ [ContextSlot.default], c.free⟩ ContextSlot.default := by
  have hlength := length_lt h hfree hroom
  have hgrown : ∀ i : Nat, (c.slots ++ [ContextSlot.default])[i]? = c.slots[i]? ∨
      c.slots[i]? = none ∧ (c.slots ++ [ContextSlot.default])[i]? = some ContextSlot.default := by
    intro i
    rcases Nat.lt_trichotomy i c.slots.length with hi | hi | hi
    · exact .inl (List.getElem?_append_left hi)
    · subst hi
      exact .inr ⟨List.getElem?_eq_none (Nat.le_refl _), List.getElem?_concat_length ..⟩
    · refine .inl ?_
      rw [List.getElem?_eq_none (Nat.le_of_lt hi),
        List.getElem?_eq_none (List.length_append.trans_le hi)]
  refine ⟨List.getElem?_concat_length .., rfl, ⟨h.free.grow rfl, ?_, ?_⟩, ?_, ?_, ?_⟩
  · intro slot hslot
    rcases List.mem_append.mp hslot with hslot | hslot
    · exact h.filled slot hslot
    · rw [List.mem_singleton.mp hslot]
      rfl
  · rw [List.length_append, List.length_singleton]
    exact hlength
  · intro id
    unfold live
    rcases hgrown id.index with heq | ⟨hnone, hsome⟩
    · rw [heq]
    · rw [hnone, hsome]
      exact if_neg fun hcond => Bool.false_ne_true hcond.1
  · intro i
    unfold generationAt
    rcases hgrown i with heq | ⟨hnone, hsome⟩
    · rw [heq]
    · rw [hnone, hsome]
      rfl
  · exact List.countP_append.trans rfl

theorem reserve_spec (h : c.Wf) (hroom : c.inUse < 2 ^ 24) :
    ∃ slot, Reserved c c.reserve.1 c.reserve.2 slot := by
  unfold reserve
  split
  · rename_i index free hfree
    exact reserve_pop h hfree
  · rename_i hfree
    exact ⟨ContextSlot.default, reserve_push h hfree hroom⟩

/-- A slot that was vacant has a context, with a new generation. -/
structure Opened (c : RequestContexts ι) (id : RequestContextId) (init : ι)
    (c' : RequestContexts ι) : Prop where
  vacant : ∀ id', id'.index = id.index → c.live id' = none
  after : c'.live id = some init
  others : ∀ id', id' ≠ id → c'.live id' = c.live id'
  generation : id.generation = ContextSlot.nextGeneration (c.generationAt id.index)
  generationAt : c'.generationAt id.index = id.generation
  generations : ∀ i, i ≠ id.index → c'.generationAt i = c.generationAt i
  inUse : c'.inUse = c.inUse + 1

/-- With fewer than `2 ^ 24` contexts in use no assertion of an allocation fails. -/
theorem alloc_spec (h : c.Wf) (hroom : c.inUse < 2 ^ 24) (init : ι) :
    ∃ id c', c.alloc init = some (id, c') ∧ c'.Wf ∧ Opened c id init c' := by
  obtain ⟨slot, hres⟩ := reserve_spec h hroom
  have hwf := hres.wf
  have hslot := hres.found
  have hlt : c.reserve.1 < 2 ^ 24 :=
    Nat.lt_of_lt_of_le (List.getElem?_eq_some_iff.mp hslot).1 hwf.length_le
  have hnone : ∀ id : RequestContextId, id.index = c.reserve.1 → c.live id = none := by
    intro id hid
    rw [← hres.live, live_eq hid hslot]
    exact if_neg fun hcond => Bool.false_ne_true (hres.vacant.symm.trans hcond.1)
  refine ⟨⟨c.reserve.1, (slot.filled init).generation, hlt, (slot.filled init).generation_lt⟩,
    ⟨c.reserve.2.slots.set c.reserve.1 (slot.filled init), c.reserve.2.free⟩, ?_, ⟨?_, ?_, ?_⟩,
    ⟨hnone, ?_, ?_, ?_, ?_, ?_, ?_⟩⟩
  · simp only [alloc, hslot, RequestContextId.new_eq hlt, Option.map_some]
  · exact hwf.free.fill hslot rfl
  · intro s hs
    rcases List.mem_or_eq_of_mem_set hs with hs | rfl
    · exact hwf.filled s hs
    · rfl
  · rw [List.length_set]
    exact hwf.length_le
  · exact (live_eq rfl (getElem?_set_self hslot _)).trans (if_pos ⟨rfl, rfl⟩)
  · intro id' hid'
    by_cases hindex : id'.index = c.reserve.1
    · refine (live_eq hindex (getElem?_set_self hslot _)).trans ?_
      rw [hnone id' hindex]
      exact if_neg fun hcond => hid' (RequestContextId.ext_of hindex hcond.2.symm)
    · exact (live_set_of_ne hindex _ _).trans (hres.live id')
  · rw [← hres.generationAt, generationAt_eq hslot]
    rfl
  · exact generationAt_set_self hslot _ _
  · intro i hi
    exact (generationAt_set_of_ne hi _ _).trans (hres.generationAt i)
  · have hcount := Slab.countP_set_add (y := slot.filled init) ContextSlot.inUse hslot
    rw [hres.vacant] at hcount
    rw [← hres.inUse]
    exact hcount

/-- A context is not in use any more; the generations stay. -/
structure Closed (c : RequestContexts ι) (id : RequestContextId) (c' : RequestContexts ι) :
    Prop where
  after : c'.live id = none
  others : ∀ id', id' ≠ id → c'.live id' = c.live id'
  generationAt : ∀ i, c'.generationAt i = c.generationAt i
  inUse : c'.inUse + 1 = c.inUse
  free : c'.free = id.index :: c.free

theorem vacate_spec (h : c.Wf) (hslot : c.slots[id.index]? = some slot)
    (hinUse : slot.inUse = true) (hgen : slot.generation = id.generation) :
    (c.vacate id.index slot).Wf ∧ Closed c id (c.vacate id.index slot) := by
  have hset := getElem?_set_self hslot slot.emptied
  have hnone : ∀ id' : RequestContextId, id'.index = id.index →
      (c.vacate id.index slot).live id' = none := by
    intro id' hid'
    refine (live_eq (c := c.vacate id.index slot) hid' hset).trans ?_
    exact if_neg fun hcond => Bool.false_ne_true hcond.1
  refine ⟨⟨?_, ?_, ?_⟩, ⟨hnone id rfl, ?_, ?_, ?_, rfl⟩⟩
  · exact h.free.vacate hslot (by rw [ContextSlot.vacant, hinUse]; rfl) rfl
  · intro s hs
    rcases List.mem_or_eq_of_mem_set hs with hs | rfl
    · exact h.filled s hs
    · rfl
  · exact (List.length_set ..).trans_le h.length_le
  · intro id' hid'
    by_cases hindex : id'.index = id.index
    · rw [hnone id' hindex, live_eq hindex hslot]
      refine (if_neg fun hcond => hid' ?_).symm
      exact RequestContextId.ext_of hindex (hcond.2.symm.trans hgen)
    · exact live_set_of_ne hindex _ _
  · intro i
    by_cases hi : i = id.index
    · subst hi
      exact (generationAt_set_self hslot _ _).trans (generationAt_eq hslot).symm
    · exact generationAt_set_of_ne hi _ _
  · have hcount := Slab.countP_set_add (y := slot.emptied) ContextSlot.inUse hslot
    rw [hinUse] at hcount
    exact hcount

/-- A slot in use has a context. -/
theorem exists_live (h : c.Wf) (hslot : c.slots[index]? = some slot) (hinUse : slot.inUse = true) :
    ∃ id init, id.index = index ∧ c.live id = some init := by
  have hlt : index < 2 ^ 24 :=
    Nat.lt_of_lt_of_le (List.getElem?_eq_some_iff.mp hslot).1 h.length_le
  have hfilled := h.filled slot (List.mem_of_getElem? hslot)
  rw [hinUse, Option.isSome_iff_exists] at hfilled
  obtain ⟨init, hinit⟩ := hfilled
  exact ⟨⟨index, slot.generation, hlt, slot.generation_lt⟩, init, rfl,
    live_eq_some_iff.mpr ⟨slot, hslot, hinUse, rfl, hinit⟩⟩

/-! ## Decoding -/

/-- The value of a context in use is decoded to its init, and the context is freed. -/
theorem decode_live (h : c.Wf) (hlive : c.live id = some init) :
    ∃ c', c.decode id.raw = (.valid init, c') ∧ c'.Wf ∧ Closed c id c' := by
  obtain ⟨slot, hslot, hinUse, hgen, hinit⟩ := live_eq_some_iff.mp hlive
  refine ⟨c.vacate id.index slot, ?_, vacate_spec h hslot hinUse hgen⟩
  simp only [decode, RequestContextId.fromRaw_raw, hslot, hinUse, hgen, hinit, Bool.true_eq_false,
    if_false, ne_eq, not_true_eq_false]

/-- Any other value brings nothing back and changes nothing. -/
theorem decode_other (h : c.Wf) (hraw : raw < 2 ^ 64)
    (hother : ∀ id, id.raw = raw → c.live id = none) :
    (c.decode raw).1.init? = none ∧ (c.decode raw).2 = c := by
  unfold decode
  split
  · exact ⟨rfl, rfl⟩
  · rename_i id hid
    split
    · exact ⟨rfl, rfl⟩
    · rename_i slot hslot
      split
      · exact ⟨rfl, rfl⟩
      · rename_i hinUse
        split
        · exact ⟨rfl, rfl⟩
        · rename_i hgen
          -- the value would be the one of the context in use in this slot
          exfalso
          have hinUse : slot.inUse = true := by simpa using hinUse
          have hgen : slot.generation = id.generation := by simpa using hgen
          have hfilled := h.filled slot (List.mem_of_getElem? hslot)
          have hnone := hother id (RequestContextId.raw_of_fromRaw hraw hid)
          rw [live_eq rfl hslot, if_pos ⟨hinUse, hgen⟩] at hnone
          rw [hnone, hinUse] at hfilled
          exact Bool.false_ne_true hfilled

/-- A roll back is a decode of the context's own value. -/
theorem takeInit_eq (h : c.Wf) (id : RequestContextId) :
    c.takeInit id = ((c.decode id.raw).1.init?, (c.decode id.raw).2) := by
  unfold takeInit decode
  rw [RequestContextId.fromRaw_raw]
  dsimp only
  split
  · rfl
  · rename_i slot hslot
    have hfilled := h.filled slot (List.mem_of_getElem? hslot)
    by_cases hinUse : slot.inUse = false
    · rw [if_pos (.inl hinUse), if_pos hinUse]
      rfl
    · by_cases hgen : slot.generation = id.generation
      · rw [if_neg (fun h => h.elim hinUse (absurd hgen)), if_neg hinUse,
          if_neg (not_not_intro hgen)]
        cases hinit : slot.init with
        | none =>
          rw [hinit] at hfilled
          exact absurd hfilled.symm hinUse
        | some init => rfl
      · rw [if_pos (.inr hgen), if_neg hinUse, if_pos hgen]
        rfl

/-- What decoding a value does: the context it names is closed, or nothing happens. -/
theorem decode_cases (h : c.Wf) (hraw : raw < 2 ^ 64) :
    (∃ id init c', id.raw = raw ∧ c.live id = some init ∧ c.decode raw = (.valid init, c') ∧
      c'.Wf ∧ Closed c id c') ∨
    ((∀ id, id.raw = raw → c.live id = none) ∧ (c.decode raw).1.init? = none ∧
      (c.decode raw).2 = c) := by
  by_cases hex : ∃ id init, id.raw = raw ∧ c.live id = some init
  · obtain ⟨id, init, rfl, hlive⟩ := hex
    obtain ⟨c', hdecode, hwf, hclosed⟩ := decode_live h hlive
    exact .inl ⟨id, init, c', rfl, hlive, hdecode, hwf, hclosed⟩
  · have hother : ∀ id, id.raw = raw → c.live id = none := by
      intro id hid
      cases hlive : c.live id with
      | none => rfl
      | some init => exact absurd ⟨id, init, hid, hlive⟩ hex
    exact .inr ⟨hother, decode_other h hraw hother⟩

end RequestContexts

end Veloq.Rio
