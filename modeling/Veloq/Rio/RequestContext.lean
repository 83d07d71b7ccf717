import Veloq.Foundation.Slab
import Mathlib.Data.Nat.Bitwise
import Mathlib.Algebra.Order.Ring.Nat
set_option autoImplicit false

/-!
# RIO: request contexts

`rio/core/request.rs` and the context part of `rio/core/registry.rs`.  A request is
named to the kernel by a pointer-sized context: a magic byte, the index of the slot
that keeps what the completion needs, and the slot's generation.  Both `decode` (the
kernel gave the context back) and `takeInit` (the submission failed) free the slot.
-/

namespace Veloq.Rio

open Foundation

/-- `RioRequestContextId`: an index that `new` accepts, and a `u32` generation. -/
structure RequestContextId where
  index : Nat
  generation : Nat
  index_lt : index < 2 ^ 24
  generation_lt : generation < 2 ^ 32
  deriving Repr

namespace RequestContextId

/-- `RIO_REQUEST_CONTEXT_MAGIC`. -/
def magic : Nat := 0xA7

/-- `RIO_REQUEST_CONTEXT_MAGIC_SHIFT`. -/
def magicShift : Nat := 56

/-- `RIO_REQUEST_CONTEXT_INDEX_SHIFT`. -/
def indexShift : Nat := 32

/-- `RIO_REQUEST_CONTEXT_INDEX_MASK`. -/
def indexMask : Nat := 0x00ffffff

theorem lt_of_le_indexMask {index : Nat} (h : index ≤ indexMask) : index < 2 ^ 24 :=
  Nat.lt_of_le_of_lt h (by decide)

theorem index_field_lt (raw : Nat) : raw >>> indexShift &&& indexMask < 2 ^ 24 :=
  lt_of_le_indexMask Nat.and_le_right

theorem generation_field_lt (raw : Nat) : raw % 2 ^ 32 < 2 ^ 32 := Nat.mod_lt _ (Nat.two_pow_pos 32)

/-- `RioRequestContextId::new`; `none` where the assertion on the index fails. -/
def new (index generation : Nat) (hgen : generation < 2 ^ 32) : Option RequestContextId :=
  if h : index ≤ indexMask then some ⟨index, generation, lt_of_le_indexMask h, hgen⟩ else none

/-- `RioRequestContextId::raw`. -/
def raw (id : RequestContextId) : Nat :=
  magic <<< magicShift ||| id.index <<< indexShift ||| id.generation

/-- `RioRequestContextId::from_raw`. -/
def fromRaw (raw : Nat) : Option RequestContextId :=
  if raw >>> magicShift = magic then
    some ⟨raw >>> indexShift &&& indexMask, raw % 2 ^ 32, index_field_lt raw,
      generation_field_lt raw⟩
  else
    none

variable {id id' : RequestContextId}

theorem new_eq {index generation : Nat} (h : index < 2 ^ 24) (hgen : generation < 2 ^ 32) :
    new index generation hgen = some ⟨index, generation, h, hgen⟩ :=
  dif_pos (Nat.le_of_lt_succ h)

theorem ext_of (hindex : id.index = id'.index) (hgen : id.generation = id'.generation) :
    id = id' := by
  cases id
  cases id'
  cases hindex
  cases hgen
  rfl

instance : DecidableEq RequestContextId := fun id id' =>
  decidable_of_iff (id.index = id'.index ∧ id.generation = id'.generation)
    ⟨fun h => ext_of h.1 h.2, fun h => h ▸ ⟨rfl, rfl⟩⟩

theorem raw_eq (id : RequestContextId) :
    id.raw = magic * 2 ^ 56 + id.index * 2 ^ 32 + id.generation := by
  have hindex := id.index_lt
  have hgen := id.generation_lt
  have hlow : id.index <<< 32 ||| id.generation = id.index * 2 ^ 32 + id.generation := by
    rw [← Nat.shiftLeft_add_eq_or_of_lt hgen, Nat.shiftLeft_eq]
  have hbound : id.index * 2 ^ 32 + id.generation < 2 ^ 56 := by omega
  rw [raw, magicShift, indexShift, Nat.or_assoc, hlow, ← Nat.shiftLeft_add_eq_or_of_lt hbound,
    Nat.shiftLeft_eq, Nat.add_assoc]

/-- The field of the index in a raw value. -/
theorem index_field (raw : Nat) : raw >>> indexShift &&& indexMask = raw / 2 ^ 32 % 2 ^ 24 := by
  rw [show indexMask = 2 ^ 24 - 1 from rfl, Nat.and_two_pow_sub_one_eq_mod,
    Nat.shiftRight_eq_div_pow, indexShift]

/-- The fields of a context come apart as they were put together. -/
theorem fromRaw_raw (id : RequestContextId) : fromRaw id.raw = some id := by
  have hindex := id.index_lt
  have hgen := id.generation_lt
  have hraw := raw_eq id
  have hmagic : id.raw >>> magicShift = magic := by
    rw [Nat.shiftRight_eq_div_pow, hraw, magicShift, magic]
    omega
  rw [fromRaw, if_pos hmagic]
  refine congrArg some (ext_of ?_ ?_)
  · refine (index_field _).trans ?_
    rw [hraw, magic]
    omega
  · change id.raw % 2 ^ 32 = id.generation
    rw [hraw, magic]
    omega

/-- A 64-bit value that decodes is the encoding of what it decodes to. -/
theorem raw_of_fromRaw {raw : Nat} (hraw : raw < 2 ^ 64) (h : fromRaw raw = some id) :
    id.raw = raw := by
  unfold fromRaw at h
  split at h
  · rename_i hmagic
    rw [Nat.shiftRight_eq_div_pow, magicShift, magic] at hmagic
    obtain rfl := Option.some.inj h
    rw [raw_eq]
    change 0xA7 * 2 ^ 56 + (raw >>> indexShift &&& indexMask) * 2 ^ 32 + raw % 2 ^ 32 = raw
    rw [index_field]
    omega
  · cases h

theorem raw_lt (id : RequestContextId) : id.raw < 2 ^ 64 := by
  have hindex := id.index_lt
  have hgen := id.generation_lt
  rw [raw_eq, magic]
  omega

theorem raw_inj : id.raw = id'.raw ↔ id = id' := by
  refine ⟨fun h => ?_, congrArg raw⟩
  have hdecode := fromRaw_raw id
  rw [h, fromRaw_raw id'] at hdecode
  exact (Option.some.inj hdecode).symm

end RequestContextId

/-- `RioRequestContextSlot`; its generation is a `u32`. -/
structure ContextSlot (ι : Type) where
  generation : Nat
  init : Option ι
  inUse : Bool
  generation_lt : generation < 2 ^ 32

namespace ContextSlot

variable {ι : Type}

theorem ext_of {slot slot' : ContextSlot ι} (hgen : slot.generation = slot'.generation)
    (hinit : slot.init = slot'.init) (hinUse : slot.inUse = slot'.inUse) : slot = slot' := by
  cases slot
  cases slot'
  cases hgen
  cases hinit
  cases hinUse
  rfl

instance [DecidableEq ι] : DecidableEq (ContextSlot ι) := fun slot slot' =>
  decidable_of_iff
    (slot.generation = slot'.generation ∧ slot.init = slot'.init ∧ slot.inUse = slot'.inUse)
    ⟨fun h => ext_of h.1 h.2.1 h.2.2, fun h => h ▸ ⟨rfl, rfl, rfl⟩⟩

/-- `RioRequestContextSlot::default`. -/
def default : ContextSlot ι := ⟨0, none, false, Nat.two_pow_pos 32⟩

/-- What `Slab.Free` counts as vacant. -/
def vacant (slot : ContextSlot ι) : Bool := !slot.inUse

/-- `wrapping_add(1)` that leaves out `0`. -/
def nextGeneration (generation : Nat) : Nat :=
  let generation := (generation + 1) % 2 ^ 32
  if generation = 0 then 1 else generation

theorem nextGeneration_lt (generation : Nat) : nextGeneration generation < 2 ^ 32 := by
  unfold nextGeneration
  dsimp only
  split
  · decide
  · exact Nat.mod_lt _ (Nat.two_pow_pos 32)

/-- The slot as a new request has it. -/
def filled (slot : ContextSlot ι) (init : ι) : ContextSlot ι :=
  ⟨nextGeneration slot.generation, some init, true, nextGeneration_lt _⟩

/-- The slot after `init.take()` and `in_use = false`. -/
def emptied (slot : ContextSlot ι) : ContextSlot ι := { slot with init := none, inUse := false }

end ContextSlot

/-- `request_contexts` and `request_context_free` of `RioRegistry`, the list with its
top first. -/
structure RequestContexts (ι : Type) where
  slots : List (ContextSlot ι) := []
  free : List Nat := []
  deriving DecidableEq

/-- `RioRequestContextDecode`. -/
inductive Decoded (ι : Type) where
  | valid (init : ι)
  | malformed (raw : Nat)
  | missing (id : RequestContextId)
  | stale (id : RequestContextId) (actualGeneration : Nat)
  deriving DecidableEq

/-- What the context brought back. -/
def Decoded.init? {ι : Type} : Decoded ι → Option ι
  | .valid init => some init
  | .malformed _ => none
  | .missing _ => none
  | .stale _ _ => none

namespace RequestContexts

variable {ι : Type}

/-- The slot popped from the free list, or a new one at the end of the table. -/
def reserve (c : RequestContexts ι) : Nat × RequestContexts ι :=
  match c.free with
  | index :: free => (index, { c with free })
  | [] => (c.slots.length, { c with slots := c.slots ++ [ContextSlot.default] })

/-- `alloc_request_context`; `none` where an assertion fails. -/
def alloc (c : RequestContexts ι) (init : ι) : Option (RequestContextId × RequestContexts ι) :=
  let (index, c) := c.reserve
  match c.slots[index]? with
  | none => none
  | some slot =>
      let slot := slot.filled init
      (RequestContextId.new index slot.generation slot.generation_lt).map fun id =>
        (id, { c with slots := c.slots.set index slot })

/-- The slot is not in use any more and can be popped again. -/
def vacate (c : RequestContexts ι) (index : Nat) (slot : ContextSlot ι) : RequestContexts ι where
  slots := c.slots.set index slot.emptied
  free := index :: c.free

/-- `decode_request_context_checked`. -/
def decode (c : RequestContexts ι) (raw : Nat) : Decoded ι × RequestContexts ι :=
  match RequestContextId.fromRaw raw with
  | none => (.malformed raw, c)
  | some id =>
      match c.slots[id.index]? with
      | none => (.missing id, c)
      | some slot =>
          if slot.inUse = false then
            (.missing id, c)
          else if slot.generation ≠ id.generation then
            (.stale id slot.generation, c)
          else
            match slot.init with
            | none => (.missing id, c.vacate id.index slot)
            | some init => (.valid init, c.vacate id.index slot)

/-- `take_request_context_init`. -/
def takeInit (c : RequestContexts ι) (id : RequestContextId) : Option ι × RequestContexts ι :=
  match c.slots[id.index]? with
  | none => (none, c)
  | some slot =>
      if slot.inUse = false ∨ slot.generation ≠ id.generation then
        (none, c)
      else
        match slot.init with
        | none => (none, c)
        | some init => (some init, c.vacate id.index slot)

/-! ## The contexts in use -/

/-- The init of a context in use. -/
def live (c : RequestContexts ι) (id : RequestContextId) : Option ι :=
  match c.slots[id.index]? with
  | none => none
  | some slot => if slot.inUse ∧ slot.generation = id.generation then slot.init else none

/-- The generation of a slot, `0` before it exists. -/
def generationAt (c : RequestContexts ι) (index : Nat) : Nat :=
  (c.slots[index]?).elim 0 ContextSlot.generation

/-- The number of contexts in use. -/
def inUse (c : RequestContexts ι) : Nat := c.slots.countP ContextSlot.inUse

/-- The free list has the slots that are not in use, and those in use have their init. -/
structure Wf (c : RequestContexts ι) : Prop where
  free : Slab.Free ContextSlot.vacant c.slots c.free
  filled : ∀ slot ∈ c.slots, slot.init.isSome = slot.inUse
  length_le : c.slots.length ≤ 2 ^ 24

variable {c : RequestContexts ι} {id : RequestContextId} {init : ι} {index raw : Nat}
  {slot : ContextSlot ι}

theorem Wf.empty : Wf ({} : RequestContexts ι) where
  free := Slab.Free.nil
  filled := fun _ h => absurd h List.not_mem_nil
  length_le := Nat.zero_le _

theorem live_eq (hindex : id.index = index) (hslot : c.slots[index]? = some slot) :
    c.live id = if slot.inUse ∧ slot.generation = id.generation then slot.init else none := by
  unfold live
  rw [hindex, hslot]

/-- The slot of a context in use. -/
theorem live_eq_some_iff : c.live id = some init ↔ ∃ slot, c.slots[id.index]? = some slot ∧
    slot.inUse = true ∧ slot.generation = id.generation ∧ slot.init = some init := by
  unfold live
  split
  · rename_i hslot
    exact iff_of_false (fun h => by cases h) (fun ⟨_, h, _⟩ => by cases hslot.symm.trans h)
  · rename_i slot hslot
    constructor
    · intro h
      split at h
      · rename_i hcond
        exact ⟨slot, hslot, hcond.1, hcond.2, h⟩
      · cases h
    · rintro ⟨slot', hslot', hinUse, hgen, hinit⟩
      cases hslot.symm.trans hslot'
      rw [if_pos ⟨hinUse, hgen⟩, hinit]

/-! ## Writing one slot -/

theorem getElem?_set_self (hslot : c.slots[index]? = some slot) (new : ContextSlot ι) :
    (c.slots.set index new)[index]? = some new :=
  List.getElem?_set_self (List.getElem?_eq_some_iff.mp hslot).1

theorem live_set_of_ne (h : id.index ≠ index) (free : List Nat) (new : ContextSlot ι) :
    live ⟨c.slots.set index new, free⟩ id = c.live id := by
  unfold live
  rw [List.getElem?_set_ne (Ne.symm h)]

theorem generationAt_set_self (hslot : c.slots[index]? = some slot) (free : List Nat)
    (new : ContextSlot ι) :
    generationAt ⟨c.slots.set index new, free⟩ index = new.generation := by
  unfold generationAt
  rw [getElem?_set_self hslot]
  rfl

theorem generationAt_set_of_ne {other : Nat} (h : other ≠ index) (free : List Nat)
    (new : ContextSlot ι) :
    generationAt ⟨c.slots.set index new, free⟩ other = c.generationAt other := by
  unfold generationAt
  rw [List.getElem?_set_ne (Ne.symm h)]

theorem generationAt_eq (hslot : c.slots[index]? = some slot) :
    c.generationAt index = slot.generation := by
  unfold generationAt
  rw [hslot]
  rfl

end RequestContexts

end Veloq.Rio
