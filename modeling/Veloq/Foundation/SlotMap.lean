import Mathlib.Data.List.Nodup
import Mathlib.Data.List.Perm.Subperm
set_option autoImplicit false

/-!
# Foundation: slot maps

The interface of the `slotmap` crate, with its documented behaviour as fields: a
map that chooses the key of every value it stores.  A key is fresh among the keys
in use at the time; nothing is assumed about the reuse of keys of removed values.
-/

namespace Veloq.Foundation

/-- A slot map with keys in `Key` and values in `V`. -/
structure SlotMap (Key V : Type) [DecidableEq Key] where
  Map : Type
  new : Map
  get : Map → Key → Option V
  insert : Map → V → Map × Key
  /-- `get_mut`, followed by an update of the value in place. -/
  modify : Map → Key → (V → V) → Map
  remove : Map → Key → Map × Option V
  len : Map → Nat
  isEmpty : Map → Bool
  get_new : ∀ k, get new k = none
  get_key : ∀ m v, get m (insert m v).2 = none
  get_insert : ∀ m v k, get (insert m v).1 k = if k = (insert m v).2 then some v else get m k
  get_modify : ∀ m k f k', get (modify m k f) k' = if k' = k then (get m k).map f else get m k'
  remove_value : ∀ m k, (remove m k).2 = get m k
  get_remove : ∀ m k k', get (remove m k).1 k' = if k' = k then none else get m k'
  isEmpty_iff : ∀ m, isEmpty m = true ↔ ∀ k, get m k = none
  length_le_len : ∀ m (keys : List Key), keys.Nodup → (∀ k ∈ keys, get m k ≠ none) →
    keys.length ≤ len m

namespace SlotMap

variable {V : Type}

/-- Slot `k` of a vector of slots. -/
def slot (slots : List (Option V)) (k : Nat) : Option V := (slots[k]?).join

theorem slot_of_length_le {slots : List (Option V)} {k : Nat} (h : slots.length ≤ k) :
    slot slots k = none := by
  simp [slot, List.getElem?_eq_none h]

theorem slot_append (slots : List (Option V)) (v : V) (k : Nat) :
    slot (slots ++ [some v]) k = if k = slots.length then some v else slot slots k := by
  unfold slot
  rcases Nat.lt_trichotomy k slots.length with h | h | h
  · rw [List.getElem?_append_left h, if_neg (by omega)]
  · subst h
    simp
  · have hlen : (slots ++ [some v]).length ≤ k := by
      simp only [List.length_append, List.length_singleton]
      omega
    rw [if_neg (by omega), List.getElem?_eq_none hlen, List.getElem?_eq_none (by omega)]

theorem slot_set (slots : List (Option V)) (k k' : Nat) (v : Option V)
    (hv : slots.length ≤ k → v = none) :
    slot (slots.set k v) k' = if k' = k then v else slot slots k' := by
  unfold slot
  rw [List.getElem?_set]
  by_cases h : k = k'
  · subst h
    by_cases hlt : k < slots.length
    · simp [hlt]
    · simp [hlt, hv (by omega)]
  · simp [h, Ne.symm h]

/-- The keys in use. -/
def keysInUse (slots : List (Option V)) : List Nat :=
  (List.range slots.length).filter fun k => (slot slots k).isSome

theorem mem_keysInUse {slots : List (Option V)} {k : Nat} :
    k ∈ keysInUse slots ↔ slot slots k ≠ none := by
  unfold keysInUse
  rw [List.mem_filter, List.mem_range, Option.isSome_iff_ne_none]
  refine ⟨And.right, fun h => ⟨?_, h⟩⟩
  by_contra hlt
  exact h (slot_of_length_le (by omega))

/-- A slot map that never reuses a slot: the key of a value is its position. -/
def appending (V : Type) : SlotMap Nat V where
  Map := List (Option V)
  new := []
  get := slot
  insert := fun slots v => (slots ++ [some v], slots.length)
  modify := fun slots k f => slots.set k ((slot slots k).map f)
  remove := fun slots k => (slots.set k none, slot slots k)
  len := fun slots => (keysInUse slots).length
  isEmpty := fun slots => (keysInUse slots).isEmpty
  get_new := fun k => by simp [slot]
  get_key := fun slots v => slot_of_length_le (Nat.le_refl _)
  get_insert := fun slots v k => slot_append slots v k
  get_modify := fun slots k f k' => by
    refine slot_set slots k k' _ ?_
    intro h
    rw [slot_of_length_le h]
    rfl
  remove_value := fun slots k => rfl
  get_remove := fun slots k k' => slot_set slots k k' none fun _ => rfl
  isEmpty_iff := fun slots => by
    rw [List.isEmpty_iff]
    constructor
    · intro h k
      by_contra hk
      have hmem : k ∈ keysInUse slots := mem_keysInUse.mpr hk
      rw [h] at hmem
      exact absurd hmem (List.not_mem_nil)
    · intro h
      refine List.eq_nil_iff_forall_not_mem.mpr ?_
      intro k hk
      exact mem_keysInUse.mp hk (h k)
  length_le_len := fun slots keys hnodup hin =>
    (List.subperm_of_subset hnodup fun k hk => mem_keysInUse.mpr (hin k hk)).length_le

end SlotMap

end Veloq.Foundation
