import Veloq.Foundation.Bits
set_option autoImplicit false

/-!
# Collections: the bit set

One bit per index, packed into bytes.  An index out of bounds is an error for every
operation.  `get_set` and `get_clear` say what a write does to every later read.
-/

namespace Veloq.Collections

open Veloq.Foundation

/-- `BitSetError`. -/
inductive BitSetError where
  | outOfBounds (index size : Nat)
  deriving DecidableEq, Repr

/-- `BitSet`: the bytes `bits` hold `size` bits. -/
structure BitSet where
  size : Nat
  bits : Vector (BitVec 8) ((size + 7) / 8)

namespace BitSet

/-- `BitSet::new(capacity)`. -/
def new (capacity : Nat) : BitSet :=
  { size := capacity, bits := Vector.replicate ((capacity + 7) / 8) 0 }

/-- The byte that holds the bit of `index`. -/
def byteOf (s : BitSet) (index : Nat) (h : index < s.size) : BitVec 8 :=
  s.bits.get ⟨index / 8, by omega⟩

/-- The byte that holds the bit of `index` is changed by `f`. -/
def modifyByte (s : BitSet) (index : Nat) (f : BitVec 8 → BitVec 8) : Except BitSetError BitSet :=
  if h : index < s.size then
    .ok { s with bits := s.bits.set (index / 8) (f (s.byteOf index h)) (by omega) }
  else
    .error (.outOfBounds index s.size)

/-- `BitSet::set`. -/
def set (s : BitSet) (index : Nat) : Except BitSetError BitSet :=
  s.modifyByte index fun byte => byte ||| 1#8 <<< (index % 8)

/-- `BitSet::clear`. -/
def clear (s : BitSet) (index : Nat) : Except BitSetError BitSet :=
  s.modifyByte index fun byte => byte &&& ~~~(1#8 <<< (index % 8))

/-- `BitSet::get`. -/
def get (s : BitSet) (index : Nat) : Except BitSetError Bool :=
  if h : index < s.size then
    .ok ((s.byteOf index h &&& 1#8 <<< (index % 8)) != 0)
  else
    .error (.outOfBounds index s.size)

/-! ## Reading after writing -/

/-- An index in bounds reads its own bit. -/
theorem get_of_lt {s : BitSet} {index : Nat} (h : index < s.size) :
    s.get index = .ok ((s.byteOf index h).getLsbD (index % 8)) := by
  unfold get
  rw [dif_pos h, Bits.and_bit_ne_zero _ (Nat.mod_lt _ (by decide))]

theorem get_of_ge {s : BitSet} {index : Nat} (h : s.size ≤ index) :
    s.get index = .error (.outOfBounds index s.size) := by
  unfold get
  rw [dif_neg (Nat.not_lt.mpr h)]

theorem get_new {capacity index : Nat} (h : index < capacity) :
    (new capacity).get index = .ok false := by
  rw [get_of_lt (show index < (new capacity).size from h)]
  simp [new, byteOf, Vector.get]

/-- A write in bounds succeeds, keeps the size and changes its own bit only, if `f`
changes no other bit of the byte. -/
theorem modifyByte_spec {s : BitSet} {index : Nat} {f : BitVec 8 → BitVec 8} {value : Bool}
    (h : index < s.size)
    (hf : ∀ byte bit, (f byte).getLsbD bit = if bit = index % 8 then value else byte.getLsbD bit) :
    ∃ s', s.modifyByte index f = .ok s' ∧ s'.size = s.size ∧
      ∀ j, s'.get j = if j = index then .ok value else s.get j := by
  unfold modifyByte
  rw [dif_pos h]
  refine ⟨_, rfl, rfl, ?_⟩
  intro j
  set s' : BitSet := { s with bits := s.bits.set (index / 8) (f (s.byteOf index h)) (by omega) }
  by_cases hj : j < s.size
  · have hwrite : index / 8 < (s.size + 7) / 8 := by omega
    have hread : j / 8 < (s.size + 7) / 8 := by omega
    have hbyte : s'.byteOf j hj =
        if index / 8 = j / 8 then f (s.byteOf index h) else s.byteOf j hj :=
      Vector.getElem_set hwrite hread
    rw [get_of_lt (show j < s'.size from hj), hbyte, get_of_lt hj]
    by_cases hdiv : index / 8 = j / 8
    · have hsame : s.byteOf index h = s.byteOf j hj := by
        unfold byteOf
        simp only [hdiv]
      rw [if_pos hdiv, hf, hsame]
      by_cases heq : j = index
      · rw [if_pos heq, if_pos (by rw [heq])]
      · rw [if_neg heq, if_neg (by omega)]
    · rw [if_neg hdiv, if_neg (by rintro rfl; exact hdiv rfl)]
  · have hne : j ≠ index := by omega
    rw [if_neg hne, get_of_ge (Nat.le_of_not_lt hj)]
    exact get_of_ge (Nat.le_of_not_lt hj)

theorem set_spec {s : BitSet} {index : Nat} (h : index < s.size) :
    ∃ s', s.set index = .ok s' ∧ s'.size = s.size ∧
      ∀ j, s'.get j = if j = index then .ok true else s.get j := by
  refine modifyByte_spec h ?_
  intro byte bit
  rw [Bits.getLsbD_or_bit _ (Nat.mod_lt _ (by decide))]
  split
  · rename_i heq
    simp [heq]
  · rename_i hne
    simp [hne]

theorem clear_spec {s : BitSet} {index : Nat} (h : index < s.size) :
    ∃ s', s.clear index = .ok s' ∧ s'.size = s.size ∧
      ∀ j, s'.get j = if j = index then .ok false else s.get j := by
  refine modifyByte_spec h ?_
  intro byte bit
  rw [Bits.getLsbD_and_not_bit _ (Nat.mod_lt _ (by decide))]
  split
  · rename_i heq
    simp [heq]
  · rename_i hne
    simp [hne]

end BitSet

end Veloq.Collections
