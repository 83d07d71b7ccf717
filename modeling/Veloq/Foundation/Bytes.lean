import Mathlib.Algebra.Order.Ring.Nat
import Mathlib.Data.Nat.ModEq
set_option autoImplicit false

/-!
# Foundation: numbers and records as bytes

An unsigned number of `n` bytes in either byte order, and records of bytes whose fields
are read and written at an offset.
-/

namespace Veloq.Foundation

/-! ## Numbers -/

/-- The byte order of a machine. -/
inductive Endian where
  | little
  | big
  deriving DecidableEq, Repr

/-- The `n` lowest bytes of a number, the lowest first. -/
def leBytes : Nat → Nat → List UInt8
  | 0, _ => []
  | n + 1, x => UInt8.ofNat x :: leBytes n (x / 256)

/-- The number whose lowest byte comes first. -/
def ofLeBytes : List UInt8 → Nat
  | [] => 0
  | b :: bs => b.toNat + 256 * ofLeBytes bs

@[simp] theorem length_leBytes (n x : Nat) : (leBytes n x).length = n := by
  induction n generalizing x with
  | zero => rfl
  | succ n ih => rw [leBytes, List.length_cons, ih]

theorem ofLeBytes_lt (bs : List UInt8) : ofLeBytes bs < 256 ^ bs.length := by
  induction bs with
  | nil => exact Nat.one_pos
  | cons b bs ih =>
    have hb : b.toNat < 256 := b.toNat_lt
    rw [ofLeBytes, List.length_cons, Nat.pow_succ]
    omega

theorem ofLeBytes_leBytes {n x : Nat} (h : x < 256 ^ n) : ofLeBytes (leBytes n x) = x := by
  induction n generalizing x with
  | zero => exact (Nat.lt_one_iff.mp h).symm
  | succ n ih =>
    have hdiv : x / 256 < 256 ^ n := by
      rw [Nat.div_lt_iff_lt_mul (by decide)]
      rwa [Nat.pow_succ] at h
    rw [leBytes, ofLeBytes, ih hdiv, UInt8.toNat_ofNat']
    exact Nat.mod_add_div x 256

theorem leBytes_ofLeBytes (bs : List UInt8) : leBytes bs.length (ofLeBytes bs) = bs := by
  induction bs with
  | nil => rfl
  | cons b bs ih =>
    have hb : b.toNat < 256 := b.toNat_lt
    have hlow : UInt8.ofNat (b.toNat + 256 * ofLeBytes bs) = b := by
      apply UInt8.toNat_inj.mp
      rw [UInt8.toNat_ofNat']
      omega
    have hhigh : (b.toNat + 256 * ofLeBytes bs) / 256 = ofLeBytes bs := by omega
    rw [List.length_cons, leBytes, ofLeBytes, hlow, hhigh, ih]

/-- The `n` bytes of a number, the highest first. -/
def beBytes (n x : Nat) : List UInt8 := (leBytes n x).reverse

/-- The number whose highest byte comes first. -/
def ofBeBytes (bs : List UInt8) : Nat := ofLeBytes bs.reverse

@[simp] theorem length_beBytes (n x : Nat) : (beBytes n x).length = n := by
  rw [beBytes, List.length_reverse, length_leBytes]

theorem ofBeBytes_lt (bs : List UInt8) : ofBeBytes bs < 256 ^ bs.length := by
  have h := ofLeBytes_lt bs.reverse
  rwa [List.length_reverse] at h

theorem ofBeBytes_beBytes {n x : Nat} (h : x < 256 ^ n) : ofBeBytes (beBytes n x) = x := by
  rw [ofBeBytes, beBytes, List.reverse_reverse, ofLeBytes_leBytes h]

theorem beBytes_ofBeBytes (bs : List UInt8) : beBytes bs.length (ofBeBytes bs) = bs := by
  have h := leBytes_ofLeBytes bs.reverse
  rw [List.length_reverse] at h
  rw [beBytes, ofBeBytes, h, List.reverse_reverse]

namespace Endian

/-- `to_ne_bytes`. -/
def toBytes (e : Endian) (n x : Nat) : List UInt8 :=
  match e with
  | little => leBytes n x
  | big => beBytes n x

/-- `from_ne_bytes`. -/
def ofBytes (e : Endian) (bs : List UInt8) : Nat :=
  match e with
  | little => ofLeBytes bs
  | big => ofBeBytes bs

/-- `swap_bytes`. -/
def swapBytes (n x : Nat) : Nat := ofLeBytes (beBytes n x)

/-- `to_be` and `from_be`: the bytes are swapped unless the highest one comes first
already. -/
def toBe (e : Endian) (n x : Nat) : Nat :=
  match e with
  | little => swapBytes n x
  | big => x

@[simp] theorem length_toBytes (e : Endian) (n x : Nat) : (e.toBytes n x).length = n := by
  cases e with
  | little => exact length_leBytes n x
  | big => exact length_beBytes n x

theorem ofBytes_lt (e : Endian) (bs : List UInt8) : e.ofBytes bs < 256 ^ bs.length := by
  cases e with
  | little => exact ofLeBytes_lt bs
  | big => exact ofBeBytes_lt bs

theorem ofBytes_toBytes (e : Endian) {n x : Nat} (h : x < 256 ^ n) :
    e.ofBytes (e.toBytes n x) = x := by
  cases e with
  | little => exact ofLeBytes_leBytes h
  | big => exact ofBeBytes_beBytes h

theorem toBytes_ofBytes (e : Endian) (bs : List UInt8) :
    e.toBytes bs.length (e.ofBytes bs) = bs := by
  cases e with
  | little => exact leBytes_ofLeBytes bs
  | big => exact beBytes_ofBeBytes bs

/-- Bytes read in the native order and taken for big-endian are read as such. -/
theorem toBe_ofBytes (e : Endian) (bs : List UInt8) :
    e.toBe bs.length (e.ofBytes bs) = ofBeBytes bs := by
  cases e with
  | little =>
    show ofLeBytes (beBytes bs.length (ofLeBytes bs)) = _
    rw [beBytes, leBytes_ofLeBytes, ofBeBytes]
  | big => rfl

theorem toBe_lt (e : Endian) {n x : Nat} (h : x < 256 ^ n) : e.toBe n x < 256 ^ n := by
  cases e with
  | little =>
    have hlt := ofLeBytes_lt (beBytes n x)
    rwa [length_beBytes] at hlt
  | big => exact h

theorem toBe_toBe (e : Endian) {n x : Nat} (h : x < 256 ^ n) : e.toBe n (e.toBe n x) = x := by
  cases e with
  | little =>
    have hback := leBytes_ofLeBytes (beBytes n x)
    rw [length_beBytes] at hback
    show ofLeBytes (leBytes n (ofLeBytes (beBytes n x))).reverse = x
    rw [hback, beBytes, List.reverse_reverse, ofLeBytes_leBytes h]
  | big => rfl

end Endian

/-! ## Records -/

namespace Bytes

variable {bs data : List UInt8} {off len : Nat}

/-- The field of `len` bytes at `off`. -/
def read (bs : List UInt8) (off len : Nat) : List UInt8 := (bs.drop off).take len

/-- The field at `off` becomes `data`. -/
def write (bs : List UInt8) (off : Nat) (data : List UInt8) : List UInt8 :=
  bs.take off ++ data ++ bs.drop (off + data.length)

theorem length_read (h : off + len ≤ bs.length) : (read bs off len).length = len := by
  rw [read, List.length_take, List.length_drop]
  omega

theorem length_write (h : off + data.length ≤ bs.length) :
    (write bs off data).length = bs.length := by
  simp only [write, List.length_append, List.length_take, List.length_drop]
  omega

/-- The field that was written holds the data. -/
theorem read_write_self (h : off ≤ bs.length) (hlen : data.length = len) :
    read (write bs off data) off len = data := by
  have htake : (bs.take off).length = off := List.length_take_of_le h
  subst hlen
  rw [read, write, List.append_assoc, List.drop_append_of_le_length (Nat.le_of_eq htake.symm),
    List.drop_eq_nil_of_le (Nat.le_of_eq htake), List.nil_append, List.take_left]

/-- A field before the one that is written stays. -/
theorem read_write_before (h : off ≤ bs.length) {off' : Nat} (hbefore : off' + len ≤ off) :
    read (write bs off data) off' len = read bs off' len := by
  have hlen : (bs.take off).length = off := List.length_take_of_le h
  rw [read, write, List.append_assoc, List.drop_append_of_le_length (by omega),
    List.take_append_of_le_length (by rw [List.length_drop]; omega), read]
  rw [List.drop_take, List.take_take, Nat.min_eq_left (by omega)]

/-- A field after the one that is written stays. -/
theorem read_write_after (h : off ≤ bs.length) {off' : Nat} (hafter : off + data.length ≤ off') :
    read (write bs off data) off' len = read bs off' len := by
  have hlen : (bs.take off ++ data).length = off + data.length := by
    rw [List.length_append, List.length_take_of_le h]
  obtain ⟨gap, rfl⟩ := Nat.exists_eq_add_of_le hafter
  have hleft : (bs.take off ++ data).drop (off + data.length + gap) = [] :=
    List.drop_eq_nil_of_le (by omega)
  rw [read, write, List.drop_append, hlen, hleft, List.nil_append, List.drop_drop, read,
    Nat.add_sub_cancel_left]

/-- A record is as good as a prefix that holds the field. -/
theorem read_take {n : Nat} (h : off + len ≤ n) : read (bs.take n) off len = read bs off len := by
  rw [read, List.drop_take, List.take_take, Nat.min_eq_left (by omega), read]

end Bytes

end Veloq.Foundation
