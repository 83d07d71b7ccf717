import Mathlib.Algebra.Order.Ring.Nat
set_option autoImplicit false

/-!
# Buffer: handles of buffers

`buffer/handle.rs`.  A `FixedBuf` is a pointer, a capacity and a length of 32 bits
each, and a word that says where the memory came from: the slot, order and chunk of
a slot pool, or the cookie of a heap allocation.
-/

namespace Veloq.Buffer

/-- `PoolKind`. -/
inductive PoolKind where
  | slotBased
  | heap
  deriving DecidableEq, Repr

/-- The bit of a `PoolKind`. -/
def PoolKind.toBit : PoolKind → Nat
  | .slotBased => 0
  | .heap => 1

def PoolKind.fromBit (bit : Nat) : PoolKind := if bit = 0 then .slotBased else .heap

/-- `PackedContext`, with the widths of its fields. -/
structure PackedContext where
  slotIdx : Nat
  order : Nat
  chunkId : Nat
  reserved : Nat
  poolKind : PoolKind
  slotIdx_lt : slotIdx < 2 ^ 32
  order_lt : order < 2 ^ 8
  chunkId_lt : chunkId < 2 ^ 16
  reserved_lt : reserved < 2 ^ 7

namespace PackedContext

/-- `u64::from`: the fields from the lowest bit upwards. -/
def toRaw (c : PackedContext) : Nat :=
  c.slotIdx + c.order * 2 ^ 32 + c.chunkId * 2 ^ 40 + c.reserved * 2 ^ 56 + c.poolKind.toBit * 2 ^ 63

/-- `PackedContext::from` of a 64-bit word. -/
def fromRaw (raw : Nat) : PackedContext where
  slotIdx := raw % 2 ^ 32
  order := raw / 2 ^ 32 % 2 ^ 8
  chunkId := raw / 2 ^ 40 % 2 ^ 16
  reserved := raw / 2 ^ 56 % 2 ^ 7
  poolKind := PoolKind.fromBit (raw / 2 ^ 63 % 2)
  slotIdx_lt := Nat.mod_lt _ (Nat.two_pow_pos 32)
  order_lt := Nat.mod_lt _ (Nat.two_pow_pos 8)
  chunkId_lt := Nat.mod_lt _ (Nat.two_pow_pos 16)
  reserved_lt := Nat.mod_lt _ (Nat.two_pow_pos 7)

/-- `raw_payload`: all but the pool kind and the reserved bits. -/
def rawPayload (c : PackedContext) : Nat := c.toRaw % 2 ^ 56

/-- `from_slot_parts`; the numbers are cut to the widths of their fields where the
caller casts them. -/
def fromSlotParts (slotIdx order chunkId : Nat) (poolKind : PoolKind) : PackedContext where
  slotIdx := slotIdx % 2 ^ 32
  order := order % 2 ^ 8
  chunkId := chunkId % 2 ^ 16
  reserved := 0
  poolKind := poolKind
  slotIdx_lt := Nat.mod_lt _ (Nat.two_pow_pos 32)
  order_lt := Nat.mod_lt _ (Nat.two_pow_pos 8)
  chunkId_lt := Nat.mod_lt _ (Nat.two_pow_pos 16)
  reserved_lt := Nat.two_pow_pos 7

theorem ext_of {c d : PackedContext} (hslot : c.slotIdx = d.slotIdx) (horder : c.order = d.order)
    (hchunk : c.chunkId = d.chunkId) (hreserved : c.reserved = d.reserved)
    (hkind : c.poolKind = d.poolKind) : c = d := by
  cases c
  cases d
  cases hslot
  cases horder
  cases hchunk
  cases hreserved
  cases hkind
  rfl

theorem toBit_lt (kind : PoolKind) : kind.toBit < 2 := by
  cases kind <;> decide

theorem fromBit_toBit (kind : PoolKind) : PoolKind.fromBit kind.toBit = kind := by
  cases kind <;> rfl

/-- The word comes apart as it was put together. -/
theorem fromRaw_toRaw (c : PackedContext) : fromRaw c.toRaw = c := by
  have hslot := c.slotIdx_lt
  have horder := c.order_lt
  have hchunk := c.chunkId_lt
  have hreserved := c.reserved_lt
  have hbit := toBit_lt c.poolKind
  refine ext_of ?_ ?_ ?_ ?_ ?_
  · change c.toRaw % 2 ^ 32 = c.slotIdx
    rw [toRaw]
    omega
  · change c.toRaw / 2 ^ 32 % 2 ^ 8 = c.order
    rw [toRaw]
    omega
  · change c.toRaw / 2 ^ 40 % 2 ^ 16 = c.chunkId
    rw [toRaw]
    omega
  · change c.toRaw / 2 ^ 56 % 2 ^ 7 = c.reserved
    rw [toRaw]
    omega
  · change PoolKind.fromBit (c.toRaw / 2 ^ 63 % 2) = c.poolKind
    have hkind : c.toRaw / 2 ^ 63 % 2 = c.poolKind.toBit := by
      rw [toRaw]
      omega
    rw [hkind, fromBit_toBit]

/-- Contexts and 64-bit words are the same thing. -/
theorem context_words : (∀ c : PackedContext, c.toRaw < 2 ^ 64 ∧ fromRaw c.toRaw = c) ∧
    ∀ raw < 2 ^ 64, (fromRaw raw).toRaw = raw := by
  refine ⟨fun c => ⟨?_, fromRaw_toRaw c⟩, fun raw hraw => ?_⟩
  · have hslot := c.slotIdx_lt
    have horder := c.order_lt
    have hchunk := c.chunkId_lt
    have hreserved := c.reserved_lt
    have hbit := toBit_lt c.poolKind
    rw [toRaw]
    omega
  · have htop : raw / 2 ^ 63 % 2 = 0 ∨ raw / 2 ^ 63 % 2 = 1 := Nat.mod_two_eq_zero_or_one _
    have hbit : (PoolKind.fromBit (raw / 2 ^ 63 % 2)).toBit = raw / 2 ^ 63 % 2 := by
      rcases htop with h | h <;> rw [h] <;> rfl
    change raw % 2 ^ 32 + raw / 2 ^ 32 % 2 ^ 8 * 2 ^ 32 + raw / 2 ^ 40 % 2 ^ 16 * 2 ^ 40 +
      raw / 2 ^ 56 % 2 ^ 7 * 2 ^ 56 + (PoolKind.fromBit (raw / 2 ^ 63 % 2)).toBit * 2 ^ 63 = raw
    rw [hbit]
    omega

theorem context_words_one : (fromRaw 1).toRaw = 1 := context_words.2 1 (by decide)

end PackedContext

/-- `FixedBuf`, with what the assertions of its constructors ensure. -/
structure FixedBuf where
  ptr : Nat
  poolData : Nat
  context : PackedContext
  len : Nat
  cap : Nat
  len_le : len ≤ cap
  cap_lt : cap < 2 ^ 32

/-- `RegionInfo`. -/
structure RegionInfo where
  poolKind : PoolKind
  id : Nat
  offset : Nat
  cookie : Nat
  deriving DecidableEq, Repr

/-- `ChunkInfo`: where the memory of a chunk is. -/
structure ChunkInfo where
  ptr : Nat
  len : Nat
  deriving DecidableEq, Repr

namespace FixedBuf

/-- `FixedBuf::from_parts`; `none` where an assertion fails. -/
def fromParts (ptr poolData : Nat) (context : PackedContext) (len cap : Nat) : Option FixedBuf :=
  if hlen : len ≤ cap then
    if hcap : cap ≤ 2 ^ 32 - 1 then
      some ⟨ptr, poolData, context, len, cap, hlen, Nat.lt_of_le_of_lt hcap (by decide)⟩
    else
      none
  else
    none

/-- `FixedBuf::new`; `none` where an assertion fails. -/
def new (ptr cap poolData : Nat) (poolKind : PoolKind) (context : Nat) : Option FixedBuf :=
  if cap ≤ 2 ^ 32 - 1 then
    fromParts ptr poolData { PackedContext.fromRaw context with poolKind } cap cap
  else
    none

/-- `capacity`. -/
def capacity (buf : FixedBuf) : Nat := buf.cap

/-- `slot_based_resolve_region_info`; `none` where the pool does not know the chunk. -/
def slotBasedResolveRegionInfo (chunkInfo : Nat → Option ChunkInfo) (buf : FixedBuf) :
    Option RegionInfo :=
  let id := (PackedContext.fromRaw buf.context.rawPayload).chunkId
  (chunkInfo id).map fun info =>
    { poolKind := .slotBased, id, offset := buf.ptr - info.ptr, cookie := 0 }

/-- `heap_resolve_region_info`. -/
def heapResolveRegionInfo (buf : FixedBuf) : RegionInfo where
  poolKind := .heap
  id := 0
  offset := buf.ptr - (buf.poolData + 4096)
  cookie := buf.context.rawPayload

/-- `FixedBuf::resolve_region_info`. -/
def resolveRegionInfo (chunkInfo : Nat → Option ChunkInfo) (buf : FixedBuf) : Option RegionInfo :=
  match buf.context.poolKind with
  | .slotBased => buf.slotBasedResolveRegionInfo chunkInfo
  | .heap => some buf.heapResolveRegionInfo

end FixedBuf

/-- The chunk of a slot-based buffer is the one in its context word. -/
theorem PackedContext.chunkId_rawPayload (c : PackedContext) :
    (fromRaw c.rawPayload).chunkId = c.chunkId := by
  have hslot := c.slotIdx_lt
  have horder := c.order_lt
  have hchunk := c.chunkId_lt
  change c.toRaw % 2 ^ 56 / 2 ^ 40 % 2 ^ 16 = c.chunkId
  rw [toRaw]
  omega

end Veloq.Buffer
