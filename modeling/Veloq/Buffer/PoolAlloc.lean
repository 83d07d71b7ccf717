import Veloq.Buffer.FixedBuf
import Veloq.Heap.Expansion
set_option autoImplicit false

/-!
# Buffer: buffers of every length

`buffer/slot_pool.rs` and `FixedBuf::alloc_heap`.  A length is rounded up to an order, for which
the slot pool is asked; where it has no block the system is asked for pages.  `none` as the
outcome of a call is a panic.  What the system answers and the cookie are arguments.
-/

namespace Veloq.Buffer

open Veloq.Foundation Veloq.Heap

/-- `BuddyAllocator::capacity_of`. -/
def capacityOf (order : Nat) : Nat := 2 ^ order * slotSize

/-- `AllocResult`. -/
inductive AllocResult where
  | allocated (ptr cap context : Nat)
  | failed

/-- `AllocResult::into_buf`. -/
def AllocResult.intoBuf (poolData : Nat) : AllocResult → Option (Option FixedBuf)
  | .allocated ptr cap context => (FixedBuf.new ptr cap poolData .slotBased context).map some
  | .failed => some none

namespace FixedBuf

/-- `alloc_heap`; `pages` is where the system maps pages of a size, if it does. -/
def allocHeap (pages : Nat → Option Nat) (cookie len : Nat) : Option (Option FixedBuf) :=
  match checkedAdd len 4096 with
  | none => some none
  | some totalSize =>
      match pages totalSize with
      | none => some none
      | some base => (FixedBuf.new (base + 4096) len base .heap (cookie % 2 ^ 56)).map some

/-- What the drop of a slot-based buffer frees: the chunk, the slot and the order that
`slot_based_dealloc` reads off its context. -/
def freed (buf : FixedBuf) : Nat × Nat × Nat :=
  let ctx := PackedContext.fromRaw buf.context.rawPayload
  (ctx.chunkId, ctx.slotIdx, ctx.order)

end FixedBuf

namespace SlotBasedPool

/-- `calculate_order`; `next_power_of_two` overflows beyond `2 ^ 63`. -/
def calculateOrder (size : Nat) : Option Nat :=
  if size ≤ 4096 then
    some 0
  else
    let needed := nextPowerOfTwo size
    if needed < 2 ^ 64 then some (Nat.log2 needed - 12) else none

/-- The result of `alloc_mem` for the block that the pool has found. -/
def allocMem (order : Nat) : Option SlotHandle → AllocResult
  | some handle => .allocated handle.ptr (capacityOf order)
      (PackedContext.fromSlotParts handle.slot order handle.chunkId .slotBased).toRaw
  | none => .failed

/-- `SlotBasedPool::alloc`; `allocSlots` is `GlobalSlotPool::alloc_slots` on the pool as it is. -/
def alloc (allocSlots : Nat → Option (ListenedHeap × Option SlotHandle)) (poolData : Nat)
    (pages : Nat → Option Nat) (cookie len : Nat) : Option (ListenedHeap × Option FixedBuf) := do
  let order ← calculateOrder len
  let (heap, found) ← allocSlots order
  match ← (allocMem order found).intoBuf poolData with
  | some buf => return (heap, some buf)
  | none => return (heap, ← FixedBuf.allocHeap pages cookie len)

end SlotBasedPool

/-! ## Orders -/

end Veloq.Buffer

/-! ## Blocks of the pool -/

namespace Veloq.Heap

variable {order threadHash : Nat} {seed : Option Nat}

theorem Chunk.scan_order {c c' : Chunk} {visited : List Nat} {block : Nat × Nat}
    (h : c.scan order visited = some (c', some block)) : order ≤ maxOrder := by
  induction visited generalizing c with
  | nil => cases h
  | cons idx rest ih =>
    rw [Chunk.scan] at h
    split at h
    · cases h
    · rename_i buddy hbuddy
      by_contra hover
      rw [BuddyAllocator.alloc, if_pos (Nat.lt_of_not_le hover)] at h
      exact hover (ih h)

theorem SharedChunk.allocSlots_order {c : SharedChunk} {chunk : Chunk} {i : Nat}
    {alloc : ChunkAlloc} (h : c.allocSlots i order seed threadHash = some (chunk, some alloc)) :
    order ≤ maxOrder := by
  unfold SharedChunk.allocSlots at h
  split at h
  · rename_i hzero
    rw [hzero]
    exact Nat.zero_le _
  · obtain ⟨⟨c', found⟩, hlarge, heq⟩ := Option.map_eq_some_iff.mp h
    unfold Chunk.allocLarge Chunk.allocGlobal at hlarge
    split at hlarge
    · cases hlarge
    · cases hlarge
      cases heq
    · rename_i hglobal
      dsimp only at hglobal
      split at hglobal
      · cases hglobal
      · rename_i hscan
        exact Chunk.scan_order hscan
      · exact Chunk.scan_order hglobal

theorem PoolHeap.scanPool_order {s s' : PoolHeap} {refs : List Nat} {alloc : ChunkAlloc}
    (h : s.scanPool order seed threadHash refs = some (s', some alloc)) : order ≤ maxOrder := by
  induction refs generalizing s with
  | nil => cases h
  | cons i rest ih =>
    rw [PoolHeap.scanPool] at h
    obtain ⟨c, hc, h⟩ := Option.bind_eq_some_iff.mp h
    obtain ⟨⟨chunk, found⟩, halloc, h⟩ := Option.bind_eq_some_iff.mp h
    cases found with
    | none => exact ih h
    | some found => exact SharedChunk.allocSlots_order halloc

/-- A pool has blocks of the orders of its buddy allocators only. -/
theorem ListenedHeap.allocSlots_order {s s' : ListenedHeap} {t address : Nat}
    {provision : Option Provision} {handle : SlotHandle}
    (h : s.allocSlots t address order seed threadHash provision = some (s', some handle)) :
    order ≤ maxOrder := by
  by_contra hover
  have hscan : ∀ {s s' : PoolHeap} {refs : List Nat} {found : Option ChunkAlloc},
      s.scanPool order seed threadHash refs = some (s', found) → found = none := by
    intro s s' refs found hscan
    cases found with
    | none => rfl
    | some alloc => exact absurd (PoolHeap.scanPool_order hscan) hover
  unfold ListenedHeap.allocSlots ListenedHeap.tryCache at h
  rw [if_neg (by omega)] at h
  dsimp only [Option.bind_eq_bind, Option.bind_some] at h
  obtain ⟨refs, -, h⟩ := Option.bind_eq_some_iff.mp h
  obtain ⟨⟨first, found⟩, hfirst, h⟩ := Option.bind_eq_some_iff.mp h
  obtain rfl := hscan hfirst
  obtain ⟨⟨second, found⟩, hsecond, h⟩ := Option.bind_eq_some_iff.mp h
  obtain rfl := hscan hsecond
  dsimp only at h
  unfold ListenedHeap.expand at h
  split at h
  · split at h
    · cases h
    · split at h
      · cases h
      · cases h
      · obtain ⟨⟨chunk, found⟩, halloc, h⟩ := Option.bind_eq_some_iff.mp h
        cases found with
        | none => cases h
        | some alloc => exact hover (SharedChunk.allocSlots_order halloc)
  · cases h

end Veloq.Heap

/-! ## Buffers -/

namespace Veloq.Buffer

open Veloq.Foundation Veloq.Heap

namespace FixedBuf

variable {ptr cap poolData context : Nat} {kind : PoolKind}

theorem new_eq (h : cap < 2 ^ 32) : FixedBuf.new ptr cap poolData kind context =
    some ⟨ptr, poolData, { PackedContext.fromRaw context with poolKind := kind }, cap, cap,
      Nat.le_refl cap, h⟩ := by
  unfold FixedBuf.new FixedBuf.fromParts
  rw [if_pos (by omega), dif_pos (Nat.le_refl cap), dif_pos (by omega)]

end FixedBuf

namespace SlotBasedPool

/-- What is to come of a call of `alloc` with `len`: it does not panic, and a buffer that it
returns holds `len` bytes.  A block of the pool is the smallest that does, and the buffer
frees it as what it is. -/
def Served (answers : Nat → ListenedHeap × Option SlotHandle) (len : Nat) :
    Option (ListenedHeap × Option FixedBuf) → Prop
  | none => False
  | some (_, none) => True
  | some (_, some buf) => len ≤ buf.capacity ∧ (buf.context.poolKind = .slotBased →
      ∃ order handle, (answers order).2 = some handle ∧ buf.capacity = capacityOf order ∧
        (∀ other, len ≤ capacityOf other → order ≤ other) ∧
        buf.freed = (handle.chunkId, handle.slot, order))

/-- A length that every field on its way has room for. -/
def Fits (answers : Nat → ListenedHeap × Option SlotHandle) (pages : Nat → Option Nat)
    (len : Nat) : Prop :=
  len ≤ 2 ^ 63 ∧ ∀ order, calculateOrder len = some order →
    match (answers order).2 with
    | some handle => handle.slot < 2 ^ 32
    | none => pages (len + 4096) = none ∨ len < 2 ^ 32

variable {answers : Nat → ListenedHeap × Option SlotHandle} {poolData cookie len order : Nat}
  {pages : Nat → Option Nat}

variable {s : ListenedHeap} {t address threadHash : Nat} {seed : Option Nat}
  {provision : Option Provision}

end SlotBasedPool

end Veloq.Buffer
