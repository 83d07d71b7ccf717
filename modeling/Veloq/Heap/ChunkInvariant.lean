import Veloq.Heap.BuddyRuns
import Veloq.Heap.Chunk
set_option autoImplicit false

/-!
# Heap: ownership inside a chunk

What it means for a chunk to be sound, and the invariant that gives it when shard
boundaries are superblock boundaries.  `owned i l = some k` records that shard `i` has
handed out its block of order `k` at `l`; every live allocation and every cache entry
lies in such a block, and no two of them share one, except for the slots of one
superblock.
-/

namespace Veloq.Heap

open Veloq.Foundation
open Veloq.Foundation.Dyadic

/-! ## Soundness -/

/-- Two allocations share no page. -/
def Allocation.Apart (a b : Allocation) : Prop :=
  ∀ p, Covers a.index a.order p → ¬ Covers b.index b.order p

/-- Deallocation recomputes where the allocation came from. -/
def Recomputed (c : Chunk) (a : Allocation) : Prop :=
  match a.superblock with
  | none => c.shardForIndex a.index = (a.shard, a.block)
  | some superblock => Chunk.superblockIndex a.index = superblock ∧
      c.shardForIndex (Chunk.baseSlot superblock) = (a.shard, a.block)

/-- From `c` to `c'` the block of order `k` at `block` of `shard` was freed. -/
def BlockFreed (c c' : Chunk) (shard block k : Nat) : Prop :=
  ∃ buddy buddy', c.shards[shard]? = some buddy ∧
    buddy.dealloc block k = some (buddy', .ok ()) ∧ c'.shards = c.shards.set shard buddy'

/-- From `c` to `c'` the allocation was freed: its block, or its slot and perhaps the
block of its superblock. -/
def Freed (c c' : Chunk) (a : Allocation) : Prop :=
  match a.superblock with
  | none => BlockFreed c c' a.shard a.block a.order
  | some superblock =>
      (∃ state, c'.superblocks[superblock]? = some state ∧
        state.freeMask.getLsbD (Chunk.superblockOffset a.index) = true) ∧
      (c'.shards = c.shards ∨ BlockFreed c c' a.shard a.block superblockOrder)

/-- Live allocations are apart, deallocation recomputes where they came from, succeeds
and frees them; so does giving up a superblock. -/
structure ChunkSound (s : ChunkUse) : Prop where
  apart : s.live.Pairwise Allocation.Apart
  recomputed : ∀ a ∈ s.live, Recomputed s.chunk a
  freed : ∀ a ∈ s.live, ∃ c, s.chunk.deallocSlots a.index a.order = some c ∧ Freed s.chunk c a
  retired : ∀ e ∈ s.entries, ∃ c, s.chunk.retire e.superblock = some c ∧
    (c.shards = s.chunk.shards ∨ BlockFreed s.chunk c e.shard e.block superblockOrder)

/-! ## Blocks of the shards -/

/-- Splitting an index into shard and slot undoes their combination. -/
theorem shard_local_round_trip {slotsPerShard slot : Nat} (shard : Nat)
    (h : slot < slotsPerShard) : (shard * slotsPerShard + slot) / slotsPerShard = shard ∧
      (shard * slotsPerShard + slot) % slotsPerShard = slot := by
  rw [Nat.mul_comm]
  constructor
  · rw [Nat.mul_add_div (by omega), Nat.div_eq_of_lt h, Nat.add_zero]
  · rw [Nat.mul_add_mod, Nat.mod_eq_of_lt h]

/-- `owned` with a new entry for the block at `l` of shard `i`. -/
def setOwned (owned : Nat → Nat → Option Nat) (i l : Nat) (value : Option Nat) :
    Nat → Nat → Option Nat :=
  Function.update owned i (Function.update (owned i) l value)

theorem setOwned_self (owned : Nat → Nat → Option Nat) (i l : Nat) (value : Option Nat) :
    setOwned owned i l value i l = value := by
  unfold setOwned
  rw [Function.update_self, Function.update_self]

theorem setOwned_of_ne {owned : Nat → Nat → Option Nat} {i l j m : Nat} {value : Option Nat}
    (h : (j, m) ≠ (i, l)) : setOwned owned i l value j m = owned j m := by
  unfold setOwned
  by_cases hj : j = i
  · subst hj
    rw [Function.update_self, Function.update_of_ne fun hm => h (by rw [hm])]
  · rw [Function.update_of_ne hj]

/-- Every shard keeps the representation of its allocator. -/
def ShardsOk (slotsPerShard : Nat) (owned : Nat → Nat → Option Nat)
    (shards : List BuddyAllocator) : Prop :=
  ∀ i b, shards[i]? = some b → Represented slotsPerShard ⟨b, owned i⟩

namespace ShardsOk

variable {slotsPerShard : Nat} {owned : Nat → Nat → Option Nat} {shards : List BuddyAllocator}
  {i l k j m n : Nat} {b b' : BuddyAllocator} {value : Option Nat}

/-- One shard changes together with its entry. -/
theorem set (h : ShardsOk slotsPerShard owned shards)
    (hrep : Represented slotsPerShard ⟨b', Function.update (owned i) l value⟩) :
    ShardsOk slotsPerShard (setOwned owned i l value) (shards.set i b') := by
  intro j b hb
  unfold setOwned
  by_cases hj : j = i
  · subst hj
    rw [Function.update_self]
    rw [List.getElem?_set_self' ] at hb
    cases hold : shards[j]? with
    | none =>
      rw [hold] at hb
      exact absurd hb (by simp)
    | some old =>
      rw [hold] at hb
      cases hb
      exact hrep
  · rw [List.getElem?_set_ne (Ne.symm hj)] at hb
    rw [Function.update_of_ne hj]
    exact h j b hb

/-- A block that was handed out is aligned and inside its shard. -/
theorem block (h : ShardsOk slotsPerShard owned shards) (hi : i < shards.length)
    (howned : owned i l = some k) : 2 ^ k ∣ l ∧ l + 2 ^ k ≤ slotsPerShard := by
  obtain ⟨lists, hinv⟩ := h i _ (List.getElem?_eq_getElem hi)
  have hheld : Holds lists (owned i) none .live l k := howned
  exact ⟨hinv.tiling.aligned _ _ _ hheld, hinv.tiling.inside _ _ _ hheld⟩

/-- Page `p` of a block lies in the shard of the block. -/
theorem page_shard (h : ShardsOk slotsPerShard owned shards) (hi : i < shards.length)
    (howned : owned i l = some k) {p : Nat} (hp : Covers (i * slotsPerShard + l) k p) :
    p / slotsPerShard = i ∧ Covers l k (p % slotsPerShard) := by
  obtain ⟨-, hinside⟩ := h.block hi howned
  obtain ⟨hle, hlt⟩ := hp
  obtain ⟨r, hr, rfl⟩ : ∃ r, r < slotsPerShard ∧ p = i * slotsPerShard + r :=
    ⟨p - i * slotsPerShard, by omega, by omega⟩
  obtain ⟨hdiv, hmod⟩ := shard_local_round_trip i hr
  rw [hdiv, hmod]
  exact ⟨rfl, by omega, by omega⟩

/-- Different blocks share no page. -/
theorem pages_apart (h : ShardsOk slotsPerShard owned shards) (hi : i < shards.length)
    (hj : j < shards.length) (hl : owned i l = some k) (hm : owned j m = some n)
    (hne : (i, l) ≠ (j, m)) {p : Nat} (hp : Covers (i * slotsPerShard + l) k p) :
    ¬ Covers (j * slotsPerShard + m) n p := by
  intro hp'
  obtain ⟨hdiv, hcovers⟩ := h.page_shard hi hl hp
  obtain ⟨hdiv', hcovers'⟩ := h.page_shard hj hm hp'
  obtain rfl : i = j := hdiv.symm.trans hdiv'
  obtain ⟨lists, hinv⟩ := h i _ (List.getElem?_eq_getElem hi)
  obtain ⟨-, rfl, -⟩ := hinv.tiling.unique .live l k .live m n _ hl hm hcovers hcovers'
  exact hne rfl

end ShardsOk

namespace Chunk

variable {c : Chunk} {owned : Nat → Nat → Option Nat} {i l k : Nat}

/-- The scan finds nothing and changes nothing, or takes a free block from one of the
shards it visits. -/
theorem scan_spec (h : ShardsOk c.slotsPerShard owned c.shards) (order : Nat) {visit : List Nat}
    (hvisit : ∀ i ∈ visit, i < c.shards.length) :
    c.scan order visit = some (c, none) ∨
    ∃ i l b, i < c.shards.length ∧
      c.scan order visit = some ({ c with shards := c.shards.set i b }, some (i, l)) ∧
      owned i l = none ∧
      ShardsOk c.slotsPerShard (setOwned owned i l (some order)) (c.shards.set i b) := by
  induction visit with
  | nil => exact Or.inl rfl
  | cons i rest ih =>
    have hi := hvisit i (List.mem_cons_self ..)
    have hget := List.getElem?_eq_getElem hi
    obtain ⟨lists, hinv⟩ := h i _ hget
    unfold scan
    rw [hget]
    rcases hinv.alloc order with ⟨hnone, -⟩ | ⟨b, lists', l, hsome, hinv', hapart, -⟩
    · simp only [hnone, List.set_getElem_self]
      exact ih fun j hj => hvisit j (List.mem_cons_of_mem i hj)
    · simp only [hsome]
      refine Or.inr ⟨i, l, b, hi, rfl, ?_, h.set ⟨lists', hinv'⟩⟩
      cases howned : owned i l with
      | none => rfl
      | some k => exact absurd (covers_self l order) (hapart l k l howned (covers_self l k))

theorem visitOrder_lt (c : Chunk) (hash : Nat) : ∀ i ∈ c.visitOrder hash, i < c.shards.length := by
  intro i hi
  unfold visitOrder at hi
  obtain ⟨j, hj, rfl⟩ := List.mem_map.mp hi
  have hlen := List.mem_range.mp hj
  exact Nat.lt_of_le_of_lt Nat.and_le_right (by omega)

/-- `alloc_global` takes a free block from some shard, or changes nothing. -/
theorem allocGlobal_spec (h : ShardsOk c.slotsPerShard owned c.shards) (order : Nat)
    (seed : Option Nat) (threadHash : Nat) :
    c.allocGlobal order seed threadHash = some (c, none) ∨
    ∃ i l b, i < c.shards.length ∧
      c.allocGlobal order seed threadHash =
        some ({ c with shards := c.shards.set i b }, some (i, l)) ∧
      owned i l = none ∧
      ShardsOk c.slotsPerShard (setOwned owned i l (some order)) (c.shards.set i b) := by
  unfold allocGlobal
  rcases c.scan_spec h order (c.visitOrder_lt (startHash seed threadHash)) with hnone |
    ⟨i, l, b, hi, hsome, hfree, hok⟩
  · left
    simp only [hnone]
  · right
    refine ⟨i, l, b, hi, ?_, hfree, hok⟩
    simp only [hsome]

/-- `dealloc_global` finds the shard and the slot of a block again and frees it. -/
theorem deallocGlobal_spec (h : ShardsOk c.slotsPerShard owned c.shards)
    (hi : i < c.shards.length) (howned : owned i l = some k) :
    ∃ c', c.deallocGlobal (i * c.slotsPerShard + l) k = some c' ∧ BlockFreed c c' i l k ∧
      c'.shards.length = c.shards.length ∧ c'.superblocks = c.superblocks ∧
      c'.memoryLen = c.memoryLen ∧ c'.slotsPerShard = c.slotsPerShard ∧
      ShardsOk c.slotsPerShard (setOwned owned i l none) c'.shards := by
  have hget := List.getElem?_eq_getElem hi
  have hslot : l < c.slotsPerShard := by
    have := (h.block hi howned).2
    have := Nat.two_pow_pos k
    omega
  obtain ⟨hdiv, hmod⟩ := shard_local_round_trip i hslot
  obtain ⟨lists, hinv⟩ := h i _ hget
  obtain ⟨b', lists', hdealloc, hinv', -⟩ := hinv.dealloc howned
  refine ⟨{ c with shards := c.shards.set i b' }, ?_, ⟨_, b', hget, hdealloc, rfl⟩,
    List.length_set, rfl, rfl, rfl, h.set ⟨lists', hinv'⟩⟩
  unfold deallocGlobal shardForIndex
  simp only [hdiv, hmod, hget, hdealloc]

end Chunk

end Veloq.Heap
