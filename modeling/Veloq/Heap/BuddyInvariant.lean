import Veloq.Foundation.Dyadic
import Veloq.Heap.Buddy
set_option autoImplicit false

/-!
# Heap: the representation invariant of the buddy allocator

Two layers.  `FreeLists a lists` says that the links, the bitmap and the stored orders
all describe the same blocks `lists k` of each order.  `Inv` adds that the free blocks,
the live ones and the one that an operation has in hand tile the slots.  Every primitive
is specified once; the loops of `alloc` and `dealloc` only move, split and merge the
block in hand.
-/

namespace Veloq.Heap

open Veloq.Foundation
open Veloq.Foundation.Dyadic
open Veloq.Collections (BitSet)
open Veloq.Intrusive (Link LinkedList Represents)

/-! ## The free lists -/

/-- The free lists, the bitmap and the stored orders describe the blocks `lists`. -/
structure FreeLists (a : BuddyAllocator) (lists : Nat → List Nat) : Prop where
  represents : ∀ k ≤ maxOrder, Represents (links a.memory) (a.freeLists k) (lists k)
  apart : ∀ k ≤ maxOrder, ∀ k' ≤ maxOrder, ∀ i ∈ lists k, i ∈ lists k' → k = k'
  bitmap : ∀ k, a.freeBitmap.getLsbD k = true ↔ k ≤ maxOrder ∧ lists k ≠ []
  order : ∀ k ≤ maxOrder, ∀ i ∈ lists k, (a.memory i).order = k

/-- An update of one list keeps what is not about the lists. -/
structure SameElse (a a' : BuddyAllocator) : Prop where
  allocated : a'.allocated = a.allocated
  totalSlots : a'.totalSlots = a.totalSlots

namespace FreeLists

variable {a : BuddyAllocator} {lists : Nat → List Nat} {k i : Nat}

/-- Memory that is the head of no free block may hold anything. -/
theorem write (h : FreeLists a lists) (hi : ∀ k ≤ maxOrder, i ∉ lists k) (node : FreeNode) :
    FreeLists { a with memory := Function.update a.memory i node } lists := by
  have hsame : ∀ k ≤ maxOrder, ∀ j ∈ lists k, Function.update a.memory i node j = a.memory j := by
    intro k hk j hj
    exact Function.update_of_ne (fun heq : j = i => hi k hk (heq ▸ hj)) ..
  refine ⟨?_, h.apart, h.bitmap, ?_⟩
  · intro k hk
    refine (h.represents k hk).congr fun j hj => ?_
    exact congrArg FreeNode.link (hsame k hk j hj)
  · intro k hk j hj
    show (Function.update a.memory i node j).order = k
    rw [hsame k hk j hj]
    exact h.order k hk j hj

/-- One list changes to `keys`, whose nodes are of that list or of none. -/
theorem relist (h : FreeLists a lists) (hk : k ≤ maxOrder) {newLinks : Nat → Link Nat}
    {list : LinkedList Nat} {keys : List Nat} {bitmap : BitVec 32}
    (hrep : Represents newLinks list keys)
    (hframe : ∀ k' ≤ maxOrder, k' ≠ k → ∀ j ∈ lists k', newLinks j = (a.memory j).link)
    (hkeys : ∀ j ∈ keys, (j ∈ lists k ∨ ∀ k' ≤ maxOrder, j ∉ lists k') ∧ (a.memory j).order = k)
    (hbitmap : ∀ j, bitmap.getLsbD j = true ↔
      (j = k ∧ keys ≠ []) ∨ (j ≠ k ∧ a.freeBitmap.getLsbD j = true)) :
    FreeLists { a with
        memory := withLinks a.memory newLinks
        freeLists := Function.update a.freeLists k list
        freeBitmap := bitmap } (Function.update lists k keys) := by
  -- a node of the new list is in no other list
  have hapart : ∀ k' ≤ maxOrder, k' ≠ k → ∀ j ∈ keys, j ∉ lists k' := by
    intro k' hk' hne j hj hin
    rcases (hkeys j hj).1 with hold | hnone
    · exact hne (h.apart k' hk' k hk j hin hold)
    · exact hnone k' hk' hin
  refine ⟨?_, ?_, ?_, ?_⟩
  · intro k' hk'
    show Represents newLinks (Function.update a.freeLists k list k')
      (Function.update lists k keys k')
    by_cases hne : k' = k
    · subst hne
      rw [Function.update_self, Function.update_self]
      exact hrep
    · rw [Function.update_of_ne hne, Function.update_of_ne hne]
      exact (h.represents k' hk').congr (hframe k' hk' hne)
  · intro k₁ hk₁ k₂ hk₂ j hj hj'
    by_cases h₁ : k₁ = k <;> by_cases h₂ : k₂ = k
    · rw [h₁, h₂]
    · subst h₁
      rw [Function.update_self] at hj
      rw [Function.update_of_ne h₂] at hj'
      exact absurd hj' (hapart k₂ hk₂ h₂ j hj)
    · subst h₂
      rw [Function.update_self] at hj'
      rw [Function.update_of_ne h₁] at hj
      exact absurd hj (hapart k₁ hk₁ h₁ j hj')
    · rw [Function.update_of_ne h₁] at hj
      rw [Function.update_of_ne h₂] at hj'
      exact h.apart k₁ hk₁ k₂ hk₂ j hj hj'
  · intro j
    show bitmap.getLsbD j = true ↔ _
    rw [hbitmap]
    by_cases hne : j = k
    · subst hne
      simp [hk]
    · simp [hne, h.bitmap]
  · intro k' hk' j hj
    show (a.memory j).order = k'
    by_cases hne : k' = k
    · subst hne
      rw [Function.update_self] at hj
      exact (hkeys j hj).2
    · rw [Function.update_of_ne hne] at hj
      exact h.order k' hk' j hj

/-- The bit of a list that lost a node. -/
theorem clearIfEmpty_iff (h : FreeLists a lists) (hk : k ≤ maxOrder) (hne : lists k ≠ [])
    {newLinks : Nat → Link Nat} {list : LinkedList Nat} {keys : List Nat}
    (hrep : Represents newLinks list keys) (j : Nat) :
    (BuddyAllocator.clearIfEmpty a.freeBitmap list k).getLsbD j = true ↔
      (j = k ∧ keys ≠ []) ∨ (j ≠ k ∧ a.freeBitmap.getLsbD j = true) := by
  have hwidth : k < 32 := Nat.lt_of_le_of_lt hk (by decide)
  have hset : a.freeBitmap.getLsbD k = true := (h.bitmap k).mpr ⟨hk, hne⟩
  unfold BuddyAllocator.clearIfEmpty
  split
  · rename_i hempty
    rw [hrep.isEmpty_iff] at hempty
    rw [Bits.getLsbD_and_not_bit _ hwidth]
    simp [hempty, and_comm]
  · rename_i hnonempty
    rw [hrep.isEmpty_iff] at hnonempty
    by_cases hj : j = k
    · simp [hj, hset, hnonempty]
    · simp [hj]

end FreeLists

namespace BuddyAllocator

variable {a : BuddyAllocator} {lists : Nat → List Nat} {k i : Nat} {rest : List Nat}

/-- `add_to_free_list` puts a slot that is in no list in front of its list. -/
theorem addToFreeList_spec (h : FreeLists a lists) (hk : k ≤ maxOrder) (hi : i < a.totalSlots)
    (hfresh : ∀ k' ≤ maxOrder, i ∉ lists k') :
    ∃ a', a.addToFreeList i k = some a' ∧
      FreeLists a' (Function.update lists k (i :: lists k)) ∧ SameElse a a' := by
  have hwidth : k < 32 := Nat.lt_of_le_of_lt hk (by decide)
  have hwritten := h.write hfresh { link := Link.new, order := k % 2 ^ 8 }
  set memory := Function.update a.memory i { link := Link.new, order := k % 2 ^ 8 } with hmemory
  have hnode : memory i = { link := Link.new, order := k % 2 ^ 8 } := Function.update_self ..
  obtain ⟨newLinks, list, hpush, hrep, hframe⟩ :=
    (hwritten.represents k hk).pushFront (hfresh k hk) (by simp [links, hnode, Link.new])
  have hbitmap : ∀ j, (a.freeBitmap ||| 1#32 <<< k).getLsbD j = true ↔
      (j = k ∧ i :: lists k ≠ []) ∨ (j ≠ k ∧ a.freeBitmap.getLsbD j = true) := by
    intro j
    rw [Bits.getLsbD_or_bit _ hwidth]
    by_cases hj : j = k <;> simp [hj]
  refine ⟨_, ?_, hwritten.relist hk hrep ?_ ?_ hbitmap, ⟨rfl, rfl⟩⟩
  · unfold addToFreeList
    rw [if_pos ⟨hi, hk⟩]
    simp only [← hmemory]
    rw [show (a.freeLists k).pushFront (links memory) i = some (newLinks, list) from hpush]
  · intro k' hk' hne j hj
    refine hframe j ?_ ?_
    · exact fun heq => hfresh k' hk' (heq ▸ hj)
    · exact fun hin => hne (h.apart k' hk' k hk j hj hin)
  · intro j hj
    rcases List.mem_cons.mp hj with rfl | hj
    · refine ⟨Or.inr hfresh, ?_⟩
      show (memory j).order = k
      rw [hnode]
      exact Nat.mod_eq_of_lt (Nat.lt_of_le_of_lt hk (by decide))
    · exact ⟨Or.inl hj, hwritten.order k hk j hj⟩

/-- `remove_from_free_list` takes a free block out of its list. -/
theorem removeFromFreeList_spec (h : FreeLists a lists) (hk : k ≤ maxOrder)
    (hi : i < a.totalSlots) (hin : i ∈ lists k) :
    ∃ a', a.removeFromFreeList i k = some a' ∧
      FreeLists a' (Function.update lists k ((lists k).erase i)) ∧ SameElse a a' := by
  obtain ⟨as, bs, hsplit⟩ := List.append_of_mem hin
  have hrep := h.represents k hk
  have hnodup := hrep.nodup
  rw [hsplit] at hrep hnodup
  obtain ⟨newLinks, list, hremove, hrep', hframe⟩ := hrep.remove
  have herase : (lists k).erase i = as ++ bs := by
    have hias : i ∉ as := fun hmem =>
      (List.nodup_append.mp hnodup).2.2 i hmem i (List.mem_cons_self ..) rfl
    rw [hsplit, List.erase_append_right _ hias, List.erase_cons_head]
  rw [herase]
  refine ⟨_, ?_, h.relist hk hrep' ?_ ?_ (h.clearIfEmpty_iff hk (List.ne_nil_of_mem hin) hrep'),
    ⟨rfl, rfl⟩⟩
  · unfold removeFromFreeList
    rw [if_pos ⟨hi, hk⟩, hremove]
  · intro k' hk' hne j hj
    refine hframe j fun hmem => hne (h.apart k' hk' k hk j hj ?_)
    rw [hsplit]
    exact hmem
  · intro j hj
    have hmem : j ∈ lists k := by
      rw [hsplit]
      rcases List.mem_append.mp hj with hj | hj
      · exact List.mem_append_left _ hj
      · exact List.mem_append_right _ (List.mem_cons_of_mem i hj)
    exact ⟨Or.inl hmem, h.order k hk j hmem⟩

/-- The pop of `alloc` takes the first block of a list. -/
theorem popFreeList_spec (h : FreeLists a lists) (hk : k ≤ maxOrder) (hlist : lists k = i :: rest) :
    ∃ a', a.popFreeList k = some (a', i) ∧ FreeLists a' (Function.update lists k rest) ∧
      SameElse a a' := by
  have hrep := h.represents k hk
  rw [hlist] at hrep
  obtain ⟨newLinks, list, hpop, hrep', hframe⟩ := hrep.popFront
  have hne : lists k ≠ [] := by simp [hlist]
  refine ⟨_, ?_, h.relist hk hrep' ?_ ?_ (h.clearIfEmpty_iff hk hne hrep'), ⟨rfl, rfl⟩⟩
  · unfold popFreeList
    rw [if_pos hk, hpop]
  · intro k' hk' hne j hj
    refine hframe j fun hmem => hne (h.apart k' hk' k hk j hj ?_)
    rw [hlist]
    exact hmem
  · intro j hj
    have hmem : j ∈ lists k := by
      rw [hlist]
      exact List.mem_cons_of_mem i hj
    exact ⟨Or.inl hmem, h.order k hk j hmem⟩

end BuddyAllocator

/-! ## The block in hand -/

/-- Who holds a block: a free list, a caller, or the operation in progress. -/
inductive Holder where
  | free
  | live
  | hand

/-- The blocks of each holder. -/
def Holds (lists : Nat → List Nat) (live : Nat → Option Nat) (hand : Option (Nat × Nat)) :
    Holder → Nat → Nat → Prop
  | .free, i, k => k ≤ maxOrder ∧ i ∈ lists k
  | .live, i, k => live i = some k
  | .hand, i, k => hand = some (i, k)

/-- No two buddies are free at the same order, below the largest one. -/
def Merged (lists : Nat → List Nat) : Prop :=
  Coalesced maxOrder fun i k => k ≤ maxOrder ∧ i ∈ lists k

namespace Merged

variable {lists : Nat → List Nat} {live : Nat → Option Nat} {hand : Option (Nat × Nat)}
  {i k : Nat} {keys : List Nat}

theorem coalesced (h : Merged lists) : Coalesced maxOrder (Holds lists live hand .free) := h

/-- A list that loses blocks. -/
theorem sublist (h : Merged lists) (hkeys : ∀ j ∈ keys, j ∈ lists k) :
    Merged (Function.update lists k keys) := by
  refine h.anti fun j m hj => ⟨hj.1, ?_⟩
  by_cases hm : m = k
  · subst hm
    have hin := hj.2
    rw [Function.update_self] at hin
    exact hkeys j hin
  · have hin := hj.2
    rw [Function.update_of_ne hm] at hin
    exact hin

/-- A block whose buddy is not free joins its list. -/
theorem cons (h : Merged lists) (hbuddy : k < maxOrder → i ^^^ 2 ^ k ∉ lists k) :
    Merged (Function.update lists k (i :: lists k)) := by
  refine h.insert (fun hk hfree => hbuddy hk hfree.2) fun j m hj => ?_
  by_cases hm : m = k
  · subst hm
    have hin := hj.2
    rw [Function.update_self, List.mem_cons] at hin
    exact hin.elim (fun heq => Or.inr ⟨heq, rfl⟩) fun hold => Or.inl ⟨hj.1, hold⟩
  · have hin := hj.2
    rw [Function.update_of_ne hm] at hin
    exact Or.inl ⟨hj.1, hin⟩

end Merged

/-- All structures of the allocator describe one tiling of its `total` slots. -/
structure Inv (total : Nat) (a : BuddyAllocator) (lists : Nat → List Nat) (live : Nat → Option Nat)
    (hand : Option (Nat × Nat)) : Prop where
  totalSlots : a.totalSlots = total
  freeLists : FreeLists a lists
  tiling : Tiling total (Holds lists live hand)
  bounded : ∀ t i k, Holds lists live hand t i k → k ≤ maxOrder
  size : a.allocated.size = total
  heads : ∀ i, a.allocated.get i = .ok true ↔ (live i).isSome = true

namespace Inv

variable {total : Nat} {a : BuddyAllocator} {lists : Nat → List Nat} {live : Nat → Option Nat}
  {hand : Option (Nat × Nat)} {i k : Nat} {rest : List Nat}

/-- A free block leaves its list. -/
theorem holds_free_erase {keys : List Nat} (hkeys : ∀ j, j ∈ keys ↔ j ∈ lists k ∧ j ≠ i)
    (j m : Nat) : Holds (Function.update lists k keys) live hand .free j m ↔
      (m ≤ maxOrder ∧ j ∈ lists m) ∧ ¬ (j = i ∧ m = k) := by
  show m ≤ maxOrder ∧ j ∈ Function.update lists k keys m ↔ _
  by_cases hm : m = k
  · subst hm
    rw [Function.update_self, hkeys]
    simp [and_assoc]
  · rw [Function.update_of_ne hm]
    simp [hm]

/-- A block joins its list. -/
theorem holds_free_cons (hk : k ≤ maxOrder) (i j m : Nat) :
    Holds (Function.update lists k (i :: lists k)) live hand .free j m ↔
      (m ≤ maxOrder ∧ j ∈ lists m) ∨ (j = i ∧ m = k) := by
  show m ≤ maxOrder ∧ j ∈ Function.update lists k (i :: lists k) m ↔ _
  by_cases hm : m = k
  · subst hm
    rw [Function.update_self, List.mem_cons]
    simp [hk, Or.comm]
  · rw [Function.update_of_ne hm]
    simp [hm]

/-- A position that the block in hand covers is the head of no free block. -/
theorem not_free (h : Inv total a lists live (some (i, k))) {p : Nat} (hp : Covers i k p) :
    ∀ k' ≤ maxOrder, p ∉ lists k' := by
  intro k' hk' hin
  obtain ⟨heq, -, -⟩ := h.tiling.unique .hand i k .free p k' p rfl ⟨hk', hin⟩ hp (covers_self p k')
  exact absurd heq (by simp)

/-- What is not about the lists stays, and so do the live heads. -/
theorem of_sameElse {a' : BuddyAllocator} {lists' : Nat → List Nat} {hand' : Option (Nat × Nat)}
    (h : Inv total a lists live hand) (hsame : SameElse a a') (hlists : FreeLists a' lists')
    (htiling : Tiling total (Holds lists' live hand'))
    (hbounded : ∀ t i k, Holds lists' live hand' t i k → k ≤ maxOrder) :
    Inv total a' lists' live hand' := by
  refine ⟨hsame.totalSlots.trans h.totalSlots, hlists, htiling, hbounded, ?_, ?_⟩
  · rw [hsame.allocated]
    exact h.size
  · rw [hsame.allocated]
    exact h.heads

/-- The blocks of a caller or in hand keep their bounds when the lists change. -/
theorem bounded_of (h : Inv total a lists live hand) {lists' : Nat → List Nat}
    {hand' : Option (Nat × Nat)} (hhand : ∀ i k, hand' = some (i, k) → k ≤ maxOrder) :
    ∀ t i k, Holds lists' live hand' t i k → k ≤ maxOrder := by
  intro t i k hblock
  cases t with
  | free => exact hblock.1
  | live => exact h.bounded .live i k hblock
  | hand => exact hhand i k hblock

theorem lt_totalSlots (h : Inv total a lists live hand) {t : Holder}
    (hblock : Holds lists live hand t i k) : i < a.totalSlots := by
  have hinside := h.tiling.inside t i k hblock
  have hpos := Nat.two_pow_pos k
  have htotal := h.totalSlots
  omega

/-- The first block of a list comes to hand. -/
theorem pop (h : Inv total a lists live none) (hk : k ≤ maxOrder) (hlist : lists k = i :: rest) :
    ∃ a', a.popFreeList k = some (a', i) ∧
      Inv total a' (Function.update lists k rest) live (some (i, k)) := by
  obtain ⟨a', hpop, hlists, hsame⟩ := BuddyAllocator.popFreeList_spec h.freeLists hk hlist
  have hnodup := (h.freeLists.represents k hk).nodup
  rw [hlist] at hnodup
  have hkeys : ∀ j, j ∈ rest ↔ j ∈ lists k ∧ j ≠ i := by
    intro j
    rw [hlist, List.mem_cons]
    have hi : i ∉ rest := (List.nodup_cons.mp hnodup).1
    constructor
    · exact fun hj => ⟨Or.inr hj, fun heq => hi (heq ▸ hj)⟩
    · exact fun ⟨hj, hne⟩ => hj.resolve_left hne
  refine ⟨a', hpop, h.of_sameElse hsame hlists ?_ (h.bounded_of ?_)⟩
  · have hblock : Holds lists live none .free i k := ⟨hk, by simp [hlist]⟩
    refine h.tiling.move .free .hand hblock ?_
    intro t j m
    cases t with
    | free =>
      rw [holds_free_erase hkeys]
      simp [Holds]
    | live => simp [Holds]
    | hand => simp [Holds, eq_comm]
  · rintro j m heq
    cases heq
    exact hk

/-- The block in hand goes to its free list. -/
theorem add (h : Inv total a lists live (some (i, k))) :
    ∃ a', a.addToFreeList i k = some a' ∧
      Inv total a' (Function.update lists k (i :: lists k)) live none := by
  have hblock : Holds lists live (some (i, k)) .hand i k := rfl
  have hk : k ≤ maxOrder := h.bounded .hand i k hblock
  obtain ⟨a', hadd, hlists, hsame⟩ := BuddyAllocator.addToFreeList_spec h.freeLists hk
    (h.lt_totalSlots hblock) (h.not_free (covers_self i k))
  refine ⟨a', hadd, h.of_sameElse hsame hlists ?_ (h.bounded_of fun _ _ heq => nomatch heq)⟩
  refine h.tiling.move .hand .free hblock ?_
  intro t j m
  cases t with
  | free =>
    rw [holds_free_cons hk]
    simp [Holds]
  | live => simp [Holds]
  | hand => simp [Holds, eq_comm]

/-- The upper half of the block in hand goes to its free list. -/
theorem addUpper (h : Inv total a lists live (some (i, k + 1))) :
    ∃ a', a.addToFreeList (i + 2 ^ k) k = some a' ∧
      Inv total a' (Function.update lists k ((i + 2 ^ k) :: lists k)) live (some (i, k)) := by
  have hblock : Holds lists live (some (i, k + 1)) .hand i (k + 1) := rfl
  have hk : k ≤ maxOrder := Nat.le_of_succ_le (h.bounded .hand i (k + 1) hblock)
  have hupper : Covers i (k + 1) (i + 2 ^ k) :=
    (covers_succ_iff ..).mpr (Or.inr (covers_self ..))
  have hlt : i + 2 ^ k < a.totalSlots := by
    rw [h.totalSlots]
    exact Nat.lt_of_lt_of_le hupper.2 (h.tiling.inside .hand i (k + 1) hblock)
  obtain ⟨a', hadd, hlists, hsame⟩ :=
    BuddyAllocator.addToFreeList_spec h.freeLists hk hlt (h.not_free hupper)
  refine ⟨a', hadd, h.of_sameElse hsame hlists ?_ (h.bounded_of ?_)⟩
  · refine h.tiling.split .hand .hand .free hblock ?_
    intro t j m
    cases t with
    | free =>
      rw [holds_free_cons hk]
      simp [Holds]
    | live => simp [Holds]
    | hand =>
      simp only [Holds, Option.some.injEq, Prod.mk.injEq]
      constructor
      · rintro ⟨rfl, rfl⟩
        exact Or.inr (Or.inl ⟨trivial, rfl, rfl⟩)
      · rintro (⟨⟨rfl, rfl⟩, hne⟩ | ⟨_, rfl, rfl⟩ | ⟨heq, _⟩)
        · exact absurd ⟨trivial, rfl, rfl⟩ hne
        · exact ⟨rfl, rfl⟩
        · exact absurd heq (by simp)
  · rintro j m heq
    cases heq
    exact hk

/-- The block in hand swallows its buddy, a free block of the same order. -/
theorem removeBuddy (h : Inv total a lists live (some (i, k))) (hk : k < maxOrder)
    (hbuddy : i ^^^ 2 ^ k ∈ lists k) :
    ∃ a', a.removeFromFreeList (i ^^^ 2 ^ k) k = some a' ∧
      Inv total a' (Function.update lists k ((lists k).erase (i ^^^ 2 ^ k))) live
        (some (min i (i ^^^ 2 ^ k), k + 1)) := by
  have hblock : Holds lists live (some (i, k)) .hand i k := rfl
  have hfree : Holds lists live (some (i, k)) .free (i ^^^ 2 ^ k) k := ⟨Nat.le_of_lt hk, hbuddy⟩
  obtain ⟨a', hremove, hlists, hsame⟩ := BuddyAllocator.removeFromFreeList_spec h.freeLists
    (Nat.le_of_lt hk) (h.lt_totalSlots hfree) hbuddy
  have hnodup := (h.freeLists.represents k (Nat.le_of_lt hk)).nodup
  have hkeys : ∀ j, j ∈ (lists k).erase (i ^^^ 2 ^ k) ↔ j ∈ lists k ∧ j ≠ i ^^^ 2 ^ k := by
    intro j
    rw [hnodup.mem_erase_iff, and_comm]
  refine ⟨a', hremove, h.of_sameElse hsame hlists ?_ (h.bounded_of ?_)⟩
  · refine h.tiling.merge .hand .free .hand hblock hfree ?_
    intro t j m
    cases t with
    | free =>
      rw [holds_free_erase hkeys]
      simp [Holds]
    | live => simp [Holds]
    | hand => simp [Holds, eq_comm]
  · rintro j m heq
    cases heq
    exact hk

/-- The block in hand is handed out. -/
theorem markAllocated (h : Inv total a lists live (some (i, k))) :
    Inv total (a.markAllocated i) lists (Function.update live i (some k)) none := by
  have hblock : Holds lists live (some (i, k)) .hand i k := rfl
  have hnone : live i = none := by
    cases hlive : live i with
    | none => rfl
    | some k' =>
      obtain ⟨heq, -, -⟩ := h.tiling.unique .hand i k .live i k' i hblock hlive (covers_self i k)
        (covers_self i k')
      exact absurd heq (by simp)
  have hi : i < a.allocated.size := by
    rw [h.size, ← h.totalSlots]
    exact h.lt_totalSlots hblock
  obtain ⟨allocated, hset, hsize, hget⟩ := BitSet.set_spec hi
  have hmark : a.markAllocated i = { a with allocated := allocated } := by
    unfold BuddyAllocator.markAllocated
    rw [hset]
  rw [hmark]
  refine ⟨h.totalSlots, ⟨h.freeLists.represents, h.freeLists.apart, h.freeLists.bitmap,
    h.freeLists.order⟩, ?_, ?_, hsize.trans h.size, ?_⟩
  · refine h.tiling.move .hand .live hblock ?_
    intro t j m
    cases t with
    | free => simp [Holds]
    | live =>
      by_cases hj : j = i
      · subst hj
        simp [Holds, hnone, eq_comm]
      · simp [Holds, hj]
    | hand => simp [Holds, eq_comm]
  · intro t j m hheld
    cases t with
    | free => exact hheld.1
    | live =>
      by_cases hj : j = i
      · subst hj
        simp only [Holds, Function.update_self, Option.some.injEq] at hheld
        subst hheld
        exact h.bounded .hand j k hblock
      · simp only [Holds, Function.update_of_ne hj] at hheld
        exact h.bounded .live j m hheld
    | hand => exact absurd hheld (by simp [Holds])
  · intro j
    show allocated.get j = _ ↔ _
    rw [hget]
    by_cases hj : j = i
    · simp [hj]
    · simp [hj, h.heads]

/-- A live block is taken back. -/
theorem markFree (h : Inv total a lists live none) (hlive : live i = some k) :
    Inv total (a.markFree i) lists (Function.update live i none) (some (i, k)) := by
  have hblock : Holds lists live none .live i k := hlive
  have hi : i < a.allocated.size := by
    rw [h.size, ← h.totalSlots]
    exact h.lt_totalSlots hblock
  obtain ⟨allocated, hclear, hsize, hget⟩ := BitSet.clear_spec hi
  have hmark : a.markFree i = { a with allocated := allocated } := by
    unfold BuddyAllocator.markFree
    rw [hclear]
  rw [hmark]
  refine ⟨h.totalSlots, ⟨h.freeLists.represents, h.freeLists.apart, h.freeLists.bitmap,
    h.freeLists.order⟩, ?_, ?_, hsize.trans h.size, ?_⟩
  · refine h.tiling.move .live .hand hblock ?_
    intro t j m
    cases t with
    | free => simp [Holds]
    | live =>
      by_cases hj : j = i
      · subst hj
        simp [Holds, hlive, eq_comm]
      · simp [Holds, hj]
    | hand => simp [Holds, eq_comm]
  · intro t j m hheld
    cases t with
    | free => exact hheld.1
    | live =>
      by_cases hj : j = i
      · subst hj
        exact absurd hheld (by simp [Holds])
      · simp only [Holds, Function.update_of_ne hj] at hheld
        exact h.bounded .live j m hheld
    | hand =>
      cases hheld
      exact h.bounded .live i k hblock
  · intro j
    show allocated.get j = _ ↔ _
    rw [hget]
    by_cases hj : j = i
    · simp [hj]
    · simp [hj, h.heads]

end Inv

end Veloq.Heap
