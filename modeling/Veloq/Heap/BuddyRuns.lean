import Veloq.Heap.BuddyInvariant
set_option autoImplicit false

/-!
# Heap: the buddy allocator over whole runs

The loops of `new`, `alloc` and `dealloc` keep the invariant, so every call of a run
does.  No call panics, `alloc` returns blocks that no caller holds, and `dealloc`
refuses exactly the indices that are not the head of a live block.
-/

namespace Veloq.Heap

open Veloq.Foundation
open Veloq.Foundation.Dyadic
open Veloq.Collections (BitSet)
open Veloq.Intrusive (Link LinkedList Represents)

namespace Inv

variable {total : Nat} {a : BuddyAllocator} {lists : Nat → List Nat} {live : Nat → Option Nat}
  {hand : Option (Nat × Nat)} {i k order : Nat}

/-! ## Allocation -/

/-- The splitting loop shrinks the block in hand to the requested order.  The buddy of
an upper half is the block in hand, so it is not free. -/
theorem splitDown (h : Inv total a lists live (some (i, k))) (horder : order ≤ k) :
    ∃ a' lists', a.splitDown i order k = some a' ∧ Inv total a' lists' live (some (i, order)) ∧
      (Merged lists → Merged lists') := by
  induction k generalizing a lists with
  | zero =>
    obtain rfl : order = 0 := Nat.le_zero.mp horder
    exact ⟨a, lists, rfl, h, id⟩
  | succ k ih =>
    unfold BuddyAllocator.splitDown
    by_cases hlt : order < k + 1
    · obtain ⟨a₁, hadd, h₁⟩ := h.addUpper
      obtain ⟨a', lists', hsplit, h', hmerged⟩ := ih h₁ (Nat.le_of_lt_succ hlt)
      rw [if_pos hlt, hadd]
      refine ⟨a', lists', hsplit, h', fun hlists => hmerged (hlists.cons fun hk => ?_)⟩
      have hxor := xor_two_pow_of_dvd (h.tiling.aligned .hand i (k + 1) rfl)
      rw [← hxor, Nat.xor_assoc, Nat.xor_self, Nat.xor_zero]
      exact h.not_free (covers_self ..) k (Nat.le_of_lt hk)
    · obtain rfl : order = k + 1 := by omega
      rw [if_neg hlt]
      exact ⟨a, lists, rfl, h, id⟩

/-- The lowest candidate is the order of a list that is not empty. -/
theorem candidate (h : Inv total a lists live hand) (horder : order ≤ maxOrder)
    (hne : a.freeBitmap &&& ~~~(1#32 <<< order - 1#32) ≠ 0) :
    ∃ found index rest, (a.freeBitmap &&& ~~~(1#32 <<< order - 1#32)).ctz.toNat = found ∧
      order ≤ found ∧ found ≤ maxOrder ∧ lists found = index :: rest := by
  have hbit := BitVec.getLsbD_true_ctz_of_ne_zero hne
  rw [BitVec.getLsbD_and, Bits.getLsbD_not_low (Nat.lt_of_le_of_lt horder (by decide))] at hbit
  simp only [Bool.and_eq_true, decide_eq_true_eq] at hbit
  obtain ⟨hset, -, hle⟩ := hbit
  obtain ⟨hmax, hlist⟩ := (h.freeLists.bitmap _).mp hset
  obtain ⟨index, rest, hcons⟩ := List.exists_cons_of_ne_nil hlist
  exact ⟨_, index, rest, rfl, hle, hmax, hcons⟩

/-- Without a candidate all lists from `order` on are empty. -/
theorem empty_of_no_candidate (h : Inv total a lists live hand)
    (hzero : a.freeBitmap &&& ~~~(1#32 <<< order - 1#32) = 0) (hle : order ≤ k)
    (hk : k ≤ maxOrder) : lists k = [] := by
  by_contra hne
  have hwidth : maxOrder < 32 := by decide
  have hbit : (a.freeBitmap &&& ~~~(1#32 <<< order - 1#32)).getLsbD k = true := by
    rw [BitVec.getLsbD_and, Bits.getLsbD_not_low (by omega), (h.freeLists.bitmap k).mpr ⟨hk, hne⟩]
    simp only [Bool.true_and, Bool.and_eq_true, decide_eq_true_eq]
    omega
  rw [hzero] at hbit
  exact absurd hbit (by simp)

/-- `alloc` finds no block that is large enough and changes nothing, or hands out a block
of the requested order that no caller holds. -/
theorem alloc (h : Inv total a lists live none) (order : Nat) :
    (a.alloc order = some (a, none) ∧ ∀ k, order ≤ k → k ≤ maxOrder → lists k = []) ∨
    ∃ a' lists' i, a.alloc order = some (a', some i) ∧
      Inv total a' lists' (Function.update live i (some order)) none ∧
      (∀ j k p, live j = some k → Covers j k p → ¬ Covers i order p) ∧
      (Merged lists → Merged lists') := by
  unfold BuddyAllocator.alloc
  by_cases hmax : maxOrder < order
  · rw [if_pos hmax]
    exact Or.inl ⟨rfl, fun k hle hk => by omega⟩
  rw [if_neg hmax]
  by_cases hcandidates : a.freeBitmap &&& ~~~(1#32 <<< order - 1#32) = 0
  · left
    simp only [hcandidates, if_true, true_and]
    exact fun k hle hk => h.empty_of_no_candidate hcandidates hle hk
  obtain ⟨found, index, rest, hfound, hle, hfoundMax, hlist⟩ :=
    h.candidate (Nat.le_of_not_lt hmax) hcandidates
  obtain ⟨a₁, hpop, h₁⟩ := h.pop hfoundMax hlist
  obtain ⟨a₂, lists₂, hsplit, h₂, hmerged⟩ := h₁.splitDown hle
  simp only [hcandidates, if_false, hfound, hpop, hsplit]
  refine Or.inr ⟨_, lists₂, index, rfl, h₂.markAllocated, ?_, fun hlists => ?_⟩
  · intro j k p hlive hp hp'
    obtain ⟨heq, -, -⟩ := h₂.tiling.unique .live j k .hand index order p hlive rfl hp hp'
    exact absurd heq (by simp)
  · refine hmerged (hlists.sublist fun j hj => ?_)
    rw [hlist]
    exact List.mem_cons_of_mem index hj

/-! ## Deallocation -/

/-- A buddy in bounds that is not allocated is the head of a free block, and its stored
order is the order of that block. -/
theorem buddy_free (h : Inv total a lists live (some (i, k)))
    (hget : a.allocated.get (i ^^^ 2 ^ k) = .ok false) :
    i ^^^ 2 ^ k < a.totalSlots ∧
      i ^^^ 2 ^ k ∈ lists (a.memory (i ^^^ 2 ^ k)).order := by
  have hblock : Holds lists live (some (i, k)) .hand i k := rfl
  have hlt : i ^^^ 2 ^ k < total := by
    rw [← h.size]
    refine Nat.lt_of_not_le fun hle => ?_
    rw [BitSet.get_of_ge hle] at hget
    exact absurd hget (by simp)
  refine ⟨Nat.lt_of_lt_of_eq hlt h.totalSlots.symm, ?_⟩
  obtain ⟨t, k', hheld, -⟩ := h.tiling.buddy_head hblock hlt
  cases t with
  | free =>
    rw [h.freeLists.order k' hheld.1 _ hheld.2]
    exact hheld.2
  | live =>
    have hhead := (h.heads (i ^^^ 2 ^ k)).mpr (by rw [show live _ = some k' from hheld]; rfl)
    rw [hget] at hhead
    exact absurd hhead (by simp)
  | hand =>
    have heq : some (i, k) = some (i ^^^ 2 ^ k, k') := hheld
    obtain ⟨hself, -⟩ := Prod.mk.inj (Option.some.inj heq)
    exact absurd hself.symm (xor_two_pow_ne i k)

/-- A buddy that is not on record as free is in no free list. -/
theorem buddy_not_free (h : Inv total a lists live (some (i, k))) (hk : k < maxOrder)
    (hget : a.allocated.get (i ^^^ 2 ^ k) ≠ .ok false) : i ^^^ 2 ^ k ∉ lists k := by
  intro hin
  have hfree : Holds lists live (some (i, k)) .free (i ^^^ 2 ^ k) k := ⟨Nat.le_of_lt hk, hin⟩
  have hlt := h.lt_totalSlots hfree
  rw [h.totalSlots, ← h.size] at hlt
  cases hlive : a.allocated.get (i ^^^ 2 ^ k) with
  | error e => exact absurd (hlive.symm.trans (BitSet.get_of_lt hlt)) (by simp)
  | ok allocated =>
    cases allocated with
    | false => exact hget hlive
    | true =>
      obtain ⟨m, hm⟩ := Option.isSome_iff_exists.mp ((h.heads _).mp hlive)
      obtain ⟨heq, -, -⟩ := h.tiling.unique .free _ k .live _ m _ hfree hm (covers_self ..)
        (covers_self ..)
      exact absurd heq (by simp)

/-- The merging loop grows the block in hand until its buddy is not free. -/
theorem mergeUp (h : Inv total a lists live (some (i, k))) {rounds : Nat}
    (hrounds : maxOrder ≤ k + rounds) :
    ∃ a' lists' i' k', BuddyAllocator.mergeUp rounds a i k = some (a', i', k') ∧
      Inv total a' lists' live (some (i', k')) ∧ (Merged lists → Merged lists') ∧
      (k' < maxOrder → i' ^^^ 2 ^ k' ∉ lists' k') := by
  induction rounds generalizing a lists i k with
  | zero => exact ⟨a, lists, i, k, rfl, h, id, fun hk => absurd hrounds (by omega)⟩
  | succ rounds ih =>
    unfold BuddyAllocator.mergeUp
    by_cases hk : k < maxOrder
    · rw [if_pos hk]
      cases hget : a.allocated.get (i ^^^ 2 ^ k) with
      | error e =>
        refine ⟨a, lists, i, k, by simp only [hget], h, id, fun _ => ?_⟩
        exact h.buddy_not_free hk (by simp [hget])
      | ok allocated =>
        cases allocated with
        | true =>
          refine ⟨a, lists, i, k, by simp only [hget], h, id, fun _ => ?_⟩
          exact h.buddy_not_free hk (by simp [hget])
        | false =>
          obtain ⟨hlt, hfree⟩ := h.buddy_free hget
          simp only [hget, if_pos hlt]
          by_cases horder : (a.memory (i ^^^ 2 ^ k)).order = k
          · rw [horder] at hfree
            obtain ⟨a₁, hremove, h₁⟩ := h.removeBuddy hk hfree
            have hmin : (if i ^^^ 2 ^ k < i then i ^^^ 2 ^ k else i) = min i (i ^^^ 2 ^ k) := by
              split <;> omega
            obtain ⟨a', lists', i', k', hmerge, h', hmerged, hstop⟩ := ih h₁ (by omega)
            rw [if_pos horder, hremove, hmin]
            refine ⟨a', lists', i', k', hmerge, h', fun hlists => ?_, hstop⟩
            exact hmerged (hlists.sublist fun j hj => List.mem_of_mem_erase hj)
          · rw [if_neg horder]
            refine ⟨a, lists, i, k, rfl, h, id, fun _ hin => horder ?_⟩
            exact h.freeLists.order k (Nat.le_of_lt hk) _ hin
    · rw [if_neg hk]
      exact ⟨a, lists, i, k, rfl, h, id, fun hlt => absurd hlt hk⟩

/-- A live block is deallocated with its own order. -/
theorem dealloc (h : Inv total a lists live none) (hlive : live i = some k) :
    ∃ a' lists', a.dealloc i k = some (a', .ok ()) ∧
      Inv total a' lists' (Function.update live i none) none ∧ (Merged lists → Merged lists') := by
  have hget : a.allocated.get i = .ok true := (h.heads i).mpr (by simp [hlive])
  have hrounds : maxOrder ≤ k + (maxOrder - k) := by omega
  obtain ⟨a₁, lists₁, i', k', hmerge, h₁, hmerged, hstop⟩ := (h.markFree hlive).mergeUp hrounds
  obtain ⟨a₂, hadd, h₂⟩ := h₁.add
  refine ⟨a₂, _, ?_, h₂, fun hlists => (hmerged hlists).cons hstop⟩
  unfold BuddyAllocator.dealloc
  rw [hget]
  simp only [hmerge, hadd]

/-- Only an index that is not the head of a live block is refused, and nothing
changes. -/
theorem of_refused (h : Inv total a lists live none) {a' : BuddyAllocator} {e : BuddyError}
    (hdealloc : a.dealloc i order = some (a', .error e)) : live i = none ∧ a' = a := by
  have hfree : a.allocated.get i ≠ .ok true → live i = none := by
    intro hget
    by_contra hsome
    exact hget ((h.heads i).mpr (Option.isSome_iff_ne_none.mpr hsome))
  unfold BuddyAllocator.dealloc at hdealloc
  split at hdealloc
  · split at hdealloc
    · exact absurd hdealloc (by simp)
    · split at hdealloc
      · exact absurd hdealloc (by simp)
      · exact absurd hdealloc (by simp)
  · rename_i hget
    cases hdealloc
    exact ⟨hfree (by simp [hget]), rfl⟩
  · rename_i hget
    cases hdealloc
    exact ⟨hfree (by simp [hget]), rfl⟩

/-- Any other index is refused. -/
theorem dealloc_refused (h : Inv total a lists live none) (hlive : live i = none) (order : Nat) :
    ∃ e, a.dealloc i order = some (a, .error e) := by
  unfold BuddyAllocator.dealloc
  cases hget : a.allocated.get i with
  | error e => exact ⟨_, rfl⟩
  | ok allocated =>
    cases allocated with
    | false => exact ⟨_, rfl⟩
    | true =>
      have := (h.heads i).mp hget
      rw [hlive] at this
      exact absurd this (by simp)

end Inv

/-! ## Initialisation -/

/-- `init_free_blocks` with `[0, start)` tiled already.  Whatever block size still fits
into the rest divides `start`, because blocks are cut off in decreasing order; below the
largest order there is at most one block of each. -/
structure Started (total : Nat) (a : BuddyAllocator) (lists : Nat → List Nat)
    (start remaining : Nat) : Prop where
  totalSlots : a.totalSlots = total
  allocated : a.allocated = BitSet.new total
  freeLists : FreeLists a lists
  tiling : Tiling start (Holds lists (fun _ => none) none)
  sum : start + remaining = total
  divides : ∀ j ≤ maxOrder, 2 ^ j ≤ remaining → 2 ^ j ∣ start
  merged : Merged lists
  larger : ∀ k < maxOrder, lists k ≠ [] → remaining < 2 ^ k

namespace Started

variable {total start remaining : Nat} {a : BuddyAllocator} {lists : Nat → List Nat}

/-- The order that `init_free_blocks` cuts off next. -/
theorem order_spec (hpos : 0 < remaining) :
    2 ^ min (Nat.log2 remaining) maxOrder ≤ remaining ∧
      ∀ j ≤ maxOrder, 2 ^ j ≤ remaining - 2 ^ min (Nat.log2 remaining) maxOrder →
        j ≤ min (Nat.log2 remaining) maxOrder ∧
          (min (Nat.log2 remaining) maxOrder < maxOrder →
            j < min (Nat.log2 remaining) maxOrder) := by
  have hle : 2 ^ Nat.log2 remaining ≤ remaining := Nat.log2_self_le (by omega)
  have hlt : remaining < 2 ^ (Nat.log2 remaining + 1) := Nat.lt_log2_self
  refine ⟨Nat.le_trans (Nat.pow_le_pow_right (by decide) (Nat.min_le_left ..)) hle, ?_⟩
  intro j hj hfits
  by_cases hmax : maxOrder ≤ Nat.log2 remaining
  · rw [Nat.min_eq_right hmax]
    exact ⟨hj, fun h => absurd h (Nat.lt_irrefl _)⟩
  · rw [Nat.min_eq_left (by omega)] at hfits ⊢
    rw [Nat.pow_succ] at hlt
    have hpow : 2 ^ j < 2 ^ Nat.log2 remaining := by omega
    have hsmaller := (Nat.pow_lt_pow_iff_right (by decide)).mp hpow
    exact ⟨Nat.le_of_lt hsmaller, fun _ => hsmaller⟩

/-- One round. -/
theorem add (h : Started total a lists start remaining) (hpos : 0 < remaining) :
    ∃ a' lists', a.addToFreeList start (min (Nat.log2 remaining) maxOrder) = some a' ∧
      start ∈ lists' (min (Nat.log2 remaining) maxOrder) ∧ (∀ k, ∀ j ∈ lists k, j ∈ lists' k) ∧
      Started total a' lists' (start + 2 ^ min (Nat.log2 remaining) maxOrder)
        (remaining - 2 ^ min (Nat.log2 remaining) maxOrder) := by
  obtain ⟨hfits, hnext⟩ := order_spec hpos
  set order := min (Nat.log2 remaining) maxOrder
  have horder : order ≤ maxOrder := Nat.min_le_right ..
  have hdvd : 2 ^ order ∣ start := h.divides order horder hfits
  have hfresh : ∀ k ≤ maxOrder, start ∉ lists k := by
    intro k hk hin
    have := h.tiling.inside .free start k ⟨hk, hin⟩
    have := Nat.two_pow_pos k
    omega
  have hstart : start < a.totalSlots := by
    have := h.sum
    have := h.totalSlots
    omega
  obtain ⟨a', hadd, hlists, hsame⟩ :=
    BuddyAllocator.addToFreeList_spec h.freeLists horder hstart hfresh
  refine ⟨a', _, hadd, by simp, ?_, hsame.totalSlots.trans h.totalSlots,
    hsame.allocated.trans h.allocated, hlists, ?_, ?_, ?_, ?_, ?_⟩
  · intro k j hj
    by_cases hk : k = order
    · subst hk
      rw [Function.update_self]
      exact List.mem_cons_of_mem _ hj
    · rw [Function.update_of_ne hk]
      exact hj
  · refine h.tiling.extend .free hdvd ?_
    intro t j m
    cases t with
    | free =>
      rw [Inv.holds_free_cons horder]
      simp [Holds]
    | live => simp [Holds]
    | hand => simp [Holds]
  · have := h.sum
    omega
  · intro j hj hle
    have hpow : 2 ^ j ∣ 2 ^ order := Nat.pow_dvd_pow 2 (hnext j hj hle).1
    exact Nat.dvd_add (Nat.dvd_trans hpow hdvd) hpow
  · refine h.merged.cons fun hlt hbuddy => ?_
    exact absurd (h.larger order hlt (List.ne_nil_of_mem hbuddy)) (Nat.not_lt.mpr hfits)
  · intro k hk hne
    by_cases heq : k = order
    · subst heq
      exact Nat.lt_of_not_le fun hle => absurd ((hnext order horder hle).2 hk) (Nat.lt_irrefl _)
    · rw [Function.update_of_ne heq] at hne
      exact Nat.lt_of_le_of_lt (Nat.sub_le ..) (h.larger k hk hne)

/-- The whole loop; the first block it cuts off is the largest one that fits. -/
theorem initFreeBlocks (h : Started total a lists start remaining) {rounds : Nat}
    (hrounds : remaining ≤ rounds) :
    ∃ a' lists', BuddyAllocator.initFreeBlocks rounds a start remaining = some a' ∧
      (0 < remaining → start ∈ lists' (min (Nat.log2 remaining) maxOrder)) ∧
      (∀ k, ∀ j ∈ lists k, j ∈ lists' k) ∧ Started total a' lists' total 0 := by
  induction rounds generalizing a lists start remaining with
  | zero =>
    obtain rfl : remaining = 0 := Nat.le_zero.mp hrounds
    obtain rfl : start = total := h.sum
    exact ⟨a, lists, rfl, fun hpos => absurd hpos (by simp), fun _ _ hj => hj, h⟩
  | succ rounds ih =>
    cases remaining with
    | zero =>
      obtain rfl : start = total := h.sum
      exact ⟨a, lists, rfl, fun hpos => absurd hpos (by simp), fun _ _ hj => hj, h⟩
    | succ remaining =>
      obtain ⟨a₁, lists₁, hadd, hin, hmono, h₁⟩ := h.add (Nat.succ_pos remaining)
      have hpos := Nat.two_pow_pos (min (Nat.log2 (remaining + 1)) maxOrder)
      obtain ⟨a', lists', hinit, -, hmono', h'⟩ := ih h₁ (by omega)
      refine ⟨a', lists', ?_, fun _ => hmono' _ _ hin, fun k j hj => hmono' k j (hmono k j hj), h'⟩
      rw [BuddyAllocator.initFreeBlocks]
      simp only [hadd]
      exact hinit

end Started

/-- `new` gives a region of at least one page an allocator without live blocks, whose
first free block is the largest one that fits. -/
theorem new_spec {len : Nat} (hlen : slotSize ≤ len) (memory : Nat → FreeNode) :
    ∃ a lists, BuddyAllocator.new memory len = some a ∧
      0 ∈ lists (min (Nat.log2 (len / slotSize)) maxOrder) ∧
      Inv (len / slotSize) a lists (fun _ => none) none ∧ Merged lists := by
  have hstarted : Started (len / slotSize)
      { memory := memory
        freeLists := fun _ => LinkedList.new
        freeBitmap := 0
        allocated := BitSet.new (len / slotSize)
        totalSlots := len / slotSize } (fun _ => []) 0 (len / slotSize) := by
    refine ⟨rfl, rfl, ⟨?_, ?_, ?_, ?_⟩, ⟨?_, ?_, ?_, ?_⟩, Nat.zero_add _, fun _ _ _ => ⟨0, rfl⟩,
      ?_, fun _ _ hne => absurd rfl hne⟩
    · exact fun _ _ => Represents.new
    · exact fun _ _ _ _ i hi => absurd hi (by simp)
    · simp
    · exact fun _ _ i hi => absurd hi (by simp)
    · intro t i k hheld
      cases t <;> exact absurd hheld (by simp [Holds])
    · intro t i k hheld
      cases t <;> exact absurd hheld (by simp [Holds])
    · exact fun p hp => absurd hp (Nat.not_lt_zero p)
    · intro t i k t' i' k' p hheld
      cases t <;> exact absurd hheld (by simp [Holds])
    · exact fun i k _ hfree => absurd hfree.2 (by simp)
  obtain ⟨a, lists, hinit, hfirst, -, h⟩ := hstarted.initFreeBlocks (Nat.le_refl _)
  have hpos : 0 < len / slotSize := Nat.div_pos hlen (by decide)
  refine ⟨a, lists, ?_, hfirst hpos, ⟨h.totalSlots, h.freeLists, h.tiling, ?_, ?_, ?_⟩, h.merged⟩
  · unfold BuddyAllocator.new
    rw [if_pos hlen]
    exact hinit
  · intro t i k hheld
    cases t with
    | free => exact hheld.1
    | live => exact absurd hheld (by simp [Holds])
    | hand => exact absurd hheld (by simp [Holds])
  · rw [h.allocated]
    rfl
  · intro i
    rw [h.allocated]
    by_cases hi : i < len / slotSize
    · simp [BitSet.get_new hi]
    · have hge : (BitSet.new (len / slotSize)).size ≤ i := Nat.le_of_not_lt hi
      simp [BitSet.get_of_ge hge]

/-! ## Runs -/

/-- A caller writes to memory it holds. -/
theorem Inv.write {total : Nat} {a : BuddyAllocator} {lists : Nat → List Nat}
    {live : Nat → Option Nat} {i k slot : Nat} (h : Inv total a lists live none)
    (hlive : live i = some k) (hslot : Covers i k slot) (node : FreeNode) :
    Inv total { a with memory := Function.update a.memory slot node } lists live none := by
  refine ⟨h.totalSlots, h.freeLists.write ?_ node, h.tiling, h.bounded, h.size, h.heads⟩
  intro k' hk' hin
  obtain ⟨heq, -, -⟩ := h.tiling.unique .live i k .free slot k' slot hlive ⟨hk', hin⟩ hslot
    (covers_self slot k')
  exact absurd heq (by simp)

/-- Free and live blocks tile the `total` slots, and all structures agree with the
tiling. -/
def Represented (total : Nat) (s : Managed) : Prop :=
  ∃ lists, Inv total s.allocator lists s.live none

/-- Every call and every write keeps the representation. -/
theorem Represented.step {total : Nat} {s s' : Managed} {e : BuddyEvent}
    (h : Represented total s) (hs : BuddyStep s e s') : Represented total s' := by
  obtain ⟨lists, h⟩ := h
  cases hs with
  | @alloc order a halloc =>
    rcases h.alloc order with ⟨hnone, -⟩ | ⟨_, _, _, hsome, _⟩
    · cases hnone.symm.trans halloc
      exact ⟨lists, h⟩
    · cases hsome.symm.trans halloc
  | @allocated order index a halloc =>
    rcases h.alloc order with ⟨hnone, -⟩ | ⟨_, lists', _, hsome, h', _⟩
    · cases hnone.symm.trans halloc
    · cases hsome.symm.trans halloc
      exact ⟨lists', h'⟩
  | @dealloc index order a hcontract hdealloc =>
    cases hlive : s.live index with
    | none =>
      obtain ⟨e, hrefused⟩ := h.dealloc_refused hlive order
      cases hrefused.symm.trans hdealloc
    | some k =>
      obtain rfl := hcontract k hlive
      obtain ⟨a', lists', hok, h', -⟩ := h.dealloc hlive
      cases hok.symm.trans hdealloc
      exact ⟨lists', h'⟩
  | @refused index order a e hdealloc =>
    obtain ⟨-, rfl⟩ := h.of_refused hdealloc
    exact ⟨lists, h⟩
  | @write slot index k node hlive hle hlt => exact ⟨lists, h.write hlive ⟨hle, hlt⟩ node⟩

/-- `alloc` does not panic, and a block it returns is aligned, inside the region and
apart from every live block. -/
def AllocSound (s : Managed) : Prop :=
  ∀ order, ∃ a result, s.allocator.alloc order = some (a, result) ∧
    ∀ index, result = some index → 2 ^ order ∣ index ∧ index + 2 ^ order ≤ s.allocator.totalSlots ∧
      ∀ j k p, s.live j = some k → Covers j k p → ¬ Covers index order p

/-- `dealloc` returns an error exactly for the indices that are not the head of a live
block, and then changes nothing; a live block is freed. -/
def DeallocSound (s : Managed) : Prop :=
  ∀ index order,
    (∀ a e, s.allocator.dealloc index order = some (a, .error e) →
      s.live index = none ∧ a = s.allocator) ∧
    (s.live index = none → ∃ e, s.allocator.dealloc index order = some (s.allocator, .error e)) ∧
    (s.live index = some order → ∃ a, s.allocator.dealloc index order = some (a, .ok ()))

/-- **The buddy allocator keeps its representation invariant.**  On every region of at
least one page, after every sequence of calls and of writes to live memory, the free
and the live blocks tile the slots, all structures agree with that tiling, and the next
call is sound. -/
theorem buddy_invariant {len : Nat} (hlen : slotSize ≤ len) (memory : Nat → FreeNode) :
    ∃ a, BuddyAllocator.new memory len = some a ∧
      ∀ s, Run BuddyStep Always (fun s => s = ⟨a, fun _ => none⟩) s →
        Represented (len / slotSize) s ∧ AllocSound s ∧ DeallocSound s := by
  obtain ⟨a, lists₀, hnew, -, h₀, -⟩ := new_spec hlen memory
  refine ⟨a, hnew, ?_⟩
  intro s hrun
  have hinv : Represented (len / slotSize) s := by
    refine hrun.invariant ?_ fun _ _ _ h _ hs => h.step hs
    rintro s rfl
    exact ⟨lists₀, h₀⟩
  obtain ⟨lists, h⟩ := hinv
  refine ⟨⟨lists, h⟩, ?_, ?_⟩
  · intro order
    rcases h.alloc order with ⟨hnone, -⟩ | ⟨a', lists', i, hsome, h', hapart, -⟩
    · exact ⟨_, _, hnone, fun index heq => absurd heq (by simp)⟩
    · refine ⟨_, _, hsome, ?_⟩
      rintro index heq
      cases heq
      have hblock : Holds lists' (Function.update s.live i (some order)) none .live i order :=
        Function.update_self ..
      rw [h.totalSlots]
      exact ⟨h'.tiling.aligned _ _ _ hblock, h'.tiling.inside _ _ _ hblock, hapart⟩
  · intro index order
    refine ⟨fun a e => h.of_refused, fun hnone => h.dealloc_refused hnone order, ?_⟩
    intro hlive
    obtain ⟨a', _, hok, _⟩ := h.dealloc hlive
    exact ⟨a', hok⟩

/-- What a fresh page reads as. -/
def zeroPage : FreeNode := { link := Link.new, order := 0 }

/-- A region of three pages. -/
def threePages : BuddyAllocator :=
  (BuddyAllocator.new (fun _ => zeroPage) (3 * slotSize)).get (by decide +kernel)

/-- Its first allocation of one page. -/
def firstPage : BuddyAllocator × Option Nat :=
  (threePages.alloc 0).get (by decide +kernel)

/-- The region of three pages after it handed out its last page. -/
theorem buddy_invariant_three_pages :
    threePages.alloc 0 = some (firstPage.1, some 2) ∧
      Represented 3 ⟨firstPage.1, Function.update (fun _ => none) 2 (some 0)⟩ ∧
      AllocSound ⟨firstPage.1, Function.update (fun _ => none) 2 (some 0)⟩ ∧
      DeallocSound ⟨firstPage.1, Function.update (fun _ => none) 2 (some 0)⟩ := by
  have halloc : threePages.alloc 0 = some (firstPage.1, some 2) := by
    have hpage : firstPage.2 = some 2 := by decide +kernel
    have hget : threePages.alloc 0 = some firstPage := by
      unfold firstPage
      rw [Option.some_get]
    rw [hget, ← hpage]
  obtain ⟨a, hnew, hall⟩ :=
    buddy_invariant (show slotSize ≤ 3 * slotSize by decide) (fun _ => zeroPage)
  have ha : threePages = a := by
    unfold threePages
    exact Option.get_of_eq_some _ hnew
  subst ha
  have hstart : Run BuddyStep Always (fun s => s = ⟨threePages, fun _ => none⟩)
      ⟨threePages, fun _ => none⟩ := Run.start rfl
  exact ⟨halloc, hall _ (hstart.next (.alloc 0) trivial (BuddyStep.allocated halloc))⟩

end Veloq.Heap
