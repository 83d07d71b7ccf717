import Veloq.Heap.BuddyRuns
set_option autoImplicit false

/-!
# Heap: the buddy allocator merges all it can

No two buddies are free at the same order below the largest one.  Free blocks are
therefore as large as the free pages allow: an allocation succeeds whenever an aligned
range of its size is free, and a region without live blocks is cut up the way it was at
the start.
-/

namespace Veloq.Heap

open Veloq.Foundation
open Veloq.Foundation.Dyadic
open Veloq.Intrusive (Link LinkedList Represents)

/-- The block of order `k` at `i` is in the free list of its order. -/
def FreeBlock (a : BuddyAllocator) (i k : Nat) : Prop :=
  k ≤ maxOrder ∧ ∃ keys, Represents (links a.memory) (a.freeLists k) keys ∧ i ∈ keys

/-- The aligned range of `2 ^ k` pages at `i` lies in the region and shares no page with
a live block. -/
def EntirelyFree (s : Managed) (i k : Nat) : Prop :=
  2 ^ k ∣ i ∧ i + 2 ^ k ≤ s.allocator.totalSlots ∧
    ∀ p, Covers i k p → ∀ j m, s.live j = some m → ¬ Covers j m p

/-- Free and live blocks tile the region, and the free ones are merged. -/
def Compact (total : Nat) (s : Managed) : Prop :=
  ∃ lists, Inv total s.allocator lists s.live none ∧ Merged lists

namespace Inv

variable {total : Nat} {a : BuddyAllocator} {lists : Nat → List Nat} {live : Nat → Option Nat}
  {i k : Nat}

theorem freeBlock_iff (h : Inv total a lists live none) (i k : Nat) :
    FreeBlock a i k ↔ Holds lists live none .free i k := by
  constructor
  · rintro ⟨hk, keys, hrep, hi⟩
    rw [hrep.unique (h.freeLists.represents k hk)] at hi
    exact ⟨hk, hi⟩
  · rintro ⟨hk, hi⟩
    exact ⟨hk, lists k, h.freeLists.represents k hk, hi⟩

/-- A page of no live block belongs to a free one. -/
theorem free_of_not_live (h : Inv total a lists live none) {p : Nat} (hp : p < total)
    (hlive : ∀ j m, live j = some m → ¬ Covers j m p) :
    ∃ j m, Holds lists live none .free j m ∧ Covers j m p := by
  obtain ⟨t, j, m, hblock, hcovers⟩ := h.tiling.cover p hp
  cases t with
  | free => exact ⟨j, m, hblock, hcovers⟩
  | live => exact absurd hcovers (hlive j m hblock)
  | hand => exact absurd hblock (by simp [Holds])

end Inv

namespace Compact

variable {total : Nat} {s s' : Managed}

/-- Every call and every write keeps the free blocks merged. -/
theorem step {e : BuddyEvent} (h : Compact total s) (hs : BuddyStep s e s') :
    Compact total s' := by
  obtain ⟨lists, h, hmerged⟩ := h
  cases hs with
  | @alloc order a halloc =>
    rcases h.alloc order with ⟨hnone, -⟩ | ⟨_, _, _, hsome, -⟩
    · cases hnone.symm.trans halloc
      exact ⟨lists, h, hmerged⟩
    · cases hsome.symm.trans halloc
  | @allocated order index a halloc =>
    rcases h.alloc order with ⟨hnone, -⟩ | ⟨_, lists', _, hsome, h', -, hkeep⟩
    · cases hnone.symm.trans halloc
    · cases hsome.symm.trans halloc
      exact ⟨lists', h', hkeep hmerged⟩
  | @dealloc index order a hcontract hdealloc =>
    cases hlive : s.live index with
    | none =>
      obtain ⟨e, hrefused⟩ := h.dealloc_refused hlive order
      cases hrefused.symm.trans hdealloc
    | some k =>
      obtain rfl := hcontract k hlive
      obtain ⟨a', lists', hok, h', hkeep⟩ := h.dealloc hlive
      cases hok.symm.trans hdealloc
      exact ⟨lists', h', hkeep hmerged⟩
  | @refused index order a e hdealloc =>
    obtain ⟨-, rfl⟩ := h.of_refused hdealloc
    exact ⟨lists, h, hmerged⟩
  | @write slot index k node hlive hle hlt =>
    exact ⟨lists, h.write hlive ⟨hle, hlt⟩ node, hmerged⟩

/-- No two free buddies. -/
theorem coalesced (h : Compact total s) : Coalesced maxOrder (FreeBlock s.allocator) := by
  obtain ⟨lists, h, hmerged⟩ := h
  exact hmerged.anti fun i k hfree => (h.freeBlock_iff i k).mp hfree

/-- `alloc` finds a block exactly when an aligned range of the size is free. -/
theorem alloc_iff (h : Compact total s) {order : Nat} (horder : order ≤ maxOrder) :
    (∃ a i, s.allocator.alloc order = some (a, some i)) ↔ ∃ i, EntirelyFree s i order := by
  obtain ⟨lists, h, hmerged⟩ := h
  constructor
  · rintro ⟨a, i, halloc⟩
    rcases h.alloc order with ⟨hnone, -⟩ | ⟨_, lists', _, hsome, h', hapart, -⟩
    · cases hnone.symm.trans halloc
    · cases hsome.symm.trans halloc
      have hblock : Holds lists' (Function.update s.live i (some order)) none .live i order :=
        Function.update_self ..
      refine ⟨i, h'.tiling.aligned _ _ _ hblock, ?_, fun p hp j m hlive hp' => ?_⟩
      · rw [h.totalSlots]
        exact h'.tiling.inside _ _ _ hblock
      · exact hapart j m p hlive hp' hp
  · rintro ⟨i, hdvd, hinside, hlive⟩
    rw [h.totalSlots] at hinside
    obtain ⟨j, m, ⟨hm, hj⟩, hle, -⟩ := h.tiling.exists_large hmerged.coalesced horder hdvd fun p hp =>
      h.free_of_not_live (Nat.lt_of_lt_of_le hp.2 hinside) (hlive p hp)
    rcases h.alloc order with ⟨-, hempty⟩ | ⟨a, _, i, hsome, -⟩
    · rw [hempty m hle hm] at hj
      exact absurd hj (by simp)
    · exact ⟨a, i, hsome⟩

/-- Without live blocks there is only one way to cut up the region. -/
theorem freeBlock_of_idle (h : Compact total s) (h' : Compact total s')
    (hidle : ∀ i, s.live i = none) (hidle' : ∀ i, s'.live i = none) {i k : Nat}
    (hfree : FreeBlock s.allocator i k) : FreeBlock s'.allocator i k := by
  obtain ⟨lists, h, hmerged⟩ := h
  obtain ⟨lists', h', hmerged'⟩ := h'
  rw [h.freeBlock_iff] at hfree
  rw [h'.freeBlock_iff]
  refine h.tiling.block_of_coalesced h'.tiling hmerged.coalesced hmerged'.coalesced
    (h.bounded .free) (h'.bounded .free) (fun p hp => ?_) (fun p hp => ?_) hfree
  · exact h.free_of_not_live hp fun j m hlive => absurd ((hidle j).symm.trans hlive) (by simp)
  · exact h'.free_of_not_live hp fun j m hlive => absurd ((hidle' j).symm.trans hlive) (by simp)

end Compact

/-- **Buddy blocks coalesce fully.**  On every region of at least one page, after every
sequence of calls and of writes to live memory, no two buddies below the largest order
are free, an allocation succeeds exactly when some aligned range of its size is free,
and when nothing is live the free blocks are those of the start. -/
theorem buddy_coalesces {len : Nat} (hlen : slotSize ≤ len) (memory : Nat → FreeNode) :
    ∃ a, BuddyAllocator.new memory len = some a ∧
      ∀ s, Run BuddyStep Always (fun s => s = ⟨a, fun _ => none⟩) s →
        Coalesced maxOrder (FreeBlock s.allocator) ∧
        (∀ order ≤ maxOrder, (∃ a' i, s.allocator.alloc order = some (a', some i)) ↔
          ∃ i, EntirelyFree s i order) ∧
        ((∀ i, s.live i = none) → ∀ i k, FreeBlock s.allocator i k ↔ FreeBlock a i k) := by
  obtain ⟨a, lists₀, hnew, -, h₀, hmerged₀⟩ := new_spec hlen memory
  have hstart : Compact (len / slotSize) ⟨a, fun _ => none⟩ := ⟨lists₀, h₀, hmerged₀⟩
  refine ⟨a, hnew, fun s hrun => ?_⟩
  have h : Compact (len / slotSize) s := by
    refine hrun.invariant ?_ fun _ _ _ h _ hs => h.step hs
    rintro s rfl
    exact hstart
  refine ⟨h.coalesced, fun order horder => h.alloc_iff horder, fun hidle i k => ?_⟩
  exact ⟨h.freeBlock_of_idle hstart hidle fun _ => rfl, hstart.freeBlock_of_idle h (fun _ => rfl) hidle⟩

/-- The region of three pages after its last page was handed out and taken back. -/
theorem buddy_coalesces_three_pages :
    ∃ a a', threePages.alloc 0 = some (a, some 2) ∧ a.dealloc 2 0 = some (a', .ok ()) ∧
      ∀ i k, FreeBlock a' i k ↔ FreeBlock threePages i k := by
  have halloc : threePages.alloc 0 = some (firstPage.1, some 2) := by
    have hpage : firstPage.2 = some 2 := by decide +kernel
    have hget : threePages.alloc 0 = some firstPage := by
      unfold firstPage
      rw [Option.some_get]
    rw [hget, ← hpage]
  obtain ⟨a, hnew, hall⟩ :=
    buddy_coalesces (show slotSize ≤ 3 * slotSize by decide) (fun _ => zeroPage)
  have ha : threePages = a := by
    unfold threePages
    exact Option.get_of_eq_some _ hnew
  subst ha
  have hok : ((firstPage.1.dealloc 2 0).map fun r => r.2) = some (.ok ()) := by decide +kernel
  -- from here on the allocators are only names
  generalize firstPage.1 = b at halloc hok
  generalize threePages = a at halloc hall ⊢
  obtain ⟨⟨a', result⟩, hdealloc, rfl⟩ := Option.map_eq_some_iff.mp hok
  have hstart : Run BuddyStep Always (fun s => s = ⟨a, fun _ => none⟩) ⟨a, fun _ => none⟩ :=
    Run.start rfl
  have hrun := hstart.next (.alloc 0) trivial (BuddyStep.allocated halloc)
  have hcontract : ∀ k, Function.update (fun _ => none) 2 (some 0) 2 = some k → k = 0 := by
    intro k hk
    rw [Function.update_self] at hk
    exact (Option.some.inj hk).symm
  have hrun' := hrun.next (.dealloc 2 0) trivial (BuddyStep.dealloc hcontract hdealloc)
  refine ⟨b, a', halloc, hdealloc, (hall _ hrun').2.2 fun i => ?_⟩
  show Function.update (Function.update (fun _ => none) 2 (some 0)) 2 none i = none
  by_cases hi : i = 2
  · rw [hi, Function.update_self]
  · rw [Function.update_of_ne hi, Function.update_of_ne hi]

end Veloq.Heap
