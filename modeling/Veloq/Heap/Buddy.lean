import Veloq.Foundation.Machine
import Veloq.Foundation.Run
import Veloq.Collections.BitSet
import Veloq.Intrusive.LinkedList
set_option autoImplicit false

/-!
# Heap: the buddy allocator

`BuddyAllocator` manages slots of one page.  A free block keeps its `FreeNode` (link and
order) in the first bytes of its own memory, so the managed memory is part of the state:
`memory i` is what the first bytes of slot `i` read as.  A pointer to a node is the index
of its slot.

A result `none` is a panic (an assertion, an index out of bounds, a node linked twice)
or an `unwrap_unchecked` on nothing.
-/

namespace Veloq.Heap

open Veloq.Foundation
open Veloq.Collections (BitSet)
open Veloq.Intrusive (Link LinkedList)

/-- `SLOT_SIZE`. -/
def slotSize : Nat := 4096

/-- `MAX_ORDER`. -/
def maxOrder : Nat := 18

/-- `FreeNode`. -/
structure FreeNode where
  link : Link Nat
  order : Nat
  deriving DecidableEq, Repr

/-- `BuddyError`. -/
inductive BuddyError where
  | oom
  | invalidFree
  | doubleFree
  deriving DecidableEq, Repr

/-- `BuddyAllocator`, together with the memory it manages. -/
structure BuddyAllocator where
  memory : Nat → FreeNode
  freeLists : Nat → LinkedList Nat
  freeBitmap : BitVec 32
  allocated : BitSet
  totalSlots : Nat

/-- The links stored in the managed memory. -/
def links (memory : Nat → FreeNode) (i : Nat) : Link Nat := (memory i).link

/-- The memory after its links were changed. -/
def withLinks (memory : Nat → FreeNode) (links : Nat → Link Nat) (i : Nat) : FreeNode :=
  { memory i with link := links i }

namespace BuddyAllocator

/-- `add_to_free_list`. -/
def addToFreeList (a : BuddyAllocator) (index order : Nat) : Option BuddyAllocator :=
  if index < a.totalSlots ∧ order ≤ maxOrder then
    let memory := Function.update a.memory index { link := Link.new, order := order % 2 ^ 8 }
    match (a.freeLists order).pushFront (links memory) index with
    | none => none
    | some (newLinks, list) => some { a with
        memory := withLinks memory newLinks
        freeLists := Function.update a.freeLists order list
        freeBitmap := a.freeBitmap ||| 1#32 <<< order }
  else
    none

/-- The bit of `order` is cleared when its list has become empty. -/
def clearIfEmpty (bitmap : BitVec 32) (list : LinkedList Nat) (order : Nat) : BitVec 32 :=
  if list.isEmpty then bitmap &&& ~~~(1#32 <<< order) else bitmap

/-- `remove_from_free_list`. -/
def removeFromFreeList (a : BuddyAllocator) (index order : Nat) : Option BuddyAllocator :=
  if index < a.totalSlots ∧ order ≤ maxOrder then
    let (newLinks, list) := (a.freeLists order).remove (links a.memory) index
    some { a with
      memory := withLinks a.memory newLinks
      freeLists := Function.update a.freeLists order list
      freeBitmap := clearIfEmpty a.freeBitmap list order }
  else
    none

/-- The pop of `alloc` from the list it found. -/
def popFreeList (a : BuddyAllocator) (order : Nat) : Option (BuddyAllocator × Nat) :=
  if order ≤ maxOrder then
    match (a.freeLists order).popFront (links a.memory) with
    | (_, _, none) => none
    | (newLinks, list, some index) => some ({ a with
        memory := withLinks a.memory newLinks
        freeLists := Function.update a.freeLists order list
        freeBitmap := clearIfEmpty a.freeBitmap list order }, index)
  else
    none

/-- The splitting loop of `alloc`: the upper halves go to the free lists until the
block at `index` has shrunk from `currOrder` to `order`. -/
def splitDown (a : BuddyAllocator) (index order : Nat) : Nat → Option BuddyAllocator
  | 0 => some a
  | currOrder + 1 =>
      if order < currOrder + 1 then
        match a.addToFreeList (index + 2 ^ currOrder) currOrder with
        | none => none
        | some a => splitDown a index order currOrder
      else
        some a

/-- `self.allocated.set(index)` with its error ignored. -/
def markAllocated (a : BuddyAllocator) (index : Nat) : BuddyAllocator :=
  match a.allocated.set index with
  | .ok allocated => { a with allocated := allocated }
  | .error _ => a

/-- `self.allocated.clear(index)` with its error ignored. -/
def markFree (a : BuddyAllocator) (index : Nat) : BuddyAllocator :=
  match a.allocated.clear index with
  | .ok allocated => { a with allocated := allocated }
  | .error _ => a

/-- `BuddyAllocator::alloc`. -/
def alloc (a : BuddyAllocator) (order : Nat) : Option (BuddyAllocator × Option Nat) :=
  if maxOrder < order then
    some (a, none)
  else
    let candidates := a.freeBitmap &&& ~~~(1#32 <<< order - 1#32)
    if candidates = 0 then
      some (a, none)
    else
      let foundOrder := candidates.ctz.toNat
      match a.popFreeList foundOrder with
      | none => none
      | some (a, foundIdx) =>
          match a.splitDown foundIdx order foundOrder with
          | none => none
          | some a => some (a.markAllocated foundIdx, some foundIdx)

/-- The merging loop of `dealloc`; the first argument bounds the number of rounds and
is `maxOrder - currOrder`. -/
def mergeUp : Nat → BuddyAllocator → Nat → Nat → Option (BuddyAllocator × Nat × Nat)
  | 0, a, currIdx, currOrder => some (a, currIdx, currOrder)
  | rounds + 1, a, currIdx, currOrder =>
      if currOrder < maxOrder then
        let buddyIdx := currIdx ^^^ 2 ^ currOrder
        match a.allocated.get buddyIdx with
        | .error _ => some (a, currIdx, currOrder)
        | .ok true => some (a, currIdx, currOrder)
        | .ok false =>
            if buddyIdx < a.totalSlots then
              if (a.memory buddyIdx).order = currOrder then
                match a.removeFromFreeList buddyIdx currOrder with
                | none => none
                | some a =>
                    mergeUp rounds a (if buddyIdx < currIdx then buddyIdx else currIdx)
                      (currOrder + 1)
              else
                some (a, currIdx, currOrder)
            else
              none
      else
        some (a, currIdx, currOrder)

/-- `BuddyAllocator::dealloc`. -/
def dealloc (a : BuddyAllocator) (index order : Nat) :
    Option (BuddyAllocator × Except BuddyError Unit) :=
  match a.allocated.get index with
  | .ok true =>
      match mergeUp (maxOrder - order) (a.markFree index) index order with
      | none => none
      | some (a, currIdx, currOrder) =>
          match a.addToFreeList currIdx currOrder with
          | none => none
          | some a => some (a, .ok ())
  | .ok false => some (a, .error .doubleFree)
  | .error _ => some (a, .error .invalidFree)

/-- `init_free_blocks` from `start` on; the first argument bounds the number of
rounds. -/
def initFreeBlocks : Nat → BuddyAllocator → Nat → Nat → Option BuddyAllocator
  | _, a, _, 0 => some a
  | 0, _, _, _ + 1 => none
  | rounds + 1, a, start, remaining + 1 =>
      let order := min (Nat.log2 (remaining + 1)) maxOrder
      match a.addToFreeList start order with
      | none => none
      | some a => initFreeBlocks rounds a (start + 2 ^ order) (remaining + 1 - 2 ^ order)

/-- `BuddyAllocator::new` on `len` bytes of memory with the given contents. -/
def new (memory : Nat → FreeNode) (len : Nat) : Option BuddyAllocator :=
  if slotSize ≤ len then
    let totalSlots := len / slotSize
    initFreeBlocks totalSlots
      { memory := memory
        freeLists := fun _ => LinkedList.new
        freeBitmap := 0
        allocated := BitSet.new totalSlots
        totalSlots := totalSlots } 0 totalSlots
  else
    none

end BuddyAllocator

/-! ## Runs -/

/-- The allocator and its callers: `live i = some k` when the caller holds a block of
order `k` that `alloc` returned at `i`. -/
structure Managed where
  allocator : BuddyAllocator
  live : Nat → Option Nat

/-- What callers do: allocate, deallocate, and write to memory they hold. -/
inductive BuddyEvent where
  | alloc (order : Nat)
  | dealloc (index order : Nat)
  | write (slot : Nat) (node : FreeNode)

/-- One call, or one write.  A live block is deallocated with the order it was
allocated with, which is the safety contract of `dealloc`; other indices may be passed
with any order.  Callers write to live blocks only. -/
inductive BuddyStep : Managed → BuddyEvent → Managed → Prop where
  | alloc {s : Managed} {order : Nat} {a : BuddyAllocator} :
      s.allocator.alloc order = some (a, none) →
      BuddyStep s (.alloc order) { s with allocator := a }
  | allocated {s : Managed} {order index : Nat} {a : BuddyAllocator} :
      s.allocator.alloc order = some (a, some index) →
      BuddyStep s (.alloc order) ⟨a, Function.update s.live index (some order)⟩
  | dealloc {s : Managed} {index order : Nat} {a : BuddyAllocator} :
      (∀ k, s.live index = some k → k = order) →
      s.allocator.dealloc index order = some (a, .ok ()) →
      BuddyStep s (.dealloc index order) ⟨a, Function.update s.live index none⟩
  | refused {s : Managed} {index order : Nat} {a : BuddyAllocator} {e : BuddyError} :
      s.allocator.dealloc index order = some (a, .error e) →
      BuddyStep s (.dealloc index order) { s with allocator := a }
  | write {s : Managed} {slot index k : Nat} {node : FreeNode} :
      s.live index = some k → index ≤ slot → slot < index + 2 ^ k →
      BuddyStep s (.write slot node) { s with allocator :=
        { s.allocator with memory := Function.update s.allocator.memory slot node } }

end Veloq.Heap
