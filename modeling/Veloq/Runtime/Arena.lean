import Veloq.Foundation.Machine
import Veloq.Foundation.Run
import Veloq.Intrusive.LinkedList
set_option autoImplicit false

/-!
# Runtime: the task arena

`GenericArena` of `veloq-runtime/src/task/arena.rs`.  Objects are cut off from chunks, one
after the other; an object with a destructor has a `GenericDropNode` in front of it, in the
memory of its chunk.  Chunks live in boxes; a pointer to a chunk is the address of its box,
and a pointer to a drop node the address of the node.  `nodes a` is what the memory at `a`
reads as, if one takes it for a drop node.

A result `none` is a panic, an abort, or the use of a chunk that has been freed.  The memory
that the global allocator returns is an argument of the calls that ask for it.
-/

namespace Veloq.Runtime

open Veloq.Foundation
open Veloq.Intrusive (Link LinkedList)

/-- `std::alloc::Layout`: the size, rounded up to the alignment, is at most
`isize::MAX`. -/
structure Layout where
  size : Nat
  align : Nat
  align_pow : ∃ k < 64, align = 2 ^ k
  size_le : size + align ≤ 2 ^ 63

/-- The next multiple of `a`. -/
def roundUp (n a : Nat) : Nat := (n + (a - 1)) / a * a

/-- `Layout::extend`: the layout of both, one behind the other, and the offset of the
second. -/
def Layout.extend (first next : Layout) : Option (Layout × Nat) :=
  let offset := roundUp first.size next.align
  if h : offset + next.size + max first.align next.align ≤ 2 ^ 63 then
    some ({ size := offset + next.size
            align := max first.align next.align
            align_pow := by
              rcases Nat.le_total first.align next.align with hle | hle
              · rw [Nat.max_eq_right hle]
                exact next.align_pow
              · rw [Nat.max_eq_left hle]
                exact first.align_pow
            size_le := h }, offset)
  else
    none

/-- `Layout::new::<GenericDropNode>()`, the layout of a type that is not empty. -/
structure NodeLayout extends Layout where
  size_pos : 0 < size

/-- `GenericDropNode`. -/
structure DropNode where
  link : Link Nat
  dataPtr : Nat
  dropFn : Nat
  chunk : Nat
  deriving DecidableEq, Repr

/-- `GenericChunk`; the alignment of its memory is 64. -/
structure Chunk where
  link : Link Nat
  ptr : Nat
  size : Nat
  used : Nat
  activeCount : Nat
  dropList : LinkedList Nat
  deriving DecidableEq, Repr

/-- `GenericArena`, with the boxes of its chunks and the memory of the chunks. -/
structure Arena where
  activeChunk : Option Nat
  chunks : LinkedList Nat
  boxes : Nat → Option Chunk
  nodes : Nat → DropNode

/-- The links of the chunks. -/
def chunkLinks (boxes : Nat → Option Chunk) (c : Nat) : Link Nat :=
  match boxes c with
  | none => Link.new
  | some chunk => chunk.link

def withChunkLinks (boxes : Nat → Option Chunk) (links : Nat → Link Nat) (c : Nat) :
    Option Chunk :=
  (boxes c).map fun chunk => { chunk with link := links c }

/-- The links of the drop nodes. -/
def nodeLinks (nodes : Nat → DropNode) (p : Nat) : Link Nat := (nodes p).link

def withNodeLinks (nodes : Nat → DropNode) (links : Nat → Link Nat) (p : Nat) : DropNode :=
  { nodes p with link := links p }

/-- What overwritten memory reads as. -/
def DropNode.garbage : DropNode := { link := Link.new, dataPtr := 0, dropFn := 0, chunk := 0 }

/-- A drop node is written to `p`; whatever overlaps it is lost. -/
def writeNode (node : NodeLayout) (nodes : Nat → DropNode) (p : Nat) (value : DropNode) (q : Nat) :
    DropNode :=
  if q = p then value
  else if q < p + node.size ∧ p < q + node.size then DropNode.garbage
  else nodes q

/-- `GenericChunk::try_alloc`; the address 0 is the null pointer. -/
def Chunk.tryAlloc (chunk : Chunk) (layout : Layout) : Option (Chunk × Nat) :=
  let mask := layout.align - 1
  match checkedAdd chunk.ptr chunk.used with
  | none => some (chunk, 0)
  | some currentPtr =>
      (checkedAdd currentPtr mask).bind fun sum =>
        let alignedPtr := sum &&& (2 ^ 64 - 1 - mask)
        let offset := alignedPtr - chunk.ptr
        (checkedAdd offset layout.size).map fun newUsed =>
          if newUsed ≤ chunk.size then ({ chunk with used := newUsed }, alignedPtr) else (chunk, 0)

namespace Arena

/-- `GenericArena::new`. -/
def new (nodes : Nat → DropNode) : Arena :=
  { activeChunk := none
    chunks := LinkedList.new
    boxes := fun _ => none
    nodes := nodes }

def setBox (a : Arena) (c : Nat) (chunk : Chunk) : Arena :=
  { a with boxes := Function.update a.boxes c (some chunk) }

/-- `try_alloc_fast`. -/
def tryAllocFast (a : Arena) (layout : Layout) : Option (Arena × Option (Nat × Nat)) :=
  match a.activeChunk with
  | none => some (a, none)
  | some c =>
      match a.boxes c with
      | none => none
      | some chunk =>
          (chunk.tryAlloc layout).map fun r =>
            if r.2 = 0 then
              (a, none)
            else
              (a.setBox c { r.1 with activeCount := r.1.activeCount + 1 }, some (r.2, c))

/-- A reference to the chunk is given up; with the last one the chunk leaves the list and is
freed. -/
def releaseChunk (a : Arena) (c : Nat) : Option Arena :=
  match a.boxes c with
  | none => none
  | some chunk =>
      if chunk.activeCount = 1 then
        let removed := a.chunks.remove (chunkLinks a.boxes) c
        some { a with
          chunks := removed.2
          boxes := Function.update (withChunkLinks a.boxes removed.1) c none }
      else
        some (a.setBox c { chunk with activeCount := chunk.activeCount - 1 })

/-- The size of a new chunk. -/
def chunkSize (layout : Layout) : Nat := max 8192 (layout.size + layout.align)

/-- `alloc_slow`, from the second look on at the active chunk, whose code is that of
`try_alloc_fast`.  The new chunk lies at `ptr` and its box at `c`. -/
def allocSlow (a : Arena) (layout : Layout) (ptr c : Nat) : Option (Arena × Nat × Nat) :=
  match a.tryAllocFast layout with
  | none => none
  | some (a, some r) => some (a, r)
  | some (a, none) =>
      -- `Layout::from_size_align`
      if chunkSize layout + 64 ≤ 2 ^ 63 then
        let newChunk : Chunk :=
          { link := Link.new
            ptr := ptr
            size := chunkSize layout
            used := 0
            activeCount := 2
            dropList := LinkedList.new }
        match newChunk.tryAlloc layout with
        | none => none
        | some (newChunk, allocated) =>
            let boxes := Function.update a.boxes c (some newChunk)
            match a.chunks.pushBack (chunkLinks boxes) c with
            | none => none
            | some (links, chunks) =>
                let b : Arena :=
                  { activeChunk := some c
                    chunks := chunks
                    boxes := withChunkLinks boxes links
                    nodes := a.nodes }
                match a.activeChunk with
                | none => some (b, allocated, c)
                | some old => (b.releaseChunk old).map fun b => (b, allocated, c)
      else
        none

/-- The first try, and `alloc_slow` when it fails. -/
def allocRaw (a : Arena) (layout : Layout) (ptr c : Nat) : Option (Arena × Nat × Nat) :=
  match a.tryAllocFast layout with
  | none => none
  | some (a, some r) => some (a, r)
  | some (a, none) => a.allocSlow layout ptr c

/-- The drop node of an object is written and put in front of the list of its chunk. -/
def pushNode (node : NodeLayout) (a : Arena) (nodePtr dataPtr dropFn c : Nat) : Option Arena :=
  let nodes := writeNode node a.nodes nodePtr
    { link := Link.new, dropFn := dropFn, dataPtr := dataPtr, chunk := c }
  match a.boxes c with
  | none => none
  | some chunk =>
      (chunk.dropList.pushFront (nodeLinks nodes) nodePtr).map fun r =>
        { a with
          nodes := withNodeLinks nodes r.1
          boxes := Function.update a.boxes c (some { chunk with dropList := r.2 }) }

/-- `alloc`.  The chunk is returned as well; callers do not see it. -/
def alloc (node : NodeLayout) (a : Arena) (layout : Layout) (dropFn : Option Nat) (ptr c : Nat) :
    Option (Arena × Option (Nat × Nat)) :=
  match dropFn with
  | some dropFn =>
      match node.toLayout.extend layout with
      | none => some (a, none)
      | some (totalLayout, offset) =>
          (a.allocRaw totalLayout ptr c).bind fun r =>
            (pushNode node r.1 r.2.1 (r.2.1 + offset) dropFn r.2.2).map fun b =>
              (b, some (r.2.1 + offset, r.2.2))
  | none => (a.allocRaw layout ptr c).map fun r => (r.1, some r.2)

/-- `drop_object`, with the destructor that it runs. -/
def dropObject (node : NodeLayout) (a : Arena) (dataPtr : Nat) (layout : Layout) :
    Option (Arena × Option (Nat × Nat)) :=
  match node.toLayout.extend layout with
  | none => some (a, none)
  | some (_, offset) =>
      let nodePtr := dataPtr - offset
      let dropNode := a.nodes nodePtr
      let nodes := Function.update a.nodes nodePtr { dropNode with dropFn := 0 }
      let ran := if dropNode.dropFn = 0 then none else some (dropNode.dropFn, dataPtr)
      match a.boxes dropNode.chunk with
      | none => none
      | some chunk =>
          let removed := chunk.dropList.remove (nodeLinks nodes) nodePtr
          let b : Arena := { a with
            nodes := withNodeLinks nodes removed.1
            boxes := Function.update a.boxes dropNode.chunk
              (some { chunk with dropList := removed.2 }) }
          (b.releaseChunk dropNode.chunk).map fun b => (b, ran)

/-- The loop over the drop nodes of a chunk in `Drop`; the first argument bounds the number
of rounds. -/
def runDestructors : Nat → (Nat → DropNode) → LinkedList Nat → List (Nat × Nat) →
    Option ((Nat → DropNode) × List (Nat × Nat))
  | 0, nodes, list, ran => if list.isEmpty then some (nodes, ran) else none
  | rounds + 1, nodes, list, ran =>
      match list.popFront (nodeLinks nodes) with
      | (_, _, none) => some (nodes, ran)
      | (links, list, some p) =>
          let dropNode := nodes p
          let nodes := Function.update (withNodeLinks nodes links) p
            { dropNode with link := links p, dropFn := 0 }
          runDestructors rounds nodes list
            (if dropNode.dropFn = 0 then ran else ran ++ [(dropNode.dropFn, dropNode.dataPtr)])

/-- The loop over the chunks in `Drop`. -/
def dropChunks : Nat → Arena → List (Nat × Nat) → Option (Arena × List (Nat × Nat))
  | 0, a, ran => if a.chunks.isEmpty then some (a, ran) else none
  | rounds + 1, a, ran =>
      match a.chunks.popFront (chunkLinks a.boxes) with
      | (_, _, none) => some (a, ran)
      | (links, chunks, some c) =>
          match a.boxes c with
          | none => none
          | some chunk =>
              match runDestructors chunk.dropList.len a.nodes chunk.dropList ran with
              | none => none
              | some (nodes, ran) =>
                  dropChunks rounds
                    { a with
                      chunks := chunks
                      boxes := Function.update (withChunkLinks a.boxes links) c none
                      nodes := nodes } ran

/-- `Drop`, with the destructors that it runs. -/
def drop (a : Arena) : Option (Arena × List (Nat × Nat)) :=
  dropChunks a.chunks.len a []

end Arena

/-! ## Runs -/

/-- An object that has not been dropped. -/
structure Object where
  ptr : Nat
  layout : Layout
  dropFn : Option Nat
  chunk : Nat

/-- The destructor call that an object is due. -/
def Object.destructor (o : Object) : Option (Nat × Nat) := o.dropFn.map fun f => (f, o.ptr)

/-- An arena with its objects, the destructor calls of all objects there have been, and
those that have been made. -/
structure Tenants where
  arena : Arena
  live : List Object
  due : List (Nat × Nat)
  ran : List (Nat × Nat)
  ended : Bool

inductive ArenaEvent where
  | alloc (layout : Layout) (dropFn : Option Nat) (ptr c : Nat)
  | dropObject (dataPtr : Nat) (layout : Layout)
  /-- Somebody writes to an object. -/
  | write (p : Nat) (value : DropNode)
  | drop

def Tenants.new (nodes : Nat → DropNode) : Tenants :=
  { arena := Arena.new nodes
    live := []
    due := []
    ran := []
    ended := false }

/-- One call, or one write.  An object is dropped at most once, with its own layout, and only
if it has a destructor; objects are written to within their own memory. -/
inductive ArenaStep (node : NodeLayout) : Tenants → ArenaEvent → Tenants → Prop where
  | refused {s : Tenants} {layout : Layout} {dropFn : Option Nat} {ptr c : Nat} {a : Arena} :
      s.ended = false → s.arena.alloc node layout dropFn ptr c = some (a, none) →
      ArenaStep node s (.alloc layout dropFn ptr c) { s with arena := a }
  | alloc {s : Tenants} {layout : Layout} {dropFn : Option Nat} {ptr c p chunk : Nat} {a : Arena} :
      s.ended = false → s.arena.alloc node layout dropFn ptr c = some (a, some (p, chunk)) →
      ArenaStep node s (.alloc layout dropFn ptr c) { s with
        arena := a
        live := ⟨p, layout, dropFn, chunk⟩ :: s.live
        due := (dropFn.map fun f => (f, p)).toList ++ s.due }
  | dropObject {s : Tenants} {before after : List Object} {o : Object} {a : Arena}
      {r : Option (Nat × Nat)} :
      s.ended = false → s.live = before ++ o :: after → o.dropFn ≠ none →
      s.arena.dropObject node o.ptr o.layout = some (a, r) →
      ArenaStep node s (.dropObject o.ptr o.layout) { s with
        arena := a
        live := before ++ after
        ran := r.toList ++ s.ran }
  | write {s : Tenants} {o : Object} {p : Nat} {value : DropNode} :
      s.ended = false → o ∈ s.live → p < o.ptr + o.layout.size → o.ptr < p + node.size →
      ArenaStep node s (.write p value) { s with
        arena := { s.arena with nodes := Function.update s.arena.nodes p value } }
  | drop {s : Tenants} {a : Arena} {r : List (Nat × Nat)} :
      s.ended = false → s.arena.drop = some (a, r) →
      ArenaStep node s .drop { s with
        arena := a
        live := []
        ran := r ++ s.ran
        ended := true }

/-- The memory that `alloc` needs. -/
def NodeLayout.total (node : NodeLayout) (layout : Layout) (dropFn : Option Nat) : Option Layout :=
  match dropFn with
  | some _ => (node.toLayout.extend layout).map Prod.fst
  | none => some layout

/-- Memory as the global allocator returns it: aligned, within the address space, and apart
from the chunks. -/
structure Fresh (a : Arena) (ptr size : Nat) : Prop where
  pos : 0 < ptr
  aligned : 64 ∣ ptr
  fits : ptr + size ≤ 2 ^ 64
  apart : ∀ c chunk, a.boxes c = some chunk →
    chunk.ptr + chunk.size ≤ ptr ∨ ptr + size ≤ chunk.ptr

/-- The contract of the global allocator, for the memory of a chunk and for its box.  No
function is at address 0. -/
def Provided (node : NodeLayout) (s : Tenants) : ArenaEvent → Prop
  | .alloc layout dropFn ptr c => dropFn ≠ some 0 ∧ s.arena.boxes c = none ∧
      ∀ total, node.total layout dropFn = some total → Fresh s.arena ptr (Arena.chunkSize total)
  | .dropObject _ _ | .write _ _ | .drop => True

end Veloq.Runtime
