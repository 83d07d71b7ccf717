import Veloq.Foundation.Machine
import Veloq.Foundation.Window
set_option autoImplicit false

/-!
# Local: the growable ring buffer of the SPSC channel

`StateInner` of `veloq-local/src/spsc.rs`: `head` and `tail` are free-running
64-bit indices, a cell is addressed by masking an index with `capacity - 1`, and
an unbounded buffer that is full doubles its capacity, copying the two halves of
the wrapped contents to the front of the new allocation.

The memory of the buffer is `Nat → Option α`: a cell that holds no live value
(never written, or moved out by `ptr::read`) is `none`, and reading such a cell is
the fault `uninitRead`.  The waker slots and `is_closed` are not touched by these
operations and are left out.
-/

namespace Veloq.Local.Spsc

open Veloq.Foundation

variable {α : Type}

/-- `ChannelCapacity` of `common.rs`. -/
inductive ChannelCapacity where
  | unbounded
  | bounded (size : Nat)
  deriving DecidableEq, Repr

/-- How the element type is laid out.  A zero-sized type has a single value and
takes no memory: it is never copied and reading it always succeeds. -/
inductive ElemLayout (α : Type) where
  | zst (value : α) (only : ∀ x : α, x = value)
  | sized (bytes : Nat) (pos : 0 < bytes)

/-- Why an operation does not return: a capacity that overflows or an allocation
that exceeds `isize::MAX` bytes panics; `uninitRead` is the undefined behaviour of
reading a cell without a live value. -/
inductive Fault where
  | panic
  | uninitRead
  deriving DecidableEq, Repr

/-- `Layout::array::<T>(n)` exists. -/
def ElemLayout.arrayFits : ElemLayout α → Nat → Bool
  | .zst _ _, _ => true
  | .sized bytes _, n => decide (n * bytes < 2 ^ 63)

/-- `ptr::read` of one cell. -/
def ElemLayout.readCell (e : ElemLayout α) (buffer : Nat → Option α) (offset : Nat) :
    Except Fault α :=
  match e with
  | .zst value _ => .ok value
  | .sized _ _ =>
      match buffer offset with
      | some item => .ok item
      | none => .error .uninitRead

structure StateInner (α : Type) where
  buffer : Nat → Option α
  capacity : Nat
  mask : Nat
  head : Nat
  tail : Nat
  isBounded : Bool

/-- `ptr::copy_nonoverlapping(src + srcAt, dst + dstAt, count)`. -/
def copyNonoverlapping (src : Nat → Option α) (srcAt : Nat) (dst : Nat → Option α)
    (dstAt count : Nat) : Nat → Option α :=
  fun i => if dstAt ≤ i ∧ i < dstAt + count then src (srcAt + (i - dstAt)) else dst i

/-- The capacity and the mode `StateInner::new` starts with; `none` is the overflow
of `next_power_of_two`. -/
def initialCapacity : ChannelCapacity → Option (Nat × Bool)
  | .unbounded => some (8, false)
  | .bounded size =>
      let cap := nextPowerOfTwo (max size 1)
      if cap < 2 ^ 64 then some (cap, true) else none

namespace StateInner

/-- `StateInner::new`; `none` is a panic. -/
def new (e : ElemLayout α) (capacity : ChannelCapacity) : Option (StateInner α) :=
  match initialCapacity capacity with
  | none => none
  | some (cap, isBounded) =>
      if e.arrayFits cap then
        some
          { buffer := fun _ => none
            capacity := cap
            mask := cap - 1
            head := 0
            tail := 0
            isBounded := isBounded }
      else none

def len (s : StateInner α) : Nat := wrappingSub s.tail s.head

def isEmpty (s : StateInner α) : Bool := s.head == s.tail

def isFull (s : StateInner α) : Bool := s.len == s.capacity

/-- The cells of the doubled buffer after the copy in `grow`. -/
def grownBuffer (s : StateInner α) : Nat → Option α :=
  let count := s.len
  let headIdx := s.head &&& s.mask
  let tailIdx := s.tail &&& s.mask
  if headIdx < tailIdx then
    copyNonoverlapping s.buffer headIdx (fun _ => none) 0 count
  else
    let firstPart := s.capacity - headIdx
    let secondPart := count - firstPart
    copyNonoverlapping s.buffer 0
      (copyNonoverlapping s.buffer headIdx (fun _ => none) 0 firstPart) firstPart secondPart

/-- `grow`.  The source resets `head` first and computes the new `tail` from
`self.len()` afterwards. -/
def grow (e : ElemLayout α) (s : StateInner α) : Except Fault (StateInner α) :=
  let newCap := s.capacity * 2
  if newCap < 2 ^ 64 ∧ e.arrayFits newCap then
    let buffer :=
      match e with
      | .zst _ _ => s.buffer
      | .sized _ _ => s.grownBuffer
    let s' : StateInner α :=
      { s with buffer := buffer, capacity := newCap, mask := newCap - 1, head := 0 }
    .ok { s' with tail := s'.len }
  else .error .panic

/-- The write at `tail` that ends a successful `push`. -/
def write (s : StateInner α) (item : α) : StateInner α :=
  { s with
    buffer := Function.update s.buffer (s.tail &&& s.mask) (some item)
    tail := wrappingAdd s.tail 1 }

/-- `push`; the inner `Except` is the `Result<(), T>` of the source. -/
def push (e : ElemLayout α) (s : StateInner α) (item : α) :
    Except Fault (Except α Unit × StateInner α) :=
  if s.isFull then
    if s.isBounded then .ok (.error item, s)
    else (s.grow e).map fun grown => (.ok (), grown.write item)
  else .ok (.ok (), s.write item)

/-- `pop`.  The value is moved out of its cell. -/
def pop (e : ElemLayout α) (s : StateInner α) : Except Fault (Option α × StateInner α) :=
  if s.isEmpty then .ok (none, s)
  else
    let offset := s.head &&& s.mask
    (e.readCell s.buffer offset).map fun item =>
      (some item,
        { s with
          buffer := Function.update s.buffer offset none
          head := wrappingAdd s.head 1 })

end StateInner

/-! ## Runs -/

inductive Op (α : Type) where
  | push (item : α)
  | pop

/-- What a caller sees of one operation. -/
inductive Reply (α : Type) where
  | accepted
  | rejected (item : α)
  | popped (item : Option α)
  deriving DecidableEq, Repr

/-- The reply to a push, from its `Result<(), T>`. -/
def Reply.ofPush : Except α Unit → Reply α
  | .ok () => .accepted
  | .error item => .rejected item

/-- One operation on the buffer. -/
def step (e : ElemLayout α) (s : StateInner α) : Op α → Except Fault (Reply α × StateInner α)
  | .push item => (s.push e item).map fun result => (.ofPush result.1, result.2)
  | .pop => (s.pop e).map fun result => (.popped result.1, result.2)

/-- The purpose of the buffer: a list that is appended to at one end and consumed
at the other, and that refuses an item only when `limit` items are stored. -/
def fifoStep (limit : Option Nat) (items : List α) : Op α → Reply α × List α
  | .push item =>
      if limit = some items.length then (.rejected item, items)
      else (.accepted, items ++ [item])
  | .pop => (.popped items.head?, items.tail)

/-- The number of items a bounded buffer takes. -/
def StateInner.limit (s : StateInner α) : Option Nat :=
  if s.isBounded then some s.capacity else none

/-- In every state of the run `len` counts the stored items, and every operation
answers as the list does.  A panic ends the run; reading a cell without a value is
not allowed. -/
def RefinesFifo (e : ElemLayout α) (limit : Option Nat) :
    StateInner α → List α → List (Op α) → Prop
  | s, items, [] => s.len = items.length
  | s, items, op :: ops =>
      s.len = items.length ∧
        match step e s op with
        | .error .panic => True
        | .error .uninitRead => False
        | .ok (reply, s') =>
            reply = (fifoStep limit items op).1 ∧
              RefinesFifo e limit s' (fifoStep limit items op).2 ops

/-- The operation is a push that makes an unbounded buffer grow. -/
def Grows (s : StateInner α) : Op α → Prop
  | .push _ => s.isFull = true ∧ s.isBounded = false
  | .pop => False

/-- Every grow of the run finds `head` at zero: nothing was popped since the
buffer was created or last grew. -/
def GrowsAtZero (e : ElemLayout α) : StateInner α → List (Op α) → Prop
  | _, [] => True
  | s, op :: ops =>
      match step e s op with
      | .error _ => True
      | .ok (_, s') => (Grows s op → s.head = 0) ∧ GrowsAtZero e s' ops

end Veloq.Local.Spsc
