import Mathlib.Data.List.Nodup
import Mathlib.Data.List.Perm.Subperm
import Mathlib.Data.BitVec
import Veloq.Foundation.Chain
import Veloq.Foundation.Machine
import Veloq.Foundation.Run
set_option autoImplicit false

/-!
# Runtime: the stack of idle workers

`runtime/shared/infra.rs`.  A worker without work sets its bit in the idle mask and
pushes itself on the stack of its NUMA group; when it goes back to work it clears the
bit and takes its entry off the stack, but only where the entry is on top.  A wake pops
entries until one belongs to a worker whose bit is set, and else scans the group.

The stack operations are compare-and-swap loops over one tagged head; each is one step
here, taken at its successful exchange.  The two halves of entering and of leaving are
steps of their own, so that other workers come between them.
-/

namespace Veloq.Runtime.Idle

open Foundation

/-! ## The idle mask -/

/-- `AtomicBitset`: its 64-bit words. -/
abbrev AtomicBitset := Nat → BitVec 64

namespace AtomicBitset

variable (bits : AtomicBitset)

/-- `AtomicBitset::try_set`: whether the bit was clear, and the words after. -/
def trySet (index : Nat) : Bool × AtomicBitset :=
  let mask := BitVec.twoPow 64 (index % 64)
  let prev := bits (index / 64)
  (prev &&& mask == 0#64, Function.update bits (index / 64) (prev ||| mask))

/-- `AtomicBitset::clear`. -/
def clear (index : Nat) : AtomicBitset :=
  Function.update bits (index / 64) (bits (index / 64) &&& ~~~BitVec.twoPow 64 (index % 64))

/-- `AtomicBitset::is_set`. -/
def isSet (index : Nat) : Bool :=
  bits (index / 64) &&& BitVec.twoPow 64 (index % 64) != 0#64

end AtomicBitset

/-! ## The stack -/

/-- `usize::MAX`, the end of the stack in `next_idle`. -/
def endId : Nat := 2 ^ 64 - 1

/-- `IdleStack::EMPTY`. -/
def emptyHead : Nat := 2 ^ 64 - 1

/-- The worker in the low half of a head. -/
def headId (head : Nat) : Nat := head &&& 0xFFFFFFFF

/-- `(generation << 32) | id`. -/
def packHead (generation id : Nat) : Nat := asU64 (generation <<< 32) ||| id

/-- The head that `push` installs over `head`. -/
def pushHead (head workerId : Nat) : Nat :=
  packHead (if head = emptyHead then 0 else (head >>> 32) + 1) workerId

/-- The head that `pop` and `try_pop_self` install over `head`. -/
def popHead (head nextId : Nat) : Nat :=
  if nextId = endId then emptyHead else packHead ((head >>> 32) + 1) nextId

/-- The workers and the NUMA nodes; no node stands for a failed discovery. -/
structure Topology where
  workerCount : Nat
  nodeCount : Nat

namespace Topology

variable (topo : Topology)

/-- `worker_to_group`. -/
def workerToGroup (workerId : Nat) : Nat :=
  if topo.nodeCount = 0 then 0 else workerId % topo.nodeCount

/-- `worker_ids` of a group. -/
def workerIds (group : Nat) : List Nat :=
  (List.range topo.workerCount).filter fun w => topo.workerToGroup w = group

end Topology

/-- Where a worker is in `RuntimeProgressCoordinator::run`. -/
inductive Stage where
  /-- Outside. -/
  | awake
  /-- `try_set` has set the bit, `push` is next. -/
  | entering
  /-- Between entering and leaving. -/
  | waiting
  /-- `clear` is done, `try_pop_self` is next. -/
  | leaving
  deriving DecidableEq, Repr

/-- The shared words and the place of every worker.  `found` is bookkeeping: a wake has
popped the worker since it last set its bit. -/
structure IdleState where
  head : Nat → Nat
  nextIdle : Nat → Nat
  mask : AtomicBitset
  stage : Nat → Stage
  found : Nat → Bool

namespace IdleState

variable (s : IdleState)

/-- A runtime before any worker has been idle. -/
def init : IdleState where
  head _ := emptyHead
  nextIdle _ := endId
  mask _ := 0#64
  stage _ := .awake
  found _ := false

/-- The worker on top of a group's stack. -/
def top (group : Nat) : Option Nat :=
  if s.head group = emptyHead then none else some (headId (s.head group))

/-- What `next_idle` says of a worker. -/
def link (w : Nat) : Option (Option Nat) :=
  some (if s.nextIdle w = endId then none else some (s.nextIdle w))

/-- The entries of a group's stack, at most as many as there are workers. -/
def entries (topo : Topology) (group : Nat) : List Nat :=
  follow s.link topo.workerCount (s.top group)

/-- `IdleStack::push`. -/
def push (group workerId : Nat) : IdleState :=
  { s with
    nextIdle := Function.update s.nextIdle workerId
      (if s.head group = emptyHead then endId else headId (s.head group))
    head := Function.update s.head group (pushHead (s.head group) workerId) }

/-- `IdleStack::pop`. -/
def pop (group : Nat) : Option Nat × IdleState :=
  if s.head group = emptyHead then
    (none, s)
  else
    let workerId := headId (s.head group)
    (some workerId,
      { s with
        head := Function.update s.head group (popHead (s.head group) (s.nextIdle workerId))
        found := Function.update s.found workerId true })

/-- `IdleStack::try_pop_self`. -/
def tryPopSelf (group workerId : Nat) : Bool × IdleState :=
  if s.head group = emptyHead then
    (false, s)
  else if headId (s.head group) ≠ workerId then
    (false, s)
  else
    (true,
      { s with
        head := Function.update s.head group (popHead (s.head group) (s.nextIdle workerId)) })

/-- `IdleStack::pop_idle`: `none` while it has not returned. -/
def popIdle : Nat → IdleState → Nat → Option (Option Nat × IdleState)
  | 0, _, _ => none
  | fuel + 1, s, group =>
      match s.pop group with
      | (none, s') => some (none, s')
      | (some workerId, s') =>
          if s'.mask.isSet workerId then some (some workerId, s')
          else popIdle fuel s' group

/-- `IdleController::wake_idle_in_group`: the worker that is unparked; the call returns
whether there is one. -/
def wakeIdleInGroup (topo : Topology) (fuel group : Nat) : Option (Option Nat × IdleState) :=
  match popIdle fuel s group with
  | none => none
  | some (some workerId, s') => some (some workerId, s')
  | some (none, s') => some ((topo.workerIds group).find? s'.mask.isSet, s')

end IdleState

/-! ## The steps -/

/-- The steps of the protocol. -/
inductive IdleEvent where
  /-- A worker enters: `idle_mask.try_set`. -/
  | trySet (worker : Nat)
  /-- A worker whose bit was clear pushes itself. -/
  | push (worker : Nat)
  /-- The park hook fails, and `run` returns without `leave_idle`. -/
  | parkFails (worker : Nat)
  /-- A worker leaves: `idle_mask.clear`. -/
  | clear (worker : Nat)
  /-- A worker that has cleared its bit takes its entry off, if on top. -/
  | tryPopSelf (worker : Nat)
  /-- One `pop` of some `pop_idle`. -/
  | pop (group : Nat)
  deriving DecidableEq, Repr

/-- One step. -/
def idleStep (topo : Topology) (s : IdleState) : IdleEvent → Option IdleState
  | .trySet w =>
      if w < topo.workerCount ∧ s.stage w = .awake then
        let (fresh, mask) := s.mask.trySet w
        some { s with
          mask := mask
          stage := Function.update s.stage w (if fresh then .entering else .waiting)
          found := Function.update s.found w (!fresh && s.found w) }
      else none
  | .push w =>
      if s.stage w = .entering then
        some { s.push (topo.workerToGroup w) w with
          stage := Function.update s.stage w .waiting }
      else none
  | .parkFails w =>
      if s.stage w = .waiting then
        some { s with stage := Function.update s.stage w .awake }
      else none
  | .clear w =>
      if s.stage w = .waiting then
        some { s with
          mask := s.mask.clear w
          stage := Function.update s.stage w .leaving }
      else none
  | .tryPopSelf w =>
      if s.stage w = .leaving then
        some { (s.tryPopSelf (topo.workerToGroup w) w).2 with
          stage := Function.update s.stage w .awake }
      else none
  | .pop group => some (s.pop group).2

/-- The steps as a relation. -/
def IdleStep (topo : Topology) (s : IdleState) (e : IdleEvent) (s' : IdleState) : Prop :=
  idleStep topo s e = some s'

/-- A worker pushes itself only while no entry of its own is left on the stack. -/
def Careful (topo : Topology) (s : IdleState) : IdleEvent → Prop
  | .push w => w ∉ s.entries topo (topo.workerToGroup w)
  | _ => True

instance (topo : Topology) (s : IdleState) (e : IdleEvent) : Decidable (Careful topo s e) :=
  match e with
  | .push w => inferInstanceAs (Decidable (w ∉ s.entries topo (topo.workerToGroup w)))
  | .trySet _ => isTrue trivial
  | .parkFails _ => isTrue trivial
  | .clear _ => isTrue trivial
  | .tryPopSelf _ => isTrue trivial
  | .pop _ => isTrue trivial

end Veloq.Runtime.Idle
