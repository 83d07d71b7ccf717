import Veloq.Foundation.Run
import Veloq.Intrusive.LinkedList
set_option autoImplicit false

/-!
# Runtime: join handles that wait for a task

`JoinHandle` of `scope/join.rs` and the list of wakers of `task/header.rs`.  A handle has one
waker node, in the memory of the arena; the node is linked into the list of the task while
the handle waits.  Registering a waker changes the waker in the node, without the lock of the
list, and then links the node; the completion of the task takes the nodes out of the list and
calls their wakers.

Handles are numbered, and the number of a handle is the address of its node.  Every load,
store and critical section is a step of its own.  Wakers with `will_wake` are one waker.
-/

namespace Veloq.Runtime.JoinWaker

open Foundation Intrusive

variable {W : Type} [DecidableEq W]

/-- Where a handle is in `register_waker_on` or in `remove_waker`. -/
inductive HandlePc (W : Type) where
  | idle
  /-- There is a node: `will_wake`. -/
  | compare (waker : W)
  /-- `register_completion`, its first look at the task. -/
  | look (waker : W)
  | lock (waker : W)
  /-- The second look, with the lock. -/
  | lookLocked (waker : W)
  | push (waker : W)
  | wake (waker : W)
  | lookRemove
  | lockRemove
  | remove
  /-- `push_back` has panicked. -/
  | panicked
  deriving DecidableEq, Repr

/-- A join handle.  `registered` is bookkeeping: the waker of the last registration, when it
has returned and the node has not been removed since; and `removed`: `remove_waker` was called
since the node was last linked or woken. -/
structure Handle (W : Type) where
  /-- `waker_node`, with the waker in it. -/
  node : Option W
  pc : HandlePc W
  registered : Option W
  removed : Bool
  deriving DecidableEq, Repr

/-- Where `mark_completed_and_notify` is, in the call that has set `STATE_COMPLETED`. -/
inductive Notifier where
  | idle
  | lock
  | pop
  | wake (k : Nat)
  | done
  deriving DecidableEq, Repr

/-- Who has the lock of the list. -/
inductive Holder where
  | handle (k : Nat)
  | notifier
  deriving DecidableEq, Repr

/-- A task header, as far as its waiters are concerned, with the handles.  `woken` is
bookkeeping: the wakers called, with the handles they were registered for. -/
structure Waiters (W : Type) where
  completed : Bool
  wakers : LinkedList Nat
  links : Nat → Link Nat
  locked : Option Holder
  handles : Nat → Handle W
  notifier : Notifier
  woken : List (Nat × W)

/-- What happens. -/
inductive Event (W : Type) where
  /-- `register_waker_on`; `granted`: the arena has memory for a node. -/
  | register (k : Nat) (waker : W) (granted : Bool)
  /-- `remove_waker`, of a handle that has a node. -/
  | removeWaker (k : Nat)
  /-- A handle goes on. -/
  | handle (k : Nat)
  /-- `mark_completed_and_notify`. -/
  | complete
  /-- Its first call goes on. -/
  | notify

namespace Waiters

def new : Waiters W :=
  { completed := false
    wakers := LinkedList.new
    links := fun _ => Link.new
    locked := none
    handles := fun _ => { node := none, pc := .idle, registered := none, removed := false }
    notifier := .idle
    woken := [] }

variable (s : Waiters W)

def setHandle (k : Nat) (h : Handle W) : Waiters W :=
  { s with handles := Function.update s.handles k h }

def goto (k : Nat) (pc : HandlePc W) : Waiters W := s.setHandle k { s.handles k with pc := pc }

/-- A registration returns. -/
def return_ (k : Nat) (waker : W) : Waiters W :=
  s.setHandle k { s.handles k with pc := .idle, registered := some waker }

/-- The same, with the node linked or its waker called. -/
def settle (k : Nat) (waker : W) : Waiters W :=
  s.setHandle k { s.handles k with pc := .idle, registered := some waker, removed := false }

def register (k : Nat) (waker : W) (granted : Bool) : Waiters W :=
  match (s.handles k).node with
  | some _ => s.setHandle k { s.handles k with pc := .compare waker, registered := none }
  | none =>
      if granted then
        s.setHandle k { s.handles k with pc := .look waker, node := some waker, registered := none }
      else
        s

/-- A handle goes on. -/
def handleStep (k : Nat) : Option (Waiters W) :=
  match (s.handles k).pc with
  | .compare waker =>
      if (s.handles k).node = some waker then some (s.return_ k waker)
      else some (s.setHandle k { s.handles k with pc := .look waker, node := some waker })
  | .look waker => some (s.goto k (if s.completed then .wake waker else .lock waker))
  | .lock waker =>
      if s.locked = none then some { s.goto k (.lookLocked waker) with locked := some (.handle k) }
      else none
  | .lookLocked waker =>
      if s.completed then some { s.goto k (.wake waker) with locked := none }
      else some (s.goto k (.push waker))
  | .push waker =>
      match s.wakers.pushBack s.links k with
      | none => some { s.goto k .panicked with locked := none }
      | some (links, wakers) =>
          some { s.settle k waker with links := links, wakers := wakers, locked := none }
  | .wake waker => some { s.settle k waker with woken := s.woken ++ [(k, waker)] }
  | .lookRemove => some (s.goto k (if s.completed then .idle else .lockRemove))
  | .lockRemove =>
      if s.locked = none then some { s.goto k .remove with locked := some (.handle k) } else none
  | .remove =>
      if (s.links k).linked then
        let removed := s.wakers.remove s.links k
        some { s.goto k .idle with links := removed.1, wakers := removed.2, locked := none }
      else
        some { s.goto k .idle with locked := none }
  | .idle | .panicked => none

/-- `mark_completed_and_notify` goes on. -/
def notifyStep : Option (Waiters W) :=
  match s.notifier with
  | .lock =>
      if s.locked = none then some { s with notifier := .pop, locked := some .notifier } else none
  | .pop =>
      match s.wakers.popFront s.links with
      | (_, _, none) => some { s with notifier := .done, locked := none }
      | (links, wakers, some k) =>
          some { s with notifier := .wake k, links := links, wakers := wakers }
  | .wake k =>
      some { s with
        notifier := .pop
        woken := s.woken ++ ((s.handles k).node.map fun waker => (k, waker)).toList }
  | .idle | .done => none

/-- One step. -/
def next : Event W → Option (Waiters W)
  | .register k waker granted =>
      if (s.handles k).pc = .idle then some (s.register k waker granted) else none
  | .removeWaker k =>
      if (s.handles k).pc = .idle ∧ (s.handles k).node ≠ none then
        some (s.setHandle k
          { s.handles k with pc := .lookRemove, registered := none, removed := true })
      else
        none
  | .handle k => s.handleStep k
  | .complete =>
      if s.completed then some s else some { s with completed := true, notifier := .lock }
  | .notify => s.notifyStep

/-- The steps as a relation. -/
def Step (s : Waiters W) (e : Event W) (s' : Waiters W) : Prop := s.next e = some s'

/-- A handle links its node only when it is not linked, and does not leave it to an earlier
registration of the same waker after `remove_waker`. -/
def Orderly (s : Waiters W) : Event W → Prop
  | .handle k =>
      match (s.handles k).pc with
      | .push _ => (s.links k).linked = false
      | .compare waker => (s.handles k).node = some waker → (s.handles k).removed = false
      | _ => True
  | _ => True

/-- What waiting for a task promises. -/
structure Sound (s : Waiters W) : Prop where
  calm : ∀ k, (s.handles k).pc ≠ .panicked
  /-- The list is well formed, and has each node at most once. -/
  list : ∃ keys, Represents s.links s.wakers keys ∧ ∀ k, keys.count k ≤ 1
  /-- When the completion has notified, every handle whose registration has returned has had
  its last waker called. -/
  woken : s.notifier = .done → ∀ k waker, (s.handles k).pc = .idle →
    (s.handles k).registered = some waker → (k, waker) ∈ s.woken

end Waiters

end Veloq.Runtime.JoinWaker
