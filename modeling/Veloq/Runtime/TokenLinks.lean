import Veloq.Foundation.Run
import Mathlib.Data.Finset.Card
import Mathlib.Logic.Function.Basic
set_option autoImplicit false

/-!
# Runtime: handles and links of shared cancellation tokens

Tokens that threads share, with the handles on them, the links between them and the calls in
progress; every load, store, exchange and critical section is a step of its own.  A token is
alive while somebody has a strong reference to it.  What is left of a token that is not is
never looked at.
-/

namespace Veloq.Runtime

/-- How far the drop of a handle has come. -/
inductive HandleState where
  | live
  /-- `drop`: read the strong count. -/
  | read
  /-- `drop`, the count was 1: look for the parent. -/
  | upgrade
  /-- `drop`, with a reference to the parent: lock its children and leave the list. -/
  | unlink (parent : Nat)
  /-- `drop`: give the reference to the parent up. -/
  | release (parent : Nat)
  /-- `drop`: give the own reference up. -/
  | decrement
  | gone
  deriving DecidableEq, Repr

/-- A `GenericCancellationToken`. -/
structure TokenHandle where
  token : Nat
  state : HandleState
  deriving DecidableEq, Repr

/-- A `GenericCancellationTokenInner`, with the call that has locked its children.  `placed`
records that a call has begun to put the token under a parent. -/
structure LinkNode where
  cancelled : Bool
  children : List Nat
  linked : Bool
  parent : Option Nat
  lock : Option Nat
  placed : Bool
  deriving DecidableEq, Repr

def LinkNode.new : LinkNode :=
  { cancelled := false, children := [], linked := false, parent := none, lock := none
    placed := false }

/-- What a call does next.  `p` and `c` are the handles that `link_child` was given; a call of
`cancel` has borrowed the handles `borrowed` and has locked the children of `stack`. -/
inductive LinkCall where
  | idle
  /-- `link_child`: ask whether the parent is cancelled. -/
  | linkCheck (p c : Nat)
  /-- `link_child`: set the parent of the child. -/
  | linkParent (p c : Nat)
  /-- `link_child`: lock the children. -/
  | linkEnter (p c : Nat)
  /-- `link_child`: ask again. -/
  | linkRecheck (p c : Nat)
  /-- `link_child`: put the child into the list and unlock it. -/
  | linkPush (p c : Nat)
  /-- `cancel_internal`: set the flag. -/
  | visit (borrowed : List Nat) (t : Nat) (stack : List Nat)
  /-- `cancel_internal`: lock the children. -/
  | enter (borrowed : List Nat) (t : Nat) (stack : List Nat)
  /-- `cancel_internal`: pop a child, or unlock the list when there is none. -/
  | drain (borrowed : List Nat) (stack : List Nat)
  deriving DecidableEq, Repr

structure TokenForest where
  tokens : Nat
  node : Nat → LinkNode
  handles : Nat
  handle : Nat → TokenHandle
  calls : Nat → LinkCall

namespace TokenForest

def empty : TokenForest :=
  { tokens := 0, node := fun _ => .new, handles := 0
    handle := fun _ => { token := 0, state := .gone }, calls := fun _ => .idle }

variable (s : TokenForest)

/-- Handle `h` keeps a strong reference to its own token. -/
def Owns (h t : Nat) : Prop := (s.handle h).token = t ∧ (s.handle h).state ≠ .gone

/-- Handle `h` keeps a strong reference to the parent of its token. -/
def Upgraded (h t : Nat) : Prop :=
  (s.handle h).state = .unlink t ∨ (s.handle h).state = .release t

instance (h t : Nat) : Decidable (s.Owns h t) := inferInstanceAs (Decidable (_ ∧ _))

instance (h t : Nat) : Decidable (s.Upgraded h t) := inferInstanceAs (Decidable (_ ∨ _))

/-- The strong count. -/
def strong (t : Nat) : Nat :=
  ((Finset.range s.handles).filter fun h => s.Owns h t).card +
    ((Finset.range s.handles).filter fun h => s.Upgraded h t).card

def setNode (t : Nat) (node : LinkNode) : TokenForest :=
  { s with node := Function.update s.node t node }

def setState (h : Nat) (state : HandleState) : TokenForest :=
  { s with handle := Function.update s.handle h { s.handle h with state := state } }

def goto (f : Nat) (call : LinkCall) : TokenForest :=
  { s with calls := Function.update s.calls f call }

def setLock (t : Nat) (lock : Option Nat) : TokenForest :=
  s.setNode t { s.node t with lock := lock }

/-- Token `c` joins or leaves the children of `p`, which become `children`. -/
def relink (p c : Nat) (children : List Nat) (linked : Bool) : TokenForest :=
  let next := s.setNode p { s.node p with children := children }
  next.setNode c { next.node c with linked := linked }

/-! ## Handles -/

/-- A new handle on token `t`. -/
def addHandle (t : Nat) : TokenForest :=
  { s with
    handles := s.handles + 1
    handle := Function.update s.handle s.handles { token := t, state := .live } }

def addToken (placed : Bool) : TokenForest :=
  { s.setNode s.tokens { LinkNode.new with placed := placed } with tokens := s.tokens + 1 }

def new : TokenForest := (s.addToken false).addHandle s.tokens

def clone (h : Nat) : TokenForest := s.addHandle (s.handle h).token

def dropRead (h : Nat) : TokenForest :=
  s.setState h (if s.strong (s.handle h).token = 1 then .upgrade else .decrement)

def dropUpgrade (h : Nat) : TokenForest :=
  match (s.node (s.handle h).token).parent with
  | none => s.setState h .decrement
  | some p => s.setState h (if 0 < s.strong p then .unlink p else .decrement)

def leave (t p : Nat) : TokenForest :=
  if (s.node t).linked then s.relink p t ((s.node p).children.erase t) false else s

/-- The next step of the drop of handle `h`. -/
def advanceDrop (h : Nat) : Option TokenForest :=
  match (s.handle h).state with
  | .live | .gone => none
  | .read => some (s.dropRead h)
  | .upgrade => some (s.dropUpgrade h)
  | .unlink p =>
      if (s.node p).lock = none then
        some ((s.leave (s.handle h).token p).setState h (.release p))
      else
        none
  | .release _ => some (s.setState h .decrement)
  | .decrement => some (s.setState h .gone)

/-! ## Calls -/

def tokenOf (h : Nat) : Nat := (s.handle h).token

/-- `child`: a new token, and `link_child`. -/
def child (f h : Nat) : TokenForest :=
  ((s.addToken true).addHandle s.tokens).goto f (.linkCheck h s.handles)

def linkChild (f p c : Nat) : TokenForest :=
  (s.setNode (s.tokenOf c) { s.node (s.tokenOf c) with placed := true }).goto f (.linkCheck p c)

def cancel (f h : Nat) : TokenForest := s.goto f (.visit [h] (s.tokenOf h) [])

def linkParent (f p c : Nat) : TokenForest :=
  (s.setNode (s.tokenOf c) { s.node (s.tokenOf c) with parent := some (s.tokenOf p) }).goto f
    (.linkEnter p c)

def linkRecheck (f p c : Nat) : TokenForest :=
  if (s.node (s.tokenOf p)).cancelled then
    (s.setLock (s.tokenOf p) none).goto f (.visit [p, c] (s.tokenOf c) [])
  else
    s.goto f (.linkPush p c)

/-- The child is put into the list; `push_back` panics if it is in one already. -/
def linkPush (f p c : Nat) : TokenForest :=
  if (s.node (s.tokenOf c)).linked then
    (s.setLock (s.tokenOf p) none).goto f .idle
  else
    ((s.relink (s.tokenOf p) (s.tokenOf c)
      ((s.node (s.tokenOf p)).children ++ [s.tokenOf c]) true).setLock (s.tokenOf p) none).goto f .idle

def visit (f : Nat) (borrowed : List Nat) (t : Nat) (stack : List Nat) : TokenForest :=
  if (s.node t).cancelled then
    s.goto f (.drain borrowed stack)
  else
    (s.setNode t { s.node t with cancelled := true }).goto f (.enter borrowed t stack)

def drain (f : Nat) (borrowed : List Nat) (t : Nat) (stack : List Nat) : TokenForest :=
  match (s.node t).children with
  | [] => (s.setLock t none).goto f (.drain borrowed stack)
  | c :: children => (s.relink t c children false).goto f (.visit borrowed c (t :: stack))

/-- The next step of call `f`. -/
def advance (f : Nat) : Option TokenForest :=
  match s.calls f with
  | .idle => none
  | .linkCheck p c =>
      if (s.node (s.tokenOf p)).cancelled then
        some (s.goto f (.visit [p, c] (s.tokenOf c) []))
      else
        some (s.goto f (.linkParent p c))
  | .linkParent p c => some (s.linkParent f p c)
  | .linkEnter p c =>
      if (s.node (s.tokenOf p)).lock = none then
        some ((s.setLock (s.tokenOf p) (some f)).goto f (.linkRecheck p c))
      else
        none
  | .linkRecheck p c => some (s.linkRecheck f p c)
  | .linkPush p c => some (s.linkPush f p c)
  | .visit borrowed t stack => some (s.visit f borrowed t stack)
  | .enter borrowed t stack =>
      if (s.node t).lock = none then
        some ((s.setLock t (some f)).goto f (.drain borrowed (t :: stack)))
      else
        none
  | .drain _ [] => some (s.goto f .idle)
  | .drain borrowed (t :: stack) => some (s.drain f borrowed t stack)

end TokenForest

inductive LinkAction where
  | new
  | clone (h : Nat)
  | drop (h : Nat)
  | advanceDrop (h : Nat)
  | child (f h : Nat)
  | linkChild (f p c : Nat)
  | cancel (f h : Nat)
  | advance (f : Nat)
  deriving DecidableEq, Repr

namespace TokenForest

/-- The state after a step.  The handles that a call is given are live; and the tokens make up
a tree, so `link_child` is called for a token that has never been under a parent. -/
def step (s : TokenForest) : LinkAction → Option TokenForest
  | .new => some s.new
  | .clone h => if (s.handle h).state = .live then some (s.clone h) else none
  | .drop h => if (s.handle h).state = .live then some (s.setState h .read) else none
  | .advanceDrop h => s.advanceDrop h
  | .child f h =>
      if s.calls f = .idle ∧ (s.handle h).state = .live then some (s.child f h) else none
  | .linkChild f p c =>
      if s.calls f = .idle ∧ (s.handle p).state = .live ∧ (s.handle c).state = .live ∧
          (s.node (s.tokenOf c)).placed = false then
        some (s.linkChild f p c)
      else
        none
  | .cancel f h =>
      if s.calls f = .idle ∧ (s.handle h).state = .live then some (s.cancel f h) else none
  | .advance f => s.advance f

end TokenForest

/-- The handles that a call has borrowed. -/
def LinkCall.borrowed : LinkCall → List Nat
  | idle => []
  | linkCheck p c | linkParent p c | linkEnter p c | linkRecheck p c | linkPush p c => [p, c]
  | visit borrowed _ _ | enter borrowed _ _ | drain borrowed _ => borrowed

/-- Nobody drops a handle that is borrowed. -/
def TokenForest.Borrows (s : TokenForest) (e : LinkAction) : Prop :=
  ∀ h, e = .drop h → ∀ f, h ∉ (s.calls f).borrowed

/-- The steps as a relation. -/
def LinkStep (s : TokenForest) (e : LinkAction) (s' : TokenForest) : Prop := s.step e = some s'

end Veloq.Runtime
