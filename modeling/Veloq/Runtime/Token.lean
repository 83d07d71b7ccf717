import Veloq.Foundation.Run
import Mathlib.Data.Finset.Card
import Mathlib.Logic.Function.Basic
import Mathlib.Logic.Relation
set_option autoImplicit false

/-!
# Runtime: cancellation tokens

A token knows of a cancellation in two ways.  A parent of its own kind has it in a list of
children and pushes the cancellation down; the scope that a local scope is nested in across
threads is asked whenever the token is.  Beside the tokens the state has two records of what
was done: which token was linked under which, and who waits for which token without having
been woken since.
-/

namespace Veloq.Runtime

/-- `StrategyType`, of the storage and the ownership alike. -/
inductive Strategy where
  | localOnly
  | atomic
  deriving DecidableEq, Repr

/-- A reference to the completion of a scope: its token, and its parent. -/
inductive ScopeRef where
  | root (strategy : Strategy) (token : Nat)
  | under (strategy : Strategy) (token : Nat) (parent : ScopeRef)
  deriving DecidableEq, Repr

namespace ScopeRef

def strategy : ScopeRef → Strategy
  | root strategy _ => strategy
  | under strategy _ _ => strategy

def token : ScopeRef → Nat
  | root _ token => token
  | under _ token _ => token

def asSend (scope : ScopeRef) : Option ScopeRef :=
  if scope.strategy = .atomic then some scope else none

/-- `ScopeParent::from_any`: a scope that is shared between threads takes only such a one as
its parent. -/
def parentOf (strategy : Strategy) (parent : Option ScopeRef) : Option ScopeRef :=
  match strategy with
  | .localOnly => parent
  | .atomic => parent.bind asSend

/-- The `cross_parent` of the token of a scope with this parent. -/
def crossParentOf (strategy : Strategy) (parent : Option ScopeRef) : Option ScopeRef :=
  if strategy ≠ .atomic then (parentOf strategy parent).bind asSend else none

/-- The completion of a new scope. -/
def new (strategy : Strategy) (token : Nat) (parent : Option ScopeRef) : ScopeRef :=
  match parentOf strategy parent with
  | none => root strategy token
  | some parent => under strategy token parent

/-- Whether the token of a nested scope asks the parent of the scope. -/
def crosses (strategy : Strategy) (parent : ScopeRef) : Bool :=
  strategy ≠ .atomic && parent.strategy = .atomic

/-- `ScopeCompletion::is_cancelled`, given the flags of the tokens: the token's own flag, its
cross-scope parent, and the parent. -/
def isCancelled (flag : Nat → Bool) : ScopeRef → Bool
  | root _ token => flag token
  | under strategy token parent =>
      (flag token || crosses strategy parent && isCancelled flag parent) || isCancelled flag parent

end ScopeRef

structure Token where
  strategy : Strategy
  cancelled : Bool
  wakers : List Nat
  children : List Nat
  linked : Bool
  parent : Option Nat
  crossParent : Option ScopeRef
  deriving DecidableEq, Repr

def Token.new (strategy : Strategy) (crossParent : Option ScopeRef) : Token :=
  { strategy := strategy, cancelled := false, wakers := [], children := [], linked := false
    parent := none, crossParent := crossParent }

/-- The tokens and scopes.  `links` has the pairs for which `link_child` has returned, and
`waiting` the wakers that were registered on a token and not woken since. -/
structure TokenTree where
  count : Nat
  token : Nat → Token
  scopes : List ScopeRef
  links : List (Nat × Nat)
  waiting : List (Nat × Nat)

namespace TokenTree

def empty : TokenTree :=
  { count := 0, token := fun _ => .new .localOnly none, scopes := [], links := [], waiting := [] }

variable (s : TokenTree) (t : Nat)

def set (token : Token) : TokenTree := { s with token := Function.update s.token t token }

def flag (t : Nat) : Bool := (s.token t).cancelled

def isCancelled : Bool :=
  s.flag t || (s.token t).crossParent.any (ScopeRef.isCancelled s.flag)

/-- Each of the wakers is called. -/
def wake (wakers : List Nat) : TokenTree :=
  { s with waiting := s.waiting.filter fun e => e.2 ∉ wakers }

/-! ## Cancelling -/

/-- The flag is set and the wakers are called.  The list of children is locked until all of
them have been popped, so nobody sees it half empty. -/
def mark : TokenTree :=
  (s.set t { s.token t with cancelled := true, wakers := [], children := [] }).wake
    (s.token t).wakers

def unlink : TokenTree := s.set t { s.token t with linked := false }

/-- `cancel_internal`; a call inside has one flag less to set. -/
def cancelInternal : Nat → TokenTree → Nat → TokenTree
  | 0, s, _ => s
  | fuel + 1, s, t =>
      if s.flag t then
        s
      else
        (s.token t).children.foldl (fun s child => cancelInternal fuel (s.unlink child) child)
          (s.mark t)

def cancel : TokenTree := cancelInternal s.count s t

/-! ## New tokens and links -/

def newWithParent (strategy : Strategy) (crossParent : Option ScopeRef) : TokenTree :=
  { s.set s.count (.new strategy crossParent) with count := s.count + 1 }

/-- `link_child`.  A child that is in a list already makes `push_back` panic, after its parent
has been replaced. -/
def linkChild (child : Nat) : TokenTree :=
  if s.isCancelled t then
    { s.cancel child with links := (t, child) :: s.links }
  else if (s.token child).linked then
    s.set child { s.token child with parent := some t }
  else
    let s := s.set child { s.token child with parent := some t, linked := true }
    { s.set t { s.token t with children := (s.token t).children ++ [child] } with
      links := (t, child) :: s.links }

def child : TokenTree := (s.newWithParent (s.token t).strategy none).linkChild t s.count

/-- `GenericAsyncScope::new`: a parent of another kind does not link the token. -/
def newScope (strategy : Strategy) (parent : Option ScopeRef) : TokenTree :=
  let next := s.newWithParent strategy (ScopeRef.crossParentOf strategy parent)
  let next :=
    match parent with
    | some parent =>
        if parent.strategy = strategy then next.linkChild parent.token s.count else next
    | none => next
  { next with scopes := ScopeRef.new strategy s.count parent :: s.scopes }

/-! ## Waiting -/

/-- `StateWakerQueue::register`: a waker that is there already is not added again. -/
def enlist (waker : Nat) : TokenTree :=
  let wakers := (s.token t).wakers
  { s.set t { s.token t with wakers := if waker ∈ wakers then wakers else wakers ++ [waker] } with
    waiting := (t, waker) :: s.waiting }

/-- `register_waker`, given how it goes on to the cross-scope parent. -/
def registerOn (waker : Nat) (onward : TokenTree → TokenTree) : TokenTree :=
  if s.isCancelled t then
    s.wake [waker]
  else
    let next := onward (s.enlist t waker)
    if next.isCancelled t then
      (next.set t { next.token t with wakers := [] }).wake (next.token t).wakers
    else
      next

def registerCancelWaker (waker : Nat) : ScopeRef → TokenTree → TokenTree
  | .root _ token, s => s.registerOn token waker id
  | .under strategy token parent, s =>
      s.registerOn token waker
        (if ScopeRef.crosses strategy parent then registerCancelWaker waker parent else id)

def registerWaker (waker : Nat) : TokenTree :=
  s.registerOn t waker
    (match (s.token t).crossParent with
    | none => id
    | some parent => registerCancelWaker waker parent)

end TokenTree

/-! ## The calls -/

inductive TokenCall where
  | new (strategy : Strategy)
  | newScope (strategy : Strategy) (parent : Option ScopeRef)
  | child (t : Nat)
  | linkChild (t child : Nat)
  | cancel (t : Nat)
  | registerWaker (t waker : Nat)
  deriving DecidableEq, Repr

namespace TokenTree

/-- The state after a call.  Its arguments exist, and a token takes only tokens of its own kind
as its children. -/
def step (s : TokenTree) : TokenCall → Option TokenTree
  | .new strategy => some (s.newWithParent strategy none)
  | .newScope strategy parent =>
      if ∀ scope ∈ parent, scope ∈ s.scopes then some (s.newScope strategy parent) else none
  | .child t => if t < s.count then some (s.child t) else none
  | .linkChild t child =>
      if t < s.count ∧ child < s.count ∧ (s.token t).strategy = (s.token child).strategy then
        some (s.linkChild t child)
      else
        none
  | .cancel t => if t < s.count then some (s.cancel t) else none
  | .registerWaker t waker => if t < s.count then some (s.registerWaker t waker) else none

end TokenTree

/-- The calls as a relation. -/
def TokenStep (s : TokenTree) (call : TokenCall) (s' : TokenTree) : Prop := s.step call = some s'

end Veloq.Runtime
