import Veloq.Foundation.Run
import Mathlib.Logic.Function.Basic
set_option autoImplicit false

/-!
# Blocking: `Once` and `OnceLock`

`veloq-std/src/sync/once.rs` and `once_lock.rs`.  A cell is a `Once` alone or a `OnceLock`, whose
value is written by the initialiser that its `Once` runs.  The word holds one of four states and
the bit `QUEUED`, which says that somebody may be asleep on it.

Every atomic operation, every futex call and every access to the value is a step.  The futex is
the set of the threads that are asleep; a wake wakes all of them.
-/

namespace Veloq.Blocking

open Veloq.Foundation

variable {α : Type}

namespace Once

/-- `INCOMPLETE`. -/
def incomplete : UInt32 := 3

/-- `POISONED`. -/
def poisoned : UInt32 := 2

/-- `RUNNING`. -/
def running : UInt32 := 1

/-- `COMPLETE`. -/
def complete : UInt32 := 0

/-- `QUEUED`. -/
def queuedBit : UInt32 := 4

/-- `STATE_MASK`. -/
def stateMask : UInt32 := 3

def stateOf (w : UInt32) : UInt32 := w &&& stateMask

def isQueued (w : UInt32) : Bool := w &&& queuedBit != 0

/-- The word with the bit `QUEUED` of `w` and the state `RUNNING`. -/
def runningWord (w : UInt32) : UInt32 := running + if isQueued w then queuedBit else 0

end Once

open Once

inductive OnceKind where
  | once
  | lock
  deriving DecidableEq, Repr

/-- A call on a `Once`, or on a `OnceLock`. -/
inductive OnceCall (α : Type) where
  | callOnce
  | callOnceForce
  | wait
  | waitForce
  | get
  | getOrTryInit
  /-- `left` is the variable `value`, which the initialiser takes. -/
  | tryInsert (value : α) (left : Option α)
  | lockWait
  deriving DecidableEq, Repr

/-- How an initialiser ends; that of a `OnceLock` has a value if it succeeds. -/
inductive InitEnd (α : Type) where
  | ok (value : Option α)
  | err
  | panicked
  deriving DecidableEq, Repr

namespace OnceCall

def kind : OnceCall α → OnceKind
  | callOnce | callOnceForce | wait | waitForce => .once
  | get | getOrTryInit | tryInsert _ _ | lockWait => .lock

/-- The parameter `ignore_poisoning`. -/
def ignoresPoisoning : OnceCall α → Bool
  | callOnce | wait => false
  | callOnceForce | waitForce | get | getOrTryInit | tryInsert _ _ | lockWait => true

/-- The call goes through `Once::call`. -/
def isCall : OnceCall α → Bool
  | callOnce | callOnceForce | getOrTryInit | tryInsert _ _ => true
  | wait | waitForce | get | lockWait => false

/-- The call has no initialiser and does not wait. -/
def isGet : OnceCall α → Bool
  | get => true
  | _ => false

/-- What the initialiser of the call can end with. -/
def canEnd : OnceCall α → InitEnd α → Prop
  | callOnce, .ok none | callOnce, .panicked => True
  | callOnceForce, .ok none | callOnceForce, .panicked => True
  | getOrTryInit, .ok (some _) | getOrTryInit, .err | getOrTryInit, .panicked => True
  | tryInsert _ (some x), .ok (some y) => x = y
  | _, _ => False

/-- The initialiser of the call has taken what it needs. -/
def taken : OnceCall α → OnceCall α
  | tryInsert value _ => tryInsert value none
  | call => call

end OnceCall

/-- What a thread does next. -/
inductive OncePc (α : Type) where
  | idle
  /-- `OnceLock::get`: `is_completed`. -/
  | getLoad (call : OnceCall α)
  /-- `call_once` and `call_once_force`: `is_completed`. -/
  | check (call : OnceCall α)
  /-- The load before the loop, or at its end. -/
  | load (call : OnceCall α)
  /-- The body of the loop, with the word that was seen last. -/
  | loop (call : OnceCall α) (seen : UInt32)
  | wait (call : OnceCall α) (expected : UInt32)
  | asleep (call : OnceCall α)
  /-- The initialiser. -/
  | run (call : OnceCall α)
  /-- The `swap` of the `CompletionGuard`.  `ok`: the initialiser has succeeded. -/
  | swap (call : OnceCall α) (ok : Bool)
  /-- The `wake_all_by_address` of the `CompletionGuard`. -/
  | wake (call : OnceCall α) (ok : Bool)
  /-- `get_unchecked`. -/
  | read (call : OnceCall α)
  deriving DecidableEq, Repr

structure OnceCell (α : Type) where
  kind : OnceKind
  word : UInt32
  /-- The value of a `OnceLock`. -/
  slot : Option α
  threads : Nat → OncePc α
  /-- An initialiser has succeeded. -/
  succeeded : Bool
  /-- The value that it has stored. -/
  stored : Option α
  /-- What was found where the value was read. -/
  reads : List (Option α)
  /-- The values of the calls of `try_insert` that are over, and what they returned. -/
  inserts : List (α × Except α Unit)

inductive OnceEvent (α : Type) where
  | start (t : Nat) (call : OnceCall α)
  | advance (t : Nat)
  /-- A `compare_exchange_weak` fails spuriously. -/
  | casFail (t : Nat)
  /-- The initialiser of `t` ends. -/
  | finish (t : Nat) (how : InitEnd α)
  /-- The sleep of `t` ends without a wake. -/
  | interrupt (t : Nat)

namespace OnceCell

def new (kind : OnceKind) : OnceCell α :=
  { kind := kind
    word := incomplete
    slot := none
    threads := fun _ => .idle
    succeeded := false
    stored := none
    reads := []
    inserts := [] }

variable (s : OnceCell α) (t : Nat)

def goto (pc : OncePc α) : OnceCell α := { s with threads := Function.update s.threads t pc }

/-- Where a call goes on after `Once::call` or `wait_inner` has returned. -/
def afterReturn (call : OnceCall α) : OncePc α :=
  match call.kind with
  | .once => .idle
  | .lock => .read call

/-- Where a call goes on after its own initialiser has ended. -/
def afterGuard (call : OnceCall α) (ok : Bool) : OncePc α :=
  if ok then afterReturn call else .idle

/-- `compare_exchange_weak`, without a spurious failure. -/
def cas (call : OnceCall α) (seen next : UInt32) (pc : OncePc α) : OnceCell α :=
  if s.word = seen then { s.goto t pc with word := next } else s.goto t (.loop call s.word)

/-- The body of the loop ends with a panic: the state is `POISONED`. -/
def refuses (call : OnceCall α) (seen : UInt32) : Bool :=
  decide (stateOf seen = poisoned) && !call.ignoresPoisoning

/-- The body of the loop tries to run the initialiser. -/
def claims (call : OnceCall α) (seen : UInt32) : Bool :=
  call.isCall && decide (stateOf seen = incomplete ∨ stateOf seen = poisoned)

/-- The body of the loop of `wait_inner` and of `call`. -/
def turn (call : OnceCall α) (seen : UInt32) : OnceCell α :=
  if stateOf seen = complete then s.goto t (afterReturn call)
  else if refuses call seen then s.goto t .idle
  else if claims call seen then s.cas t call seen (runningWord seen) (.run call)
  else if isQueued seen then s.goto t (.wait call seen)
  else s.cas t call seen (seen + queuedBit) (.wait call (seen + queuedBit))

/-- The body of the loop gets to a `compare_exchange_weak`. -/
def triesCas (call : OnceCall α) (seen : UInt32) : Bool :=
  decide (stateOf seen ≠ complete) && !refuses call seen && (claims call seen || !isQueued seen)

/-- Everybody who is asleep wakes up. -/
def wakeAll : OnceCell α :=
  { s with
    threads := fun u =>
      match s.threads u with
      | .asleep call => .load call
      | pc => pc }

/-- The value is read, and the call returns. -/
def finishRead (call : OnceCall α) : OnceCell α :=
  let s' := { s.goto t .idle with reads := s.reads ++ [s.slot] }
  match call with
  | .tryInsert value left =>
      { s' with
        inserts := s.inserts ++ [(value, match left with | none => .ok () | some x => .error x)] }
  | _ => s'

/-- The next step of a thread, if it depends on nothing but the cell. -/
def advance : Option (OnceCell α) :=
  match s.threads t with
  | .getLoad call =>
      some (s.goto t
        (if s.word = complete then .read call else if call.isGet then .idle else .check call))
  | .check call =>
      some (s.goto t (if s.word = complete then afterReturn call else .load call))
  | .load call => some (s.goto t (.loop call s.word))
  | .loop call seen => some (s.turn t call seen)
  | .wait call expected =>
      some (s.goto t (if s.word = expected then .asleep call else .load call))
  | .swap call ok =>
      some
        { s.goto t (if isQueued s.word then .wake call ok else afterGuard call ok) with
          word := if ok then complete else poisoned }
  | .wake call ok => some (s.wakeAll.goto t (afterGuard call ok))
  | .read call => some (s.finishRead t call)
  | .idle | .asleep _ | .run _ => none

/-- Where a call begins. -/
def begin (call : OnceCall α) : OncePc α :=
  match call with
  | .callOnce | .callOnceForce => .check call
  | .wait | .waitForce | .lockWait => .load call
  | .get | .getOrTryInit | .tryInsert _ _ => .getLoad call

/-- The initialiser has stored its value, if it has one. -/
def store (value : Option α) : OnceCell α :=
  { s with slot := value, stored := value, succeeded := true }

/-- The calls that can be made. -/
def accepts (call : OnceCall α) : Prop :=
  call.kind = s.kind ∧
    match call with
    | .tryInsert value left => left = some value
    | _ => True

end OnceCell

/-- One step of a cell. -/
inductive OnceStep : OnceCell α → OnceEvent α → OnceCell α → Prop where
  | start {s : OnceCell α} {t : Nat} {call : OnceCall α} : s.threads t = .idle → s.accepts call →
      OnceStep s (.start t call) (s.goto t (OnceCell.begin call))
  | advance {s s' : OnceCell α} {t : Nat} : s.advance t = some s' → OnceStep s (.advance t) s'
  | casFail {s : OnceCell α} {t : Nat} {call : OnceCall α} {seen : UInt32} :
      s.threads t = .loop call seen → OnceCell.triesCas call seen = true →
      OnceStep s (.casFail t) (s.goto t (.loop call s.word))
  | finish {s : OnceCell α} {t : Nat} {call : OnceCall α} {value : Option α} :
      s.threads t = .run call → call.canEnd (.ok value) →
      OnceStep s (.finish t (.ok value)) ((s.store value).goto t (.swap call.taken true))
  | fail {s : OnceCell α} {t : Nat} {call : OnceCall α} {how : InitEnd α} :
      s.threads t = .run call → call.canEnd how → (∀ value, how ≠ .ok value) →
      OnceStep s (.finish t how) (s.goto t (.swap call false))
  | interrupt {s : OnceCell α} {t : Nat} {call : OnceCall α} : s.threads t = .asleep call →
      OnceStep s (.interrupt t) (s.goto t (.load call))

/-! ## What a cell promises -/

namespace OncePc

/-- The initialiser is running. -/
def runs : OncePc α → Bool
  | run _ => true
  | _ => false

end OncePc

namespace OnceCell

variable (s : OnceCell α)

/-- Somebody sleeps who has nothing to wait for. -/
def OverSleeps (t : Nat) : Prop :=
  ∃ call, s.threads t = .asleep call ∧
    (stateOf s.word = complete ∨
      stateOf s.word = poisoned ∧ (call.ignoresPoisoning = false ∨ call.isCall = true))

/-- One initialiser at a time, and none after one that has succeeded; only its value is ever
found; one `try_insert` at most is accepted, and the others have their values back; and nobody
sleeps without need unless the guard of an initialiser is about to wake everybody. -/
structure InitialisesOnce : Prop where
  exclusive : ∀ t u, (s.threads t).runs = true → (s.threads u).runs = true → t = u
  final : s.succeeded = true → ∀ t, (s.threads t).runs = false
  reads : ∀ found ∈ s.reads, found = s.stored ∧ s.stored ≠ none ∧ s.succeeded = true
  inserted : (s.inserts.filter fun call => call.2.isOk).length ≤ 1
  refused : ∀ call ∈ s.inserts, call.2 = .ok () ∨ call.2 = .error call.1
  rests : ∀ t, s.OverSleeps t → ∃ u call ok, s.threads u = .wake call ok

end OnceCell

end Veloq.Blocking
