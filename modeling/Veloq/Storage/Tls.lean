import Veloq.Foundation.Run
set_option autoImplicit false

/-!
# Storage: thread-local values

`Tls` of `veloq-tls` on one thread.  The value of its key is null, the sentinel of a running
initialiser, or the pointer of a box.  A closure runs between two steps, which may be any
calls on the same `Tls`; that it panics is the step that ends it, and unwinding ends one
closure after the other.

Boxes are numbers, in the hands of the slot or of callers.  Whether the system has a key to
give and whether a `set_value` fails is up to the event; a `set_value` that fails changes
nothing.
-/

namespace Veloq.Storage.Tls

open Veloq.Foundation

/-- What `get_value` returns. -/
inductive Slot where
  | null
  | sentinel
  | value (v : Nat)
  deriving DecidableEq, Repr

/-- A closure that is running. -/
inductive Frame where
  /-- `init` of `get_or_try_init`, with the `ResetGuard` beneath it. -/
  | init
  /-- `f` of `try_with` or `try_with_or_init`, which borrows `v`. -/
  | body (v : Nat)
  deriving DecidableEq, Repr

/-- `TlsErrorKind`. -/
inductive TlsErrorKind where
  | allocationFailed
  | setFailed
  | uninitialized
  | recursiveAccess
  deriving DecidableEq, Repr

/-- How a call ends, or that its closure runs now. -/
inductive Reply where
  | running
  | error (kind : TlsErrorKind)
  | panicked
  | set (old : Option Nat)
  /-- `Err` of `set_owned`, which gives `val` back. -/
  | setError (kind : TlsErrorKind) (val : Nat)
  | took (old : Option Nat)
  | ended
  deriving DecidableEq, Repr

structure State where
  /-- The key was allocated. -/
  allocated : Bool
  slot : Slot
  stack : List Frame
  /-- The boxes that callers own, with multiplicity. -/
  callers : List Nat
  /-- The boxes that were made, and those that were ever in the slot. -/
  boxed : List Nat
  stored : List Nat
  deriving DecidableEq, Repr

inductive Event where
  /-- A caller boxes a value. -/
  | box (v : Nat)
  /-- `with` is `try_with` with a panic for an error. -/
  | tryWith (keyOk : Bool)
  | tryWithOrInit (keyOk setOk : Bool)
  /-- `init` returns, and its value goes into the box `v`. -/
  | initReturn (v : Nat) (setOk resetOk : Bool)
  | initPanic (resetOk : Bool)
  | bodyEnd
  | setOwned (v : Nat) (keyOk setOk resetOk : Bool)
  | take (keyOk setOk : Bool)
  deriving DecidableEq, Repr

def new : State :=
  { allocated := false, slot := .null, stack := [], callers := [], boxed := [], stored := [] }

namespace State

variable (addr : Nat → Nat) (s : State)

/-- `is_sentinel` looks at the address: that of a box is one if its type is zero-sized with
alignment one. -/
def isSentinel : Bool :=
  match s.slot with
  | .null => false
  | .sentinel => true
  | .value v => addr v = 1

/-- `get_key`: whether there is a key, and the state with it. -/
def getKey (keyOk : Bool) : Option State :=
  if s.allocated then some s
  else if keyOk then some { s with allocated := true }
  else none

/-- `set_value`. -/
def setValue (ok : Bool) (slot : Slot) : State := if ok then { s with slot := slot } else s

/-- `drop` of an active `ResetGuard`. -/
def reset (resetOk : Bool) : State := s.setValue resetOk .null

/-- `try_with`. -/
def tryWith (keyOk : Bool) : Reply × State :=
  match s.getKey keyOk with
  | none => (.error .allocationFailed, s)
  | some s =>
      match s.slot with
      | .null => (.error .uninitialized, s)
      | .sentinel => (.error .uninitialized, s)
      | .value v =>
          if s.isSentinel addr then (.error .uninitialized, s)
          else (.running, { s with stack := .body v :: s.stack })

/-- `try_with_or_init` as far as its first closure. -/
def tryWithOrInit (keyOk setOk : Bool) : Reply × State :=
  match s.getKey keyOk with
  | none => (.error .allocationFailed, s)
  | some s =>
      match s.slot with
      | .null =>
          if setOk then
            (.running, { s.setValue true .sentinel with stack := .init :: s.stack })
          else
            (.panicked, s)
      | .sentinel => (.error .recursiveAccess, s)
      | .value v =>
          if s.isSentinel addr then (.error .recursiveAccess, s)
          else (.running, { s with stack := .body v :: s.stack })

/-- The initialiser returns: its value is stored and the closure runs on it, or the box is
dropped and the guard resets the slot. -/
def initReturn (v : Nat) (setOk resetOk : Bool) (rest : List Frame) : Reply × State :=
  let s := { s with boxed := v :: s.boxed }
  if setOk then
    (.running, { s.setValue true (.value v) with stack := .body v :: rest, stored := v :: s.stored })
  else
    (.panicked, { s.reset resetOk with stack := rest })

/-- `set_owned`. -/
def setOwned (v : Nat) (keyOk setOk resetOk : Bool) : Reply × State :=
  match s.getKey keyOk with
  | none => (.setError .allocationFailed v, s)
  | some s =>
      if s.isSentinel addr then
        (.setError .recursiveAccess v, s)
      else if setOk then
        let given := { s.setValue true (.value v) with
          callers := s.callers.erase v, stored := v :: s.stored }
        match s.slot with
        | .value old => (.set (some old), { given with callers := old :: given.callers })
        | _ => (.set none, given)
      else
        (.setError .setFailed v, s.reset resetOk)

/-- `take`: it ignores whether the slot could be cleared. -/
def take (keyOk setOk : Bool) : Reply × State :=
  match s.getKey keyOk with
  | none => (.took none, s)
  | some s =>
      match s.slot with
      | .value old =>
          if s.isSentinel addr then (.took none, s)
          else (.took (some old), { s.setValue setOk .null with callers := old :: s.callers })
      | _ => (.took none, s)

/-- One step: a call, or the end of the closure on top. -/
def step : Event → Option (Reply × State)
  | .box v =>
      if v ∈ s.boxed then none
      else some (.ended, { s with boxed := v :: s.boxed, callers := v :: s.callers })
  | .tryWith keyOk => some (s.tryWith addr keyOk)
  | .tryWithOrInit keyOk setOk => some (s.tryWithOrInit addr keyOk setOk)
  | .initReturn v setOk resetOk =>
      match s.stack with
      | .init :: rest => if v ∈ s.boxed then none else some (s.initReturn v setOk resetOk rest)
      | _ => none
  | .initPanic resetOk =>
      match s.stack with
      | .init :: rest => some (.panicked, { s.reset resetOk with stack := rest })
      | _ => none
  | .bodyEnd =>
      match s.stack with
      | .body _ :: rest => some (.ended, { s with stack := rest })
      | _ => none
  | .setOwned v keyOk setOk resetOk =>
      if v ∈ s.callers then some (s.setOwned addr v keyOk setOk resetOk) else none
  | .take keyOk setOk => some (s.take addr keyOk setOk)

/-- How many times a box is owned, by the slot or by a caller. -/
def owners (v : Nat) : Nat := (if s.slot = .value v then 1 else 0) + s.callers.count v

end State

/-- The steps as a relation. -/
def TlsStep (addr : Nat → Nat) (s : State) (e : Event) (s' : State) : Prop :=
  ∃ reply, s.step addr e = some (reply, s')

/-- No closure runs on a value. -/
def State.Unborrowed (s : State) : Prop := ∀ v, Frame.body v ∉ s.stack

/-- `set_owned` gets as far as storing the box. -/
def State.Stores (s : State) (keyOk setOk : Bool) : Prop :=
  s.getKey keyOk ≠ none ∧ s.slot ≠ .sentinel ∧ setOk = true

/-- When a step does what it should.  A stored box is not at address one, nobody replaces or
takes a value while a closure runs on it, and the system does not fail to store over a value,
to clear a slot that is taken from, or to reset a slot that was being initialised. -/
def Careful (addr : Nat → Nat) (s : State) : Event → Prop
  | .initReturn v setOk resetOk => (setOk = true → addr v ≠ 1) ∧ (setOk = false → resetOk = true)
  | .initPanic resetOk => resetOk = true
  | .setOwned v keyOk setOk resetOk =>
      (s.Stores keyOk setOk → addr v ≠ 1) ∧ ∀ old, s.slot = .value old →
        setOk = true ∧ s.Unborrowed ∨ setOk = false ∧ resetOk = false
  | .take _ setOk => ∀ old, s.slot = .value old → setOk = true ∧ s.Unborrowed
  | _ => True

end Veloq.Storage.Tls
