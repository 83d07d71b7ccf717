import Veloq.Foundation.Census
import Veloq.Foundation.Run
import Mathlib.Logic.Function.Basic
set_option autoImplicit false

/-!
# Storage: the atomic cell of an optional `Arc`

`AtomicOptionArc` and `AtomicOptionFatArc` of `veloq-storage/src/atomic.rs`.  The thin cell holds
the pointer of `Arc::into_raw`; the fat one, a `GenericAtomicOption` with the
`FatPointerStrategy`, holds a pointer to a box that holds the `Arc`.

Every access to the cell, to a box and to a strong count is a step.  An allocation is a number
that is never used again, so that an access to freed memory is one to a number that is not live;
it is a fault and ends the run.  The callers' handles are counted for each `Arc`.  A cell that
starts with an `Arc` is an empty one after a `store` that nobody else sees.
-/

namespace Veloq.Storage

open Veloq.Foundation

/-- `AtomicOptionArc`, or `AtomicOptionFatArc`. -/
inductive Strategy where
  | thin
  | fat
  deriving DecidableEq, Repr

/-- What `to_raw` makes of an `Arc`: its own pointer, or that of a box with the `Arc` in it. -/
structure Raw where
  arc : Nat
  box : Option Nat
  deriving DecidableEq, Repr

inductive BoxStage where
  | fresh
  | live (arc : Nat)
  | freed
  deriving DecidableEq, Repr

namespace BoxStage

/-- The `Arc` in a box that is not freed. -/
def arc : BoxStage → Option Nat
  | live a => some a
  | fresh | freed => none

end BoxStage

/-- The allocation of an `Arc`. -/
structure ArcInner where
  made : Bool
  strong : Nat
  /-- The handles that callers have. -/
  handles : Nat
  /-- How often the value was dropped and its memory freed. -/
  released : Nat
  deriving DecidableEq, Repr

/-- What a call does next. -/
inductive CellPc where
  | idle
  /-- `load_clone`: load the pointer. -/
  | load
  /-- `load_clone`: read the box. -/
  | readBox (raw : Raw)
  /-- `load_clone`: increment the strong count. -/
  | increment (arc : Nat)
  /-- `take` and `store`: the `swap`.  `give`: the old `Arc` is returned. -/
  | swap (new : Option Raw) (give : Bool)
  /-- The `compare_exchange` of `compare_exchange_none`. -/
  | cas (raw : Raw)
  /-- `from_raw`. -/
  | fromRaw (raw : Raw) (give : Bool)
  /-- The drop of the old `Arc` in `store`. -/
  | decrement (arc : Nat)
  deriving DecidableEq, Repr

/-- An access to freed memory. -/
inductive Fault where
  | freedBox
  | deadArc
  deriving DecidableEq, Repr

structure OptionArc where
  strategy : Strategy
  cell : Option Raw
  boxes : Nat → BoxStage
  arcs : Nat → ArcInner
  threads : Nat → CellPc
  /-- The cell was dropped. -/
  dropped : Bool
  fault : Option Fault

inductive CellEvent where
  | newArc (a : Nat)
  | cloneHandle (a : Nat)
  | dropHandle (a : Nat)
  | loadClone (t : Nat)
  | take (t : Nat)
  | store (t : Nat) (new : Option Raw)
  | compareExchangeNone (t : Nat) (new : Raw)
  /-- The call of `t` takes its next step. -/
  | advance (t : Nat)
  | dropCell
  deriving DecidableEq, Repr

namespace OptionArc

def new (strategy : Strategy) : OptionArc :=
  { strategy := strategy
    cell := none
    boxes := fun _ => .fresh
    arcs := fun _ => { made := false, strong := 0, handles := 0, released := 0 }
    threads := fun _ => .idle
    dropped := false
    fault := none }

variable (s : OptionArc)

def goto (t : Nat) (pc : CellPc) : OptionArc :=
  { s with threads := Function.update s.threads t pc }

def setArc (a : Nat) (inner : ArcInner) : OptionArc :=
  { s with arcs := Function.update s.arcs a inner }

def setBox (b : Nat) (stage : BoxStage) : OptionArc :=
  { s with boxes := Function.update s.boxes b stage }

def fail (fault : Fault) : OptionArc := { s with fault := some fault }

/-- A handle goes to the caller. -/
def giveHandle (a : Nat) : OptionArc :=
  s.setArc a { s.arcs a with handles := (s.arcs a).handles + 1 }

/-- A handle goes from the caller into a call. -/
def takeHandle (a : Nat) : OptionArc :=
  s.setArc a { s.arcs a with handles := (s.arcs a).handles - 1 }

/-- `fetch_add` on the strong count. -/
def incrementStrong (a : Nat) : OptionArc :=
  if (s.arcs a).strong = 0 then
    s.fail .deadArc
  else
    s.setArc a { s.arcs a with strong := (s.arcs a).strong + 1 }

/-- `fetch_sub` on the strong count, and the release by the one that takes it to zero. -/
def decrementStrong (a : Nat) : OptionArc :=
  if (s.arcs a).strong = 0 then
    s.fail .deadArc
  else
    s.setArc a
      { s.arcs a with
        strong := (s.arcs a).strong - 1
        released := (s.arcs a).released + if (s.arcs a).strong = 1 then 1 else 0 }

/-- The `Arc` behind a pointer, if its memory is not freed. -/
def contents (raw : Raw) : Option Nat :=
  match raw.box with
  | none => some raw.arc
  | some b => (s.boxes b).arc

def freeBox (raw : Raw) : OptionArc :=
  match raw.box with
  | none => s
  | some b => s.setBox b .freed

/-- `Box::new` of the `Arc`, if the pointer is that of a box. -/
def fillBox (raw : Raw) : OptionArc :=
  match raw.box with
  | none => s
  | some b => s.setBox b (.live raw.arc)

/-- The pointer is one that `to_raw` can make. -/
def rawFits (raw : Raw) : Bool :=
  match s.strategy, raw.box with
  | .thin, none => true
  | .fat, some b => decide (s.boxes b = .fresh)
  | .thin, some _ | .fat, none => false

/-- `to_raw` of a handle of the caller. -/
def toRaw (raw : Raw) : Option OptionArc :=
  if s.rawFits raw ∧ 0 < (s.arcs raw.arc).handles then
    some ((s.takeHandle raw.arc).fillBox raw)
  else
    none

/-- `from_raw`: the `Arc` is returned or goes on to be dropped. -/
def takeOut (t : Nat) (raw : Raw) (give : Bool) : OptionArc :=
  match s.contents raw with
  | none => s.fail .freedBox
  | some a =>
      if give then ((s.freeBox raw).giveHandle a).goto t .idle
      else (s.freeBox raw).goto t (.decrement a)

/-- The next step of the call of `t`. -/
def advance (t : Nat) : Option OptionArc :=
  match s.threads t with
  | .idle => none
  | .load =>
      match s.cell with
      | none => some (s.goto t .idle)
      | some raw =>
          some (s.goto t (if raw.box = none then .increment raw.arc else .readBox raw))
  | .readBox raw =>
      match s.contents raw with
      | none => some (s.fail .freedBox)
      | some a => some (s.goto t (.increment a))
  | .increment a => some (((s.incrementStrong a).giveHandle a).goto t .idle)
  | .swap new give =>
      let s' := { s with cell := new }
      match s.cell with
      | none => some (s'.goto t .idle)
      | some old => some (s'.goto t (.fromRaw old give))
  | .cas raw =>
      match s.cell with
      | none => some ({ s with cell := some raw }.goto t .idle)
      | some _ => some (s.goto t (.fromRaw raw true))
  | .fromRaw raw give => some (s.takeOut t raw give)
  | .decrement a => some ((s.decrementStrong a).goto t .idle)

/-- The destructor of the cell. -/
def dropCell : OptionArc :=
  let s' := { s with cell := none, dropped := true }
  match s.cell with
  | none => s'
  | some raw =>
      match s.contents raw with
      | none => s'.fail .freedBox
      | some a => (s'.freeBox raw).decrementStrong a

/-- A call of `t` begins. -/
def call (t : Nat) (pc : CellPc) : Option OptionArc :=
  if s.dropped = false ∧ s.threads t = .idle then some (s.goto t pc) else none

def step (e : CellEvent) : Option OptionArc :=
  if s.fault = none then
    match e with
    | .newArc a =>
        if (s.arcs a).made then none
        else some (s.setArc a { made := true, strong := 1, handles := 1, released := 0 })
    | .cloneHandle a =>
        if 0 < (s.arcs a).handles then some ((s.incrementStrong a).giveHandle a) else none
    | .dropHandle a =>
        if 0 < (s.arcs a).handles then some ((s.takeHandle a).decrementStrong a) else none
    | .loadClone t => s.call t .load
    | .take t => s.call t (.swap none true)
    | .store t none => s.call t (.swap none false)
    | .store t (some raw) => (s.toRaw raw).bind fun s => s.call t (.swap (some raw) false)
    | .compareExchangeNone t raw => (s.toRaw raw).bind fun s => s.call t (.cas raw)
    | .advance t => s.advance t
    | .dropCell => if s.dropped then none else some s.dropCell
  else
    none

/-- A cell is dropped by its owner, when no call on it is running. -/
def Alone : CellEvent → Prop
  | .dropCell => ∀ t, s.threads t = .idle
  | _ => True

end OptionArc

/-- The steps as a relation. -/
def CellStep (s : OptionArc) (e : CellEvent) (s' : OptionArc) : Prop :=
  s.Alone e ∧ s.step e = some s'

/-! ## What a cell is for -/

namespace OptionArc

variable (s : OptionArc)

/-- No freed memory was accessed, so that in particular no strong count was incremented that was
zero; nothing is released twice, and at the end everything was released. -/
structure NeverResurrects : Prop where
  intact : s.fault = none
  once : ∀ a, (s.arcs a).released ≤ 1
  released : s.dropped = true → (∀ a, (s.arcs a).handles = 0) →
    ∀ a, (s.arcs a).made = true → (s.arcs a).released = 1

/-- Nobody has loaded the pointer of `a` and not incremented its count yet. -/
def Unobserved (a : Nat) : Prop := ∀ t, s.threads t ≠ .increment a

/-- Nobody has loaded the pointer of a box and not read the box yet. -/
def Unread (raw : Raw) : Prop := ∀ t raw', s.threads t = .readBox raw' → raw'.box ≠ raw.box

/-- What is freed was not loaded by a `load_clone` that still has to use it. -/
def Careful : CellEvent → Prop
  | .dropHandle a => (s.arcs a).strong = 1 → s.Unobserved a
  | .advance t =>
      match s.threads t with
      | .decrement a => (s.arcs a).strong = 1 → s.Unobserved a
      | .fromRaw raw _ => s.Unread raw
      | _ => True
  | _ => True

end OptionArc

end Veloq.Storage
