import Veloq.Foundation.Run
import Mathlib.Logic.Function.Basic
set_option autoImplicit false

/-!
# Waker: the atomic waker

A slot for one waker, spread over a tagged vtable pointer, a data pointer and a cached copy
of both, that any number of tasks register with and take from.  Every atomic operation is a
step of its own.  A waker is its vtable and its data; a clone of it is the same pair, and is
known here by the call that made it, so that one can tell which clones have been consumed.
-/

namespace Veloq.Waker

/-- A waker: the address of its vtable, and its data. -/
structure RawWaker where
  vtable : Nat
  data : Nat
  deriving DecidableEq, Repr

/-- The low bits of the vtable pointer. -/
inductive Tag where
  | idle
  | registered
  | waking
  | registering
  deriving DecidableEq, Repr

/-- The tagged vtable pointer; `none` is the address of the vtable that does nothing. -/
structure Word where
  ptr : Option Nat
  tag : Tag
  deriving DecidableEq, Repr

/-- `NOOP_PTR`. -/
def Word.noop : Word := { ptr := none, tag := .idle }

/-- The data pointer, with the call that cloned the waker it belongs to. -/
structure Slot where
  ptr : Nat
  clone : Option Nat
  deriving DecidableEq, Repr

def Slot.null : Slot := { ptr := 0, clone := none }

/-- What a call does next. -/
inductive WakerPc where
  | fresh
  /-- `register`: load the cached vtable. -/
  | cachedVtable
  /-- `register`: load the cached data. -/
  | cachedData (seen : Option Nat)
  /-- `register`, the cache has this waker: load the vtable. -/
  | quick
  /-- `register`: load the vtable. -/
  | load
  /-- `register`: exchange the vtable that was seen for the same one, `REGISTERING`. -/
  | acquire (seen : Word)
  /-- `register`: load the data and drop the waker that was registered. -/
  | replace (old : Option Nat)
  /-- `register`: clone the waker and store its data. -/
  | store (old : Option Nat)
  /-- `register`: exchange the vtable for the new one, `REGISTERED`. -/
  | publish (old : Option Nat)
  | cacheVtable
  | cacheData
  /-- `register`, a wake-up came in between: store the vtable that does nothing. -/
  | resetVtable
  | resetData
  | clearVtable
  | clearData
  /-- `register`: wake the clone. -/
  | wakeOwn
  /-- `take`: load the vtable. -/
  | takeLoad
  /-- `take`: exchange `REGISTERING` for `WAKING`. -/
  | takeMark (seen : Word)
  /-- `take`: exchange `REGISTERED` for `WAKING`. -/
  | takeClaim (seen : Word)
  /-- `take`: load the data. -/
  | takeData (old : Option Nat)
  /-- `take`: store no data. -/
  | takeClear (old : Option Nat) (data : Slot)
  /-- `take`: store the vtable that does nothing. -/
  | takeReset (old : Option Nat) (data : Slot)
  | gone
  deriving DecidableEq, Repr

/-- A call, with the waker that was passed to `register`. -/
structure WakerTask where
  arg : Option RawWaker
  pc : WakerPc
  deriving DecidableEq, Repr

/-- What became of a waker. -/
inductive Signal where
  /-- `take` has returned the waker. -/
  | taken (vtable : Option Nat) (data : Slot)
  /-- `register` has dropped the waker it replaces. -/
  | dropped (vtable : Option Nat) (data : Slot)
  /-- The call has woken its own clone. -/
  | woken (g : Nat)
  /-- The call has woken the waker it was given, without cloning it. -/
  | byRef (g : Nat)
  deriving DecidableEq, Repr

structure AtomicWaker where
  vtable : Word
  data : Slot
  cachedVtable : Option Nat
  cachedData : Nat
  log : List Signal
  tasks : Nat → WakerTask

namespace AtomicWaker

def new : AtomicWaker :=
  { vtable := .noop, data := .null, cachedVtable := none, cachedData := 0, log := []
    tasks := fun _ => { arg := none, pc := .fresh } }

variable (s : AtomicWaker) (f : Nat)

def goto (pc : WakerPc) : AtomicWaker :=
  { s with tasks := Function.update s.tasks f { s.tasks f with pc := pc } }

/-- The waker that was passed to the call. -/
def waker : RawWaker := (s.tasks f).arg.getD { vtable := 0, data := 0 }

/-! ## `register` -/

def register (w : RawWaker) : AtomicWaker :=
  { s with tasks := Function.update s.tasks f { arg := some w, pc := .cachedVtable } }

def loadCachedVtable : AtomicWaker := s.goto f (.cachedData s.cachedVtable)

def loadCachedData (seen : Option Nat) : AtomicWaker :=
  if some (s.waker f).vtable = seen ∧ (s.waker f).data = s.cachedData then
    s.goto f .quick
  else
    s.goto f .load

def quickCheck : AtomicWaker :=
  if s.vtable = { ptr := some (s.waker f).vtable, tag := .registered } then
    s.goto f .gone
  else
    s.goto f .load

/-- One turn of the loop, for the vtable that was seen. -/
def turn (seen : Word) : AtomicWaker :=
  match seen.tag with
  | .waking => { s.goto f .gone with log := .byRef f :: s.log }
  | .registering => s.goto f .gone
  | .idle => if seen.ptr = none then s.goto f (.acquire seen) else s.goto f .load
  | .registered => s.goto f (.acquire seen)

def tryAcquire (seen : Word) : AtomicWaker :=
  if s.vtable = seen then
    { s.goto f (if seen.tag = .registered then .replace seen.ptr else .store seen.ptr) with
      vtable := { seen with tag := .registering } }
  else
    s.turn f s.vtable

def dropOld (old : Option Nat) : AtomicWaker :=
  { s.goto f (.store old) with
    log := if old = none then s.log else .dropped old s.data :: s.log }

def storeData (old : Option Nat) : AtomicWaker :=
  { s.goto f (.publish old) with data := { ptr := (s.waker f).data, clone := some f } }

def tryPublish (old : Option Nat) : AtomicWaker :=
  if s.vtable = { ptr := old, tag := .registering } then
    { s.goto f .cacheVtable with
      vtable := { ptr := some (s.waker f).vtable, tag := .registered } }
  else
    s.goto f .resetVtable

def storeCachedVtable : AtomicWaker :=
  { s.goto f .cacheData with cachedVtable := some (s.waker f).vtable }

def storeCachedData : AtomicWaker :=
  { s.goto f .gone with cachedData := (s.waker f).data }

def resetVtable : AtomicWaker := { s.goto f .resetData with vtable := .noop }

def resetData : AtomicWaker := { s.goto f .clearVtable with data := .null }

def clearCachedVtable : AtomicWaker := { s.goto f .clearData with cachedVtable := none }

def clearCachedData : AtomicWaker := { s.goto f .wakeOwn with cachedData := 0 }

def wakeOwn : AtomicWaker := { s.goto f .gone with log := .woken f :: s.log }

/-! ## `take` -/

/-- One turn of the loop, for the vtable that was seen. -/
def takeTurn (seen : Word) : AtomicWaker :=
  match seen.tag with
  | .registering => s.goto f (.takeMark seen)
  | .registered => s.goto f (.takeClaim seen)
  | .idle | .waking => s.goto f .gone

def mark (seen : Word) : AtomicWaker :=
  if s.vtable = seen then
    { s.goto f .gone with vtable := { seen with tag := .waking } }
  else
    s.takeTurn f s.vtable

def claim (seen : Word) : AtomicWaker :=
  if s.vtable = seen then
    { s.goto f (.takeData seen.ptr) with vtable := { seen with tag := .waking } }
  else
    s.takeTurn f s.vtable

def takeClear (old : Option Nat) (data : Slot) : AtomicWaker :=
  { s.goto f (.takeReset old data) with data := .null }

/-- The waker is put together again and returned. -/
def takeReset (old : Option Nat) (data : Slot) : AtomicWaker :=
  { s.goto f .gone with vtable := .noop, log := .taken old data :: s.log }

end AtomicWaker

/-- What a call is made to do.  `wake` is `take` and a call of the waker it returns. -/
inductive WakerAction where
  | register (w : RawWaker)
  | take
  | advance
  deriving DecidableEq, Repr

namespace AtomicWaker

/-- The next step of a call. -/
def advance (s : AtomicWaker) (f : Nat) : Option AtomicWaker :=
  match (s.tasks f).pc with
  | .cachedVtable => some (s.loadCachedVtable f)
  | .cachedData seen => some (s.loadCachedData f seen)
  | .quick => some (s.quickCheck f)
  | .load => some (s.turn f s.vtable)
  | .acquire seen => some (s.tryAcquire f seen)
  | .replace old => some (s.dropOld f old)
  | .store old => some (s.storeData f old)
  | .publish old => some (s.tryPublish f old)
  | .cacheVtable => some (s.storeCachedVtable f)
  | .cacheData => some (s.storeCachedData f)
  | .resetVtable => some (s.resetVtable f)
  | .resetData => some (s.resetData f)
  | .clearVtable => some (s.clearCachedVtable f)
  | .clearData => some (s.clearCachedData f)
  | .wakeOwn => some (s.wakeOwn f)
  | .takeLoad => some (s.takeTurn f s.vtable)
  | .takeMark seen => some (s.mark f seen)
  | .takeClaim seen => some (s.claim f seen)
  | .takeData old => some (s.goto f (.takeClear old s.data))
  | .takeClear old data => some (s.takeClear f old data)
  | .takeReset old data => some (s.takeReset f old data)
  | .fresh | .gone => none

/-- One step of call `e.1`. -/
def step (s : AtomicWaker) (e : Nat × WakerAction) : Option AtomicWaker :=
  match (s.tasks e.1).pc, e.2 with
  | .fresh, .register w => some (s.register e.1 w)
  | .fresh, .take => some (s.goto e.1 .takeLoad)
  | _, .advance => s.advance e.1
  | _, _ => none

end AtomicWaker

/-- The steps as a relation. -/
def WakerStep (s : AtomicWaker) (e : Nat × WakerAction) (s' : AtomicWaker) : Prop :=
  s.step e = some s'

end Veloq.Waker
