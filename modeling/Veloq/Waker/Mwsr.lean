import Veloq.Waker.Atomic
set_option autoImplicit false

/-!
# Waker: the waker with one registrar

The slot of an atomic waker for one thread that registers and any number of threads that
wake.  The registrar publishes into an empty slot without taking the lock, and only it uses
the cached copy.  Every atomic operation is a step of its own.  The calls of `register` are
numbered from `1`; a clone is known by the call that made it, and what is done through the
vtables of wakers is recorded, the latest first.
-/

namespace Veloq.Waker

/-- What the registrar does next. -/
inductive RegisterPc where
  /-- No `register` call is in progress. -/
  | idle
  | cachedVtable
  | cachedData (seen : Option Nat)
  /-- The cache has this waker: load the vtable. -/
  | quick
  | load
  /-- The slot is empty: clone the waker and store its data. -/
  | directStore
  /-- The slot is empty: store the vtable, `REGISTERED`. -/
  | directPublish
  /-- Exchange the vtable that was seen for the same one, `REGISTERING`. -/
  | acquire (seen : Word)
  /-- Load the data and drop the waker that was registered. -/
  | replace (old : Option Nat)
  /-- Clone the waker and store its data. -/
  | store (old : Option Nat)
  /-- Exchange the vtable for the new one, `REGISTERED`. -/
  | publish (old : Option Nat)
  | cacheVtable
  | cacheData
  /-- A wake-up came in between: store the vtable that does nothing. -/
  | resetVtable
  | resetData
  | clearVtable
  | clearData
  | wakeOwn
  | wakeByRef
  deriving DecidableEq, Repr

/-- What a `wake` call does next. -/
inductive WakePc where
  | fresh
  | load
  /-- Exchange `REGISTERING` for `WAKING`. -/
  | mark (seen : Word)
  /-- Exchange `REGISTERED` for `WAKING`. -/
  | claim (seen : Word)
  /-- Load the data. -/
  | data (old : Option Nat)
  /-- Store no data. -/
  | clear (old : Option Nat) (data : Slot)
  /-- Store the vtable that does nothing. -/
  | reset (old : Option Nat) (data : Slot)
  /-- `take` has returned the waker: wake it. -/
  | wake (old : Option Nat) (data : Slot)
  | gone
  deriving DecidableEq, Repr

/-- What is done through the vtable of a waker. -/
inductive VtableCall where
  | clone (g : Nat)
  | wake (vtable : Option Nat) (data : Slot)
  | wakeByRef (w : RawWaker)
  | drop (vtable : Option Nat) (data : Slot)
  deriving DecidableEq, Repr

structure MwsrWaker where
  vtable : Word
  data : Slot
  cachedVtable : Option Nat
  cachedData : Nat
  /-- The number of the last `register` call. -/
  call : Nat
  /-- The wakers that were passed to `register`. -/
  args : Nat → RawWaker
  pc : RegisterPc
  wakes : Nat → WakePc
  log : List VtableCall

namespace MwsrWaker

def new : MwsrWaker where
  vtable := .noop
  data := .null
  cachedVtable := none
  cachedData := 0
  call := 0
  args := fun _ => { vtable := 0, data := 0 }
  pc := .idle
  wakes := fun _ => .fresh
  log := []

variable (s : MwsrWaker)

/-- The waker that was passed to the last call. -/
def waker : RawWaker := s.args s.call

/-- The data of the clone that the last call makes. -/
def own : Slot := { ptr := s.waker.data, clone := some s.call }

def goto (pc : RegisterPc) : MwsrWaker := { s with pc := pc }

def wakeTo (k : Nat) (pc : WakePc) : MwsrWaker := { s with wakes := Function.update s.wakes k pc }

/-! ## `register` -/

def register (w : RawWaker) : MwsrWaker :=
  { s with
    call := s.call + 1
    args := Function.update s.args (s.call + 1) w
    pc := .cachedVtable }

def loadCachedData (seen : Option Nat) : MwsrWaker :=
  if some s.waker.vtable = seen ∧ s.waker.data = s.cachedData then s.goto .quick else s.goto .load

def quickCheck : MwsrWaker :=
  if s.vtable = { ptr := some s.waker.vtable, tag := .registered } then
    s.goto .idle
  else
    s.goto .load

/-- One turn of the loop, for the vtable that was seen. -/
def turn (seen : Word) : MwsrWaker :=
  match seen.tag with
  | .waking => s.goto .wakeByRef
  | .registering => s.goto .load
  | .idle => if seen.ptr = none then s.goto .directStore else s.goto .load
  | .registered => s.goto (.acquire seen)

def wakeByRef : MwsrWaker := { s.goto .idle with log := .wakeByRef s.waker :: s.log }

/-- The waker is cloned, and the data of the clone is stored. -/
def storeData (next : RegisterPc) : MwsrWaker :=
  { s.goto next with
    data := s.own
    log := .clone s.call :: s.log }

def directPublish : MwsrWaker :=
  { s.goto .cacheVtable with vtable := { ptr := some s.waker.vtable, tag := .registered } }

def tryAcquire (seen : Word) : MwsrWaker :=
  if s.vtable = seen then
    { s.goto (.replace seen.ptr) with vtable := { seen with tag := .registering } }
  else
    s.turn s.vtable

def dropOld (old : Option Nat) : MwsrWaker :=
  { s.goto (.store old) with log := if old = none then s.log else .drop old s.data :: s.log }

def tryPublish (old : Option Nat) : MwsrWaker :=
  if s.vtable = { ptr := old, tag := .registering } then
    { s.goto .cacheVtable with vtable := { ptr := some s.waker.vtable, tag := .registered } }
  else
    s.goto .resetVtable

def storeCachedVtable : MwsrWaker :=
  { s.goto .cacheData with cachedVtable := some s.waker.vtable }

def storeCachedData : MwsrWaker := { s.goto .idle with cachedData := s.waker.data }

def resetVtable : MwsrWaker := { s.goto .resetData with vtable := .noop }

def resetData : MwsrWaker := { s.goto .clearVtable with data := .null }

def clearCachedVtable : MwsrWaker := { s.goto .clearData with cachedVtable := none }

def clearCachedData : MwsrWaker := { s.goto .wakeOwn with cachedData := 0 }

def wakeOwn : MwsrWaker :=
  { s.goto .idle with log := .wake (some s.waker.vtable) s.own :: s.log }

/-- The next step of the registrar. -/
def advance : Option MwsrWaker :=
  match s.pc with
  | .idle => none
  | .cachedVtable => some (s.goto (.cachedData s.cachedVtable))
  | .cachedData seen => some (s.loadCachedData seen)
  | .quick => some s.quickCheck
  | .load => some (s.turn s.vtable)
  | .directStore => some (s.storeData .directPublish)
  | .directPublish => some s.directPublish
  | .acquire seen => some (s.tryAcquire seen)
  | .replace old => some (s.dropOld old)
  | .store old => some (s.storeData (.publish old))
  | .publish old => some (s.tryPublish old)
  | .cacheVtable => some s.storeCachedVtable
  | .cacheData => some s.storeCachedData
  | .resetVtable => some s.resetVtable
  | .resetData => some s.resetData
  | .clearVtable => some s.clearCachedVtable
  | .clearData => some s.clearCachedData
  | .wakeOwn => some s.wakeOwn
  | .wakeByRef => some s.wakeByRef

/-! ## `wake`: `take`, and a call of the waker it returns -/

variable (k : Nat)

/-- One turn of the loop, for the vtable that was seen. -/
def takeTurn (seen : Word) : MwsrWaker :=
  match seen.tag with
  | .registering => s.wakeTo k (.mark seen)
  | .registered => s.wakeTo k (.claim seen)
  | .idle | .waking => s.wakeTo k .gone

def mark (seen : Word) : MwsrWaker :=
  if s.vtable = seen then
    { s.wakeTo k .gone with vtable := { seen with tag := .waking } }
  else
    s.takeTurn k s.vtable

def claim (seen : Word) : MwsrWaker :=
  if s.vtable = seen then
    { s.wakeTo k (.data seen.ptr) with vtable := { seen with tag := .waking } }
  else
    s.takeTurn k s.vtable

def takeClear (old : Option Nat) (data : Slot) : MwsrWaker :=
  { s.wakeTo k (.reset old data) with data := .null }

def takeReset (old : Option Nat) (data : Slot) : MwsrWaker :=
  { s.wakeTo k (.wake old data) with vtable := .noop }

def wakeTaken (old : Option Nat) (data : Slot) : MwsrWaker :=
  { s.wakeTo k .gone with log := .wake old data :: s.log }

/-- The next step of a `wake` call. -/
def wakeStep : Option MwsrWaker :=
  match s.wakes k with
  | .load => some (s.takeTurn k s.vtable)
  | .mark seen => some (s.mark k seen)
  | .claim seen => some (s.claim k seen)
  | .data old => some (s.wakeTo k (.clear old s.data))
  | .clear old data => some (s.takeClear k old data)
  | .reset old data => some (s.takeReset k old data)
  | .wake old data => some (s.wakeTaken k old data)
  | .fresh | .gone => none

/-! ## `drop` -/

/-- A waker that is still registered is dropped. -/
def drop : MwsrWaker :=
  if s.vtable.tag = .registered ∧ s.vtable.ptr ≠ none then
    { s with log := .drop s.vtable.ptr s.data :: s.log }
  else
    s

end MwsrWaker

inductive MwsrAction where
  /-- The registrar calls `register`. -/
  | register (w : RawWaker)
  | registrar
  /-- Some thread calls `wake`. -/
  | wake (k : Nat)
  | waker (k : Nat)
  deriving DecidableEq, Repr

def MwsrWaker.step (s : MwsrWaker) : MwsrAction → Option MwsrWaker
  | .register w => if s.pc = .idle then some (s.register w) else none
  | .registrar => s.advance
  | .wake k => if s.wakes k = .fresh then some (s.wakeTo k .load) else none
  | .waker k => s.wakeStep k

/-- The steps as a relation. -/
def MwsrStep (s : MwsrWaker) (e : MwsrAction) (s' : MwsrWaker) : Prop := s.step e = some s'

end Veloq.Waker
