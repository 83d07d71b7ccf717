import Veloq.Driver.Token
import Mathlib.Logic.Function.Basic
set_option autoImplicit false

/-!
# Driver: the operation registry

`OpRegistry` of `driver/registry.rs` with the shared slots of `slot/core.rs` and
`slot/table.rs`.  Every operation owns a slot: a packed word with a 32-bit
generation and a state, shared with the consumers of completions, and a local part
that only the driver touches.  Free slots form two linked lists through
`next_free`, one shared and one local; `NULL_INDEX` is `none`.

The operations of this module are whole calls, one after the other.  Diagnostics,
wakers and the sidecar do not influence them and are left out.
-/

namespace Veloq.Driver

/-- `SlotState`; the fallback `ReservedValue` is never stored. -/
inductive SlotState where
  | idle
  | reserved
  | inFlightWaiting
  | inFlightReady
  | inFlightOrphaned
  | finalizing
  deriving DecidableEq, Repr

/-- `generation.wrapping_add(1)` on a `u32`. -/
@[irreducible] def nextGeneration (generation : Nat) : Nat := (generation + 1) % 2 ^ 32

theorem nextGeneration_lt (generation : Nat) : nextGeneration generation < 2 ^ 32 := by
  unfold nextGeneration
  omega

theorem nextGeneration_of_lt {generation : Nat} (h : generation + 1 < 2 ^ 32) :
    nextGeneration generation = generation + 1 := by
  unfold nextGeneration
  omega

/-- `CompletionRecord`: the event and the payload handed back to the user. -/
structure CompletionRecord (Payload : Type) where
  token : OpToken
  res : Int
  flags : Nat
  payload : Payload

/-- `SlotData`: the packed word, the link of the free list and the data cell. -/
structure SlotData (Payload : Type) where
  generation : Nat
  state : SlotState
  nextFree : Option Nat
  completionData : Option (CompletionRecord Payload)

def SlotData.new {Payload : Type} : SlotData Payload :=
  { generation := 0, state := .idle, nextFree := none, completionData := none }

/-- `SlotData::free`: a ready completion stays for its consumer. -/
def SlotData.free {Payload : Type} (slot : SlotData Payload) : SlotData Payload :=
  if slot.state = .inFlightReady then slot else { slot with state := .idle }

/-- `LocalSlot`. -/
structure LocalSlot (Op Payload Data : Type) where
  op : Option Op
  payload : Option Payload
  platformData : Data
  active : Bool
  generation : Nat

/-- `OpRegistry` and its `SlotTable`, with `capacity` slots. -/
structure OpRegistry (Op Payload Data : Type) where
  capacity : Nat
  slots : Nat → SlotData Payload
  remoteFreeHead : Option Nat
  readyCompletionCount : Nat
  locals : Nat → LocalSlot Op Payload Data
  localFreeHead : Option Nat
  activeCount : Nat

variable {Op Payload Data : Type}

namespace OpRegistry

/-! ## Slots and free lists -/

/-- A change of one shared slot. -/
def setSlot (r : OpRegistry Op Payload Data) (idx : Nat) (slot : SlotData Payload) :
    OpRegistry Op Payload Data :=
  { r with slots := Function.update r.slots idx slot }

/-- A change of one local slot. -/
def setLocal (r : OpRegistry Op Payload Data) (idx : Nat) (slot : LocalSlot Op Payload Data) :
    OpRegistry Op Payload Data :=
  { r with locals := Function.update r.locals idx slot }

/-- `SlotTable::push_free`. -/
def pushFree (r : OpRegistry Op Payload Data) (idx : Nat) : OpRegistry Op Payload Data :=
  { r.setSlot idx { r.slots idx with nextFree := r.remoteFreeHead } with
    remoteFreeHead := some idx }

/-- `OpRegistry::new`. -/
def new [Inhabited Data] (capacity : Nat) : OpRegistry Op Payload Data :=
  let empty : OpRegistry Op Payload Data :=
    { capacity := capacity
      slots := fun _ => SlotData.new
      remoteFreeHead := none
      readyCompletionCount := 0
      locals := fun _ =>
        { op := none, payload := none, platformData := default, active := false, generation := 0 }
      localFreeHead := none
      activeCount := 0 }
  (List.range capacity).reverse.foldl pushFree empty

/-! ## `alloc` -/

/-- `OpHandle`. -/
structure OpHandle where
  index : Nat
  generation : Nat
  deriving DecidableEq

/-- The slot `idx` is taken for a new operation. -/
def reserve (r : OpRegistry Op Payload Data) (idx : Nat) (data : Data) :
    OpRegistry Op Payload Data × OpHandle :=
  let newGen := nextGeneration (r.slots idx).generation
  let r := r.setSlot idx { r.slots idx with generation := newGen, state := .reserved }
  let r := r.setLocal idx
    { op := none, payload := none, platformData := data, active := true, generation := newGen }
  ({ r with activeCount := r.activeCount + 1 }, { index := idx, generation := newGen })

/-- The loop of `alloc` over the local free list; slots that are not idle are set
aside and given back at the end.  A list longer than the table never ends. -/
def allocLoop : Nat → OpRegistry Op Payload Data → List Nat → Data →
    Option (OpRegistry Op Payload Data × Except Data OpHandle)
  | 0, _, _, _ => none
  | fuel + 1, r, deferred, data =>
      match r.localFreeHead with
      | none => some (deferred.foldl pushFree r, .error data)
      | some idx =>
          let popped := { r with localFreeHead := (r.slots idx).nextFree }
          if r.capacity ≤ idx then
            none
          else if (r.slots idx).state ≠ .idle then
            allocLoop fuel popped (deferred ++ [idx]) data
          else
            let reserved := popped.reserve idx data
            some (deferred.foldl pushFree reserved.1, .ok reserved.2)

/-- `OpRegistry::alloc`. -/
def alloc (r : OpRegistry Op Payload Data) (data : Data) :
    Option (OpRegistry Op Payload Data × Except Data OpHandle) :=
  let r := match r.localFreeHead with
    | none => { r with localFreeHead := r.remoteFreeHead, remoteFreeHead := none }
    | some _ => r
  allocLoop (r.capacity + 1) r [] data

/-! ## Views of a slot -/

/-- `SlotSnapshot`. -/
structure SlotSnapshot where
  index : Nat
  generation : Nat
  state : SlotState
  hasOp : Bool
  hasPayload : Bool
  deriving DecidableEq

/-- `SlotView`, by the state of the slot it is bound to. -/
inductive SlotView where
  | reserved
  | inFlightWaiting
  | inFlightOrphaned
  deriving DecidableEq

/-- `CheckedSlotView`; a valid view is bound to the slot `index`. -/
inductive CheckedSlotView where
  | valid (view : SlotView) (index : Nat)
  | missing (index expectedGeneration : Nat)
  | empty (snapshot : SlotSnapshot)
  | stale (snapshot : SlotSnapshot)
  deriving DecidableEq

/-- `checked_slot_view`; `none` is the report of a corrupt slot. -/
def checkedSlotView (r : OpRegistry Op Payload Data) (token : OpToken) : Option CheckedSlotView :=
  if r.capacity ≤ token.index then
    some (.missing token.index token.generation)
  else
    let slot := r.slots token.index
    let owner := r.locals token.index
    let snapshot : SlotSnapshot :=
      { index := token.index, generation := slot.generation, state := slot.state,
        hasOp := owner.op.isSome, hasPayload := owner.payload.isSome }
    if slot.generation ≠ token.generation then
      some (.stale snapshot)
    else
      match slot.state with
      | .inFlightWaiting =>
          if owner.op.isSome && owner.payload.isSome then
            some (.valid .inFlightWaiting token.index)
          else
            none
      | .inFlightOrphaned =>
          if owner.op.isSome && owner.payload.isSome then
            some (.valid .inFlightOrphaned token.index)
          else
            none
      | .idle => some (.empty snapshot)
      | .inFlightReady => some (.empty snapshot)
      | .finalizing => some (.empty snapshot)
      | .reserved =>
          if owner.op.isNone then some (.valid .reserved token.index) else none

/-! ## Submission -/

/-- The local slot of a token is changed in place. -/
def modifyLocal (r : OpRegistry Op Payload Data) (token : OpToken)
    (f : LocalSlot Op Payload Data → LocalSlot Op Payload Data) : OpRegistry Op Payload Data :=
  r.setLocal token.index (f (r.locals token.index))

/-- `is_current_active`. -/
def isCurrentActive (r : OpRegistry Op Payload Data) (token : OpToken) : Bool :=
  decide (token.index < r.capacity) &&
    decide ((r.slots token.index).generation = token.generation) &&
    decide ((r.slots token.index).state ≠ .idle)

/-- `slot_set_payload_raw`. -/
def slotSetPayload (r : OpRegistry Op Payload Data) (token : OpToken) (payload : Payload) :
    OpRegistry Op Payload Data :=
  if r.isCurrentActive token then
    r.modifyLocal token fun slot => { slot with payload := some payload }
  else
    r

/-- `submit_sqe_internal`: the operation is stored and its slot starts waiting.  When
handing it over fails, the guard puts the slot back and the operation is taken out
again. -/
def submitSqe (r : OpRegistry Op Payload Data) (token : OpToken) (op : Op) (accepted : Bool) :
    OpRegistry Op Payload Data :=
  match r.checkedSlotView token with
  | some (.valid .reserved _) =>
      if accepted then
        (r.modifyLocal token fun slot => { slot with op := some op }).setSlot token.index
          { r.slots token.index with state := .inFlightWaiting }
      else
        r.modifyLocal token fun slot => { slot with op := none }
  | _ => r

/-- A submission: the payload is stored, then the operation is submitted. -/
def submit (r : OpRegistry Op Payload Data) (token : OpToken) (op : Op) (payload : Payload)
    (accepted : Bool) : OpRegistry Op Payload Data :=
  (r.slotSetPayload token payload).submitSqe token op accepted

/-! ## Removal -/

/-- `remove_at_index`. -/
def removeAtIndex [Inhabited Data] (r : OpRegistry Op Payload Data) (idx : Nat) :
    OpRegistry Op Payload Data :=
  let r := r.setLocal idx { r.locals idx with
    active := false, op := none, payload := none, platformData := default }
  let r := r.setSlot idx (r.slots idx).free
  let r := r.pushFree idx
  { r with activeCount := r.activeCount - 1 }

/-- `OpRegistry::remove`, which is also what finalizes a completed operation. -/
def remove [Inhabited Data] (r : OpRegistry Op Payload Data) (token : OpToken) :
    OpRegistry Op Payload Data :=
  if r.capacity ≤ token.index then
    r
  else
    let owner := r.locals token.index
    if owner.active = false ∨ owner.generation ≠ token.generation then r
    else r.removeAtIndex token.index

/-- The removal of `token` does something: its local slot is active under its generation. -/
def holds (r : OpRegistry Op Payload Data) (token : OpToken) : Bool :=
  decide (token.index < r.capacity) && (r.locals token.index).active &&
    decide ((r.locals token.index).generation = token.generation)

/-- `recycle_at_index`: unlike a removal it also ends a completion nobody has consumed. -/
def recycleAtIndex [Inhabited Data] (r : OpRegistry Op Payload Data) (idx generation : Nat) :
    OpRegistry Op Payload Data :=
  let r := r.setLocal idx { r.locals idx with
    active := false, op := none, payload := none, platformData := default }
  let r := if (r.slots idx).state = .inFlightReady then
    { r with readyCompletionCount := r.readyCompletionCount - 1 } else r
  let r := r.setSlot idx { r.slots idx with generation := generation, state := .idle }
  let r := r.pushFree idx
  { r with activeCount := r.activeCount - 1 }

/-- `OpRegistry::recycle`. -/
def recycle [Inhabited Data] (r : OpRegistry Op Payload Data) (token : OpToken)
    (nextGeneration : Nat) : OpRegistry Op Payload Data :=
  if r.holds token then r.recycleAtIndex token.index nextGeneration else r

/-! ## The completion table -/

/-- `record_completion`, run to its end.  Only a waiting slot of the same generation
takes the record. -/
def recordCompletion (r : OpRegistry Op Payload Data) (record : CompletionRecord Payload) :
    OpRegistry Op Payload Data :=
  let slot := r.slots record.token.index
  if record.token.index < r.capacity ∧ slot.generation = record.token.generation ∧
      slot.state = .inFlightWaiting then
    { r.setSlot record.token.index
        { slot with state := .inFlightReady, completionData := some record } with
      readyCompletionCount := r.readyCompletionCount + 1 }
  else
    r

/-- `try_take_record` and `discard_ready_record`, run to their end: a ready slot of
the same generation becomes idle under the next generation. -/
def tryTakeRecord (r : OpRegistry Op Payload Data) (token : OpToken) :
    OpRegistry Op Payload Data × Option (CompletionRecord Payload) :=
  let slot := r.slots token.index
  if token.index < r.capacity ∧ slot.generation = token.generation ∧
      slot.state = .inFlightReady then
    ({ r.setSlot token.index
        { slot with state := .idle, generation := nextGeneration token.generation,
                    completionData := none } with
        readyCompletionCount := r.readyCompletionCount - 1 },
      slot.completionData)
  else
    (r, none)

/-- `mark_orphaned`: the consumer gives up its operation. -/
def markOrphaned (r : OpRegistry Op Payload Data) (token : OpToken) :
    OpRegistry Op Payload Data :=
  let slot := r.slots token.index
  if token.index < r.capacity ∧ slot.generation = token.generation ∧
      slot.state = .inFlightWaiting then
    r.setSlot token.index { slot with state := .inFlightOrphaned }
  else
    (r.tryTakeRecord token).1

/-! ## Kernel completions -/

/-- Where a `user_data` that comes back from the kernel is looked up: the envelope is
classified, and the token of a user completion is checked against its slot. -/
def routeKernel (r : OpRegistry Op Payload Data) (raw : Nat) : Option CheckedSlotView :=
  match CompletionToken.classify raw with
  | .user token => r.checkedSlotView token
  | .control _ _ => none
  | .unknownControl _ _ => none

/-- `accept_completion` for a kernel completion.  A waiting operation gives its
payload to the record and is finalized; an orphaned one is cleaned up and finalized;
anything else is an anomaly or an error and changes nothing. -/
def acceptKernel [Inhabited Data] (r : OpRegistry Op Payload Data) (raw : Nat) (res : Int)
    (flags : Nat) : OpRegistry Op Payload Data :=
  match CompletionToken.classify raw with
  | .user token =>
      match r.checkedSlotView token with
      | some (.valid .inFlightWaiting _) =>
          match (r.locals token.index).payload with
          | some payload =>
              let taken := r.modifyLocal token fun slot => { slot with op := none, payload := none }
              (taken.recordCompletion
                { token := token, res := res, flags := flags, payload := payload }).remove token
          | none => r
      | some (.valid .inFlightOrphaned _) => r.remove token
      | _ => r
  | .control _ _ => r
  | .unknownControl _ _ => r

end OpRegistry

end Veloq.Driver
