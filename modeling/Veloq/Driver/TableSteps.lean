import Veloq.Foundation.Machine
import Veloq.Foundation.Run
import Veloq.Driver.Registry
set_option autoImplicit false

/-!
# Driver: the completion table, one atomic access at a time

The driver thread (`OpRegistry::alloc`, `remove`, `record_completion`) and any
number of consumer calls (`try_take_record`, `discard_ready_record`) run
interleaved, under sequential consistency.  A step is one access to a shared word or
data cell.  A compare-exchange loop that retries until it succeeds (`set_state`,
`free`, `push_free`, `clear_ready_completion`, `mark_orphaned`) takes effect at the
exchange that succeeds and is one step; the loads before it change nothing.

Registers of a call in progress are part of its program counter.  `completion_res`,
`completion_flags` and the wakers are written and not read by these calls, and are
left out.  Slots behind the capacity stay idle and refuse every call, as an index out
of range does.
-/

namespace Veloq.Driver.TableSteps

open Veloq.Foundation

variable {Payload : Type}

/-- `PackedCoreState`. -/
structure PackedCoreState where
  generation : Nat
  state : SlotState
  deriving DecidableEq, Repr

/-- Where the driver thread is. -/
inductive DriverPc (Payload : Type) where
  | idle
  /-- In the loop of `alloc`, with the slots set aside so far. -/
  | scanning (deferred : List Nat)
  /-- `alloc` found the slot idle and is about to load its generation. -/
  | found (idx : Nat) (deferred : List Nat)
  /-- `alloc` is about to `reset` the slot to the new generation. -/
  | resetting (idx newGen : Nat) (deferred : List Nat)
  /-- `alloc` is about to set the state `Reserved`. -/
  | reserving (idx newGen : Nat) (deferred : List Nat)
  /-- `record_completion` is about to load the packed word. -/
  | recording (record : CompletionRecord Payload)
  /-- `record_completion` is about to exchange the loaded word for `Finalizing`. -/
  | recordCas (record : CompletionRecord Payload) (current : PackedCoreState)
  /-- `record_completion` is about to write the data cell. -/
  | recordStore (record : CompletionRecord Payload)
  /-- `record_completion` is about to count the ready completion. -/
  | recordNote (record : CompletionRecord Payload)
  /-- `record_completion` is about to publish `InFlightReady`. -/
  | recordReady (record : CompletionRecord Payload)
  /-- `remove` is about to `free` the slot. -/
  | freeing (idx : Nat)
  /-- `remove` is about to push the slot onto the free list. -/
  | pushing (idx : Nat)

/-- Where a consumer call is.  `discard` tells `discard_ready_record` from
`try_take_record`. -/
inductive ConsumerPc where
  | idle
  | loading (token : OpToken) (discard : Bool)
  | exchanging (token : OpToken) (discard : Bool) (current : PackedCoreState)
  | clearing (token : OpToken) (discard : Bool)
  | taking (token : OpToken) (discard : Bool)

/-- The shared table, the driver's own fields and all program counters.  `returned`
lists what the calls of `try_take_record` found in the data cell they took. -/
structure Table (Payload : Type) where
  core : Nat → PackedCoreState
  data : Nat → Option (CompletionRecord Payload)
  readyCompletionCount : Nat
  remoteFree : List Nat
  localFree : List Nat
  localActive : Nat → Bool
  localGeneration : Nat → Nat
  driver : DriverPc Payload
  consumers : Nat → ConsumerPc
  returned : List (OpToken × Option (CompletionRecord Payload))

/-- `OpRegistry::new(capacity)`. -/
def Table.new (capacity : Nat) : Table Payload :=
  { core := fun _ => { generation := 0, state := .idle }
    data := fun _ => none
    readyCompletionCount := 0
    remoteFree := List.range capacity
    localFree := []
    localActive := fun _ => false
    localGeneration := fun _ => 0
    driver := .idle
    consumers := fun _ => .idle
    returned := [] }

namespace Table

def setCore (s : Table Payload) (idx : Nat) (word : PackedCoreState) : Table Payload :=
  { s with core := Function.update s.core idx word }

def setConsumer (s : Table Payload) (i : Nat) (pc : ConsumerPc) : Table Payload :=
  { s with consumers := Function.update s.consumers i pc }

/-- `SlotData::free` on the packed word. -/
def freed (word : PackedCoreState) : PackedCoreState :=
  if word.state = .inFlightReady then word else { word with state := .idle }

/-- One step of the driver thread inside a call. -/
def driverStep (s : Table Payload) : Option (Table Payload) :=
  match s.driver with
  | .idle => none
  | .scanning deferred =>
      match s.localFree with
      | [] => some { s with remoteFree := deferred.reverse ++ s.remoteFree, driver := .idle }
      | idx :: rest =>
          if (s.core idx).state = .idle then
            some { s with localFree := rest, driver := .found idx deferred }
          else
            some { s with localFree := rest, driver := .scanning (deferred ++ [idx]) }
  | .found idx deferred =>
      some { s with driver := .resetting idx (nextGeneration (s.core idx).generation) deferred }
  | .resetting idx newGen deferred =>
      some { s.setCore idx { generation := newGen, state := .idle } with
        driver := .reserving idx newGen deferred }
  | .reserving idx newGen deferred =>
      some { s.setCore idx { s.core idx with state := .reserved } with
        localActive := Function.update s.localActive idx true
        localGeneration := Function.update s.localGeneration idx newGen
        remoteFree := deferred.reverse ++ s.remoteFree
        driver := .idle }
  | .recording record =>
      let current := s.core record.token.index
      if current.generation ≠ record.token.generation then
        some { s with driver := .idle }
      else if current.state = .inFlightWaiting then
        some { s with driver := .recordCas record current }
      else if current.state = .finalizing then
        some s
      else
        some { s with driver := .idle }
  | .recordCas record current =>
      if s.core record.token.index = current then
        some { s.setCore record.token.index
            { generation := record.token.generation, state := .finalizing } with
          driver := .recordStore record }
      else
        some { s with driver := .recording record }
  | .recordStore record =>
      some { s with
        data := Function.update s.data record.token.index (some record)
        driver := .recordNote record }
  | .recordNote record =>
      some { s with
        readyCompletionCount := s.readyCompletionCount + 1
        driver := .recordReady record }
  | .recordReady record =>
      some { s.setCore record.token.index
          { generation := record.token.generation, state := .inFlightReady } with
        driver := .idle }
  | .freeing idx =>
      some { s.setCore idx (freed (s.core idx)) with driver := .pushing idx }
  | .pushing idx =>
      some { s with remoteFree := idx :: s.remoteFree, driver := .idle }

/-- One step of consumer `i` inside a call. -/
def consumerStep (s : Table Payload) (i : Nat) : Option (Table Payload) :=
  match s.consumers i with
  | .idle => none
  | .loading token discard =>
      let current := s.core token.index
      if current.generation = token.generation ∧ current.state = .inFlightReady then
        some (s.setConsumer i (.exchanging token discard current))
      else if discard = true ∧ current.state = .finalizing then
        some s
      else
        some (s.setConsumer i .idle)
  | .exchanging token discard current =>
      if s.core token.index = current then
        some ((s.setCore token.index
          { generation := nextGeneration token.generation, state := .idle }).setConsumer i
            (.clearing token discard))
      else
        some (s.setConsumer i (if discard then .loading token discard else .idle))
  | .clearing token discard =>
      some { s.setConsumer i (.taking token discard) with
        readyCompletionCount := s.readyCompletionCount - 1 }
  | .taking token discard =>
      some { s.setConsumer i .idle with
        data := Function.update s.data token.index none
        returned := if discard then s.returned else s.returned ++ [(token, s.data token.index)] }

end Table

/-- What can happen next: a call begins, or a call in progress takes a step. -/
inductive Event (Payload : Type) where
  | alloc
  /-- The reserved slot `idx` is submitted: `start_submission_with`. -/
  | submit (idx : Nat)
  | record (record : CompletionRecord Payload)
  | remove (token : OpToken)
  | driver
  | orphan (token : OpToken)
  | take (i : Nat) (token : OpToken) (discard : Bool)
  | consumer (i : Nat)

/-- The state after an event, if the event can happen. -/
def Table.next (s : Table Payload) : Event Payload → Option (Table Payload)
  | .alloc =>
      match s.driver with
      | .idle =>
          match s.localFree with
          | [] => some { s with localFree := s.remoteFree, remoteFree := [], driver := .scanning [] }
          | _ :: _ => some { s with driver := .scanning [] }
      | _ => none
  | .submit idx =>
      match s.driver with
      | .idle =>
          if (s.core idx).state = .reserved then
            some (s.setCore idx { s.core idx with state := .inFlightWaiting })
          else
            none
      | _ => none
  | .record record =>
      match s.driver with
      | .idle => some { s with driver := .recording record }
      | _ => none
  | .remove token =>
      match s.driver with
      | .idle =>
          if s.localActive token.index = true ∧
              s.localGeneration token.index = token.generation then
            some { s with
              localActive := Function.update s.localActive token.index false
              driver := .freeing token.index }
          else
            none
      | _ => none
  | .driver => s.driverStep
  | .orphan token =>
      if s.core token.index = { generation := token.generation, state := .inFlightWaiting } then
        some (s.setCore token.index { generation := token.generation, state := .inFlightOrphaned })
      else
        none
  | .take i token discard =>
      match s.consumers i with
      | .idle => some (s.setConsumer i (.loading token discard))
      | _ => none
  | .consumer i => s.consumerStep i

/-- The step relation of the table. -/
def Step (s : Table Payload) (e : Event Payload) (s' : Table Payload) : Prop := s.next e = some s'

/-- The records go to the operations they belong to: what a call took is the record
stored for its own token, no token is served twice, and a slot that is ready holds
its own record. -/
structure Faithful (s : Table Payload) : Prop where
  own : ∀ p ∈ s.returned, ∃ record, p.2 = some record ∧ record.token = p.1
  once : (s.returned.map Prod.fst).Nodup
  ready : ∀ idx, (s.core idx).state = .inFlightReady → ∃ record, s.data idx = some record ∧
    record.token.index = idx ∧ record.token.generation = (s.core idx).generation

/-- The token whose data cell a consumer has won but not taken yet. -/
def ConsumerPc.holds : ConsumerPc → Option OpToken
  | .clearing token _ => some token
  | .taking token _ => some token
  | _ => none

/-- No consumer stands between winning the record of slot `idx` and taking it. -/
def NotHeld (s : Table Payload) (idx : Nat) : Prop :=
  ∀ i token, (s.consumers i).holds = some token → token.index ≠ idx

/-- The steps that keep the records apart: the data cell of a slot is written only
while no consumer is about to take from it, and no generation wraps around. -/
def Separated (s : Table Payload) : Event Payload → Prop
  | .driver =>
      match s.driver with
      | .recordStore record => NotHeld s record.token.index
      | .found idx _ => (s.core idx).generation + 1 < 2 ^ 32
      | _ => True
  | .consumer i =>
      match s.consumers i with
      | .exchanging token _ _ => token.generation + 1 < 2 ^ 32
      | _ => True
  | _ => True

end Veloq.Driver.TableSteps
