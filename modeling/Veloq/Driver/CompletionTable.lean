import Veloq.Driver.Completions
set_option autoImplicit false

/-!
# Driver: the completion table and stale tokens

`driver/completion/table.rs`: the six operations of `CompletionAccess`, as whole calls, with
everything a slot holds and what each operation returns.  `none` is a call that spins: it
waits for a slot that is `Finalizing`, and nobody else runs.

`woken` and `ran` list the wakers that were woken and the cleanup actions that have run.  The
diagnostics are left out.
-/

namespace Veloq.Driver.CompletionTable

variable {Payload Detail : Type}

/-- `slot::SlotState`. -/
inductive SlotState where
  | idle
  | reserved
  | inFlightWaiting
  | inFlightReady
  | inFlightOrphaned
  | finalizing
  | reservedValue
  deriving DecidableEq, Repr

/-- `RawCompletion`, which carries the token of the operation. -/
structure UserCompletionEvent where
  token : OpToken
  backend : Nat
  res : Int
  flags : Nat

/-- `CompletionPacket`; its input is a `UserCompletion`. -/
structure CompletionPacket (Payload Detail : Type) where
  event : UserCompletionEvent
  payload : Payload
  detail : Option Detail
  cleanup : CompletionCleanupGuard

inductive CompletionData (Payload Detail : Type) where
  | empty
  | user (event : UserCompletionEvent) (payload : Payload) (detail : Option Detail)
      (cleanup : CompletionCleanupGuard)

/-- `SlotData` without its link. -/
structure SlotData (Payload Detail : Type) where
  generation : Nat
  state : SlotState
  completionRes : Int
  completionFlags : Nat
  completionData : CompletionData Payload Detail
  completionWaker : Option Nat

structure SlotTable (Payload Detail : Type) where
  slots : List (SlotData Payload Detail)
  readyCompletionCount : Nat
  woken : List Nat
  ran : List Nat

inductive CompletionAnomalyKind where
  | unknownSlot (index generation : Nat)
  | stale (index expected actual : Nat) (state : SlotState)
  | nonActive (index generation : Nat) (state : SlotState)
  deriving DecidableEq, Repr

inductive AnomalyOutcome where
  | missing (kind : CompletionAnomalyKind)
  | stale (kind : CompletionAnomalyKind)
  | nonActive (kind : CompletionAnomalyKind)
  deriving DecidableEq, Repr

inductive CompletionMutationOutcome where
  | applied
  | rejected (outcome : AnomalyOutcome)
  deriving DecidableEq, Repr

inductive RecordCompletionOutcome where
  | recordedUser
  | orphanedDropped
  | rejected (outcome : AnomalyOutcome)
  deriving DecidableEq, Repr

inductive RecordCompletionResult (Payload Detail : Type) where
  | recorded (outcome : RecordCompletionOutcome)
  | rejected (outcome : RecordCompletionOutcome) (packet : CompletionPacket Payload Detail)

/-- `Result<PollRecordResult, Report>`; `corrupt` is the report of an empty record.  The token
of `unavailable` is the raw one of its attachment. -/
inductive PollRecordResult (Payload Detail : Type) where
  | ready (event : UserCompletionEvent) (payload : Payload) (detail : Option Detail)
      (cleanup : CompletionCleanupGuard)
  | unavailable (kind : CompletionAnomalyKind) (attach : Nat)
  | pending
  | corrupt (index generation : Nat)

/-- `mutation_missing`. -/
def mutationMissing (token : OpToken) : CompletionMutationOutcome :=
  .rejected (.missing (.unknownSlot token.index token.generation))

/-- `mutation_generation_mismatch`. -/
def mutationGenerationMismatch (idx expectedGeneration actualGeneration : Nat) (state : SlotState) :
    CompletionMutationOutcome :=
  if expectedGeneration < actualGeneration then
    .rejected (.stale (.stale idx expectedGeneration actualGeneration state))
  else
    .rejected (.nonActive (.nonActive idx expectedGeneration state))

/-- `mutation_non_active`. -/
def mutationNonActive (idx generation : Nat) (state : SlotState) : CompletionMutationOutcome :=
  .rejected (.nonActive (.nonActive idx generation state))

namespace SlotTable

variable (t : SlotTable Payload Detail)

def setSlot (idx : Nat) (slot : SlotData Payload Detail) : SlotTable Payload Detail :=
  { t with slots := t.slots.set idx slot }

/-- The record of a packet is written, and published as ready. -/
def recordReady (idx : Nat) (slot : SlotData Payload Detail)
    (packet : CompletionPacket Payload Detail) : SlotTable Payload Detail :=
  let recorded := { slot with
    generation := packet.event.token.generation
    state := .inFlightReady
    completionRes := packet.event.res
    completionFlags := packet.event.flags
    completionData := .user packet.event packet.payload packet.detail packet.cleanup
    completionWaker := none }
  { t.setSlot idx recorded with
    readyCompletionCount := t.readyCompletionCount + 1
    woken := t.woken ++ slot.completionWaker.toList }

/-- `record_completion`. -/
def recordCompletion (packet : CompletionPacket Payload Detail) :
    Option (SlotTable Payload Detail × RecordCompletionResult Payload Detail) :=
  let idx := packet.event.token.index
  let generation := packet.event.token.generation
  match t.slots[idx]? with
  | none => some (t, .rejected (.rejected (.missing (.unknownSlot idx generation))) packet)
  | some slot =>
      if generation < slot.generation then
        some (t, .rejected (.rejected (.stale (.stale idx generation slot.generation slot.state)))
          packet)
      else if slot.generation < generation then
        let outcome := if slot.state = .idle then
            AnomalyOutcome.nonActive (.nonActive idx generation slot.state)
          else
            .stale (.stale idx generation slot.generation slot.state)
        some (t, .rejected (.rejected outcome) packet)
      else
        match slot.state with
        | .inFlightWaiting => some (t.recordReady idx slot packet, .recorded .recordedUser)
        | .idle | .reserved | .inFlightReady | .reservedValue =>
            some (t, .rejected (.rejected (.nonActive (.nonActive idx generation slot.state)))
              packet)
        | .inFlightOrphaned => some (t, .rejected .orphanedDropped packet)
        | .finalizing => none

/-- The slot is made idle, and its record is taken out; the counter saturates. -/
def takeSlot (idx generation : Nat) (slot : SlotData Payload Detail) : SlotTable Payload Detail :=
  { t.setSlot idx { slot with
      state := .idle
      generation := nextGeneration generation
      completionData := .empty } with
    readyCompletionCount := t.readyCompletionCount - 1 }

/-- `try_take_record`. -/
def tryTakeRecord (token : OpToken) : SlotTable Payload Detail × PollRecordResult Payload Detail :=
  let idx := token.index
  let generation := token.generation
  let attach := CompletionToken.user token
  match t.slots[idx]? with
  | none => (t, .unavailable (.unknownSlot idx generation) attach)
  | some slot =>
      if generation < slot.generation then
        (t, .unavailable (.stale idx generation slot.generation slot.state) attach)
      else if slot.generation < generation then
        (t, .unavailable (.nonActive idx generation slot.state) attach)
      else
        match slot.state with
        | .inFlightWaiting | .finalizing => (t, .pending)
        | .idle | .reserved | .inFlightOrphaned | .reservedValue =>
            (t, .unavailable (.nonActive idx generation slot.state) attach)
        | .inFlightReady =>
            match slot.completionData with
            | .user event payload detail cleanup =>
                (t.takeSlot idx generation slot, .ready event payload detail cleanup)
            | .empty => (t.takeSlot idx generation slot, .corrupt idx generation)

/-- `register_waker`; nothing happens between its two looks at the slot. -/
def registerWaker (token : OpToken) (waker : Nat) :
    SlotTable Payload Detail × CompletionMutationOutcome :=
  let idx := token.index
  let generation := token.generation
  match t.slots[idx]? with
  | none => (t, mutationMissing token)
  | some slot =>
      if slot.generation ≠ generation then
        (t, mutationGenerationMismatch idx generation slot.generation slot.state)
      else
        let registered := t.setSlot idx { slot with completionWaker := some waker }
        match slot.state with
        | .inFlightReady => ({ registered with woken := t.woken ++ [waker] }, .applied)
        | .inFlightWaiting | .finalizing => (registered, .applied)
        | .idle | .reserved | .inFlightOrphaned | .reservedValue =>
            (registered, mutationNonActive idx generation slot.state)

/-- `mark_waiting`. -/
def markWaiting (token : OpToken) : Option (SlotTable Payload Detail × CompletionMutationOutcome) :=
  let idx := token.index
  let generation := token.generation
  match t.slots[idx]? with
  | none => some (t, mutationMissing token)
  | some slot =>
      if slot.generation ≠ generation then
        some (t, mutationGenerationMismatch idx generation slot.generation slot.state)
      else
        match slot.state with
        | .inFlightReady | .inFlightWaiting => some (t, .applied)
        | .finalizing => none
        | .idle | .reserved | .inFlightOrphaned | .reservedValue =>
            some (t, mutationNonActive idx generation slot.state)

/-- `run_discarded_record_cleanup` and the destructors. -/
def cleanup : CompletionData Payload Detail → SlotTable Payload Detail
  | .user _ _ _ guard => { t with ran := guard.drop t.ran }
  | .empty => t

/-- `discard_ready_record`. -/
def discardReadyRecord (token : OpToken) :
    Option (SlotTable Payload Detail × CompletionMutationOutcome) :=
  let idx := token.index
  let generation := token.generation
  match t.slots[idx]? with
  | none => some (t, mutationMissing token)
  | some slot =>
      if slot.state = .inFlightReady ∧ slot.generation = generation then
        some ((t.takeSlot idx generation slot).cleanup slot.completionData, .applied)
      else if slot.state = .finalizing then
        none
      else if slot.generation ≠ generation then
        some (t, mutationGenerationMismatch idx generation slot.generation slot.state)
      else
        some (t, mutationNonActive idx generation slot.state)

/-- `mark_orphaned`. -/
def markOrphaned (token : OpToken) :
    Option (SlotTable Payload Detail × CompletionMutationOutcome) :=
  let idx := token.index
  let generation := token.generation
  match t.slots[idx]? with
  | none => some (t, mutationMissing token)
  | some slot =>
      if slot.state = .inFlightWaiting then
        if slot.generation ≠ generation then
          some (t, mutationGenerationMismatch idx generation slot.generation slot.state)
        else
          some (t.setSlot idx { slot with state := .inFlightOrphaned }, .applied)
      else if slot.state = .inFlightReady ∧ slot.generation = generation then
        t.discardReadyRecord token
      else if slot.state = .finalizing then
        none
      else if slot.generation ≠ generation then
        some (t, mutationGenerationMismatch idx generation slot.generation slot.state)
      else
        some (t, mutationNonActive idx generation slot.state)

/-! ## Stale tokens -/

/-- The token names no slot, or one whose generation is another. -/
inductive Stale (t : SlotTable Payload Detail) (token : OpToken) : Prop where
  | outOfRange : t.slots[token.index]? = none → Stale t token
  | mismatch (slot : SlotData Payload Detail) : t.slots[token.index]? = some slot →
      slot.generation ≠ token.generation → Stale t token

variable {t} {token : OpToken} {slot : SlotData Payload Detail}

theorem mutationGenerationMismatch_rejects (idx expected actual : Nat) (state : SlotState) :
    ∃ anomaly, mutationGenerationMismatch idx expected actual state = .rejected anomaly := by
  unfold mutationGenerationMismatch
  split
  · exact ⟨_, rfl⟩
  · exact ⟨_, rfl⟩

theorem Stale.recordCompletion {packet : CompletionPacket Payload Detail}
    (h : t.Stale packet.event.token) :
    ∃ anomaly, t.recordCompletion packet = some (t, .rejected (.rejected anomaly) packet) := by
  unfold SlotTable.recordCompletion
  cases h with
  | outOfRange hslot => simp only [hslot]; exact ⟨_, rfl⟩
  | mismatch slot hslot hne =>
    simp only [hslot]
    split
    · exact ⟨_, rfl⟩
    · split
      · exact ⟨_, rfl⟩
      · omega

theorem Stale.tryTakeRecord (h : t.Stale token) :
    ∃ kind, t.tryTakeRecord token = (t, .unavailable kind (CompletionToken.user token)) := by
  unfold SlotTable.tryTakeRecord
  cases h with
  | outOfRange hslot => simp only [hslot]; exact ⟨_, rfl⟩
  | mismatch slot hslot hne =>
    simp only [hslot]
    split
    · exact ⟨_, rfl⟩
    · split
      · exact ⟨_, rfl⟩
      · omega

theorem Stale.registerWaker (h : t.Stale token) (waker : Nat) :
    ∃ anomaly, t.registerWaker token waker = (t, .rejected anomaly) := by
  unfold SlotTable.registerWaker
  cases h with
  | outOfRange hslot => simp only [hslot]; exact ⟨_, rfl⟩
  | mismatch slot hslot hne =>
    simp only [hslot, if_pos hne]
    obtain ⟨anomaly, heq⟩ := mutationGenerationMismatch_rejects token.index token.generation
      slot.generation slot.state
    exact ⟨anomaly, by rw [heq]⟩

theorem Stale.markWaiting (h : t.Stale token) :
    ∃ anomaly, t.markWaiting token = some (t, .rejected anomaly) := by
  unfold SlotTable.markWaiting
  cases h with
  | outOfRange hslot => simp only [hslot]; exact ⟨_, rfl⟩
  | mismatch slot hslot hne =>
    simp only [hslot, if_pos hne]
    obtain ⟨anomaly, heq⟩ := mutationGenerationMismatch_rejects token.index token.generation
      slot.generation slot.state
    exact ⟨anomaly, by rw [heq]⟩

/-- A slot that is being finalized is waited for before its generation is looked at. -/
def Settled (t : SlotTable Payload Detail) (token : OpToken) : Prop :=
  ∀ slot, t.slots[token.index]? = some slot → slot.state ≠ .finalizing

theorem Stale.discardReadyRecord (h : t.Stale token) (hsettled : t.Settled token) :
    ∃ anomaly, t.discardReadyRecord token = some (t, .rejected anomaly) := by
  unfold SlotTable.discardReadyRecord
  cases h with
  | outOfRange hslot => simp only [hslot]; exact ⟨_, rfl⟩
  | mismatch slot hslot hne =>
    simp only [hslot, if_pos hne]
    rw [if_neg fun hboth => hne hboth.2, if_neg (hsettled slot hslot)]
    obtain ⟨anomaly, heq⟩ := mutationGenerationMismatch_rejects token.index token.generation
      slot.generation slot.state
    exact ⟨anomaly, by rw [heq]⟩

theorem Stale.markOrphaned (h : t.Stale token) (hsettled : t.Settled token) :
    ∃ anomaly, t.markOrphaned token = some (t, .rejected anomaly) := by
  unfold SlotTable.markOrphaned
  cases h with
  | outOfRange hslot => simp only [hslot]; exact ⟨_, rfl⟩
  | mismatch slot hslot hne =>
    simp only [hslot, if_pos hne]
    obtain ⟨anomaly, heq⟩ := mutationGenerationMismatch_rejects token.index token.generation
      slot.generation slot.state
    rw [if_neg (fun hboth : slot.state = .inFlightReady ∧ _ => hne hboth.2),
      if_neg (hsettled slot hslot), ite_self, heq]
    exact ⟨anomaly, rfl⟩

/-- A stale token changes nothing and is turned down by every operation; a packet that carries
one is handed back. -/
theorem stale_token_changes_nothing (t : SlotTable Payload Detail) (token : OpToken)
    (hstale : t.Stale token) (hsettled : t.Settled token) :
    (∀ packet : CompletionPacket Payload Detail, packet.event.token = token →
      ∃ anomaly, t.recordCompletion packet = some (t, .rejected (.rejected anomaly) packet)) ∧
    (∃ kind, t.tryTakeRecord token = (t, .unavailable kind (CompletionToken.user token))) ∧
    (∀ waker, ∃ anomaly, t.registerWaker token waker = (t, .rejected anomaly)) ∧
    (∃ anomaly, t.markWaiting token = some (t, .rejected anomaly)) ∧
    (∃ anomaly, t.discardReadyRecord token = some (t, .rejected anomaly)) ∧
    ∃ anomaly, t.markOrphaned token = some (t, .rejected anomaly) := by
  refine ⟨?_, hstale.tryTakeRecord, hstale.registerWaker, hstale.markWaiting,
    hstale.discardReadyRecord hsettled, hstale.markOrphaned hsettled⟩
  rintro packet rfl
  exact hstale.recordCompletion

/-- A slot of generation 2 whose completion is ready. -/
def readySlot : SlotData Unit Unit :=
  { generation := 2
    state := .inFlightReady
    completionRes := 0
    completionFlags := 0
    completionData := .empty
    completionWaker := some 5 }

def oldToken : OpToken := ⟨0, 1, indexLimit_pos, first_generation_lt⟩

theorem stale_token_changes_nothing_ready :
    ∃ anomaly, (⟨[readySlot], 1, [], []⟩ : SlotTable Unit Unit).markOrphaned oldToken =
      some (⟨[readySlot], 1, [], []⟩, .rejected anomaly) := by
  refine (stale_token_changes_nothing ⟨[readySlot], 1, [], []⟩ oldToken
    (.mismatch readySlot rfl (by decide)) fun slot hslot => ?_).2.2.2.2.2
  cases hslot
  decide

end SlotTable

end Veloq.Driver.CompletionTable
