import Veloq.Foundation.Run
import Veloq.Driver.CompletionLedger
import Veloq.Driver.Partition
import Veloq.Driver.Routing
set_option autoImplicit false

/-!
# Driver: every completion packet has one fate

The accounts of the packets over whole runs.  A cell is filled exactly while its slot is ready,
and as long as a slot waits or is ready the future of its last submission is pending.
-/

namespace Veloq.Driver

open Veloq.Foundation

variable {Op Payload Data Detail : Type}

namespace OpRegistry

variable {r r' r'' : OpRegistry Op Payload Data} {idx : Nat}

/-! ## Calls that no completion takes part in -/

/-- Cells are untouched, ready slots stay ready, and nothing begins to wait. -/
structure Quiet (r r' : OpRegistry Op Payload Data) : Prop where
  capacity : r'.capacity = r.capacity
  slots : ∀ i, (r'.slots i).completionData = (r.slots i).completionData ∧
    (((r'.slots i).state = (r.slots i).state ∧
        (r'.slots i).generation = (r.slots i).generation) ∨
      ((r.slots i).state ≠ .inFlightReady ∧ (r'.slots i).state ≠ .inFlightReady ∧
        (r'.slots i).state ≠ .inFlightWaiting))

theorem Quiet.refl (r : OpRegistry Op Payload Data) : r.Quiet r :=
  ⟨rfl, fun _ => ⟨rfl, .inl ⟨rfl, rfl⟩⟩⟩

theorem Quiet.trans (h : r.Quiet r') (h' : r'.Quiet r'') : r.Quiet r'' := by
  refine ⟨h'.capacity.trans h.capacity, fun i => ?_⟩
  obtain ⟨hdata, hcore⟩ := h.slots i
  obtain ⟨hdata', hcore'⟩ := h'.slots i
  refine ⟨hdata'.trans hdata, ?_⟩
  rcases hcore' with ⟨hstate', hgen'⟩ | ⟨hready', hready'', hwaiting''⟩
  · rw [hstate', hgen']
    exact hcore
  · rcases hcore with ⟨hstate, -⟩ | ⟨hready, -, -⟩
    · rw [hstate] at hready'
      exact .inr ⟨hready', hready'', hwaiting''⟩
    · exact .inr ⟨hready, hready'', hwaiting''⟩

/-- The slots are the same. -/
theorem Quiet.of_slots (hcapacity : r'.capacity = r.capacity) (h : r'.slots = r.slots) :
    r.Quiet r' := by
  refine ⟨hcapacity, fun i => ?_⟩
  rw [h]
  exact ⟨rfl, .inl ⟨rfl, rfl⟩⟩

theorem Quiet.setSlot {slot : SlotData Payload}
    (hdata : slot.completionData = (r.slots idx).completionData)
    (hcore : (slot.state = (r.slots idx).state ∧ slot.generation = (r.slots idx).generation) ∨
      ((r.slots idx).state ≠ .inFlightReady ∧ slot.state ≠ .inFlightReady ∧
        slot.state ≠ .inFlightWaiting)) : r.Quiet (r.setSlot idx slot) := by
  refine ⟨rfl, fun i => ?_⟩
  by_cases hi : i = idx
  · have hself : (r.setSlot idx slot).slots i = slot := by
      rw [hi]
      exact Function.update_self ..
    rw [hself, hi]
    exact ⟨hdata, hcore⟩
  · have hother : (r.setSlot idx slot).slots i = r.slots i := Function.update_of_ne hi ..
    rw [hother]
    exact ⟨rfl, .inl ⟨rfl, rfl⟩⟩

theorem quiet_pushFree (r : OpRegistry Op Payload Data) (idx : Nat) : r.Quiet (r.pushFree idx) := by
  have hslot : r.Quiet (r.setSlot idx { r.slots idx with nextFree := r.remoteFreeHead }) :=
    .setSlot rfl (.inl ⟨rfl, rfl⟩)
  exact hslot.trans (.of_slots rfl rfl)

theorem quiet_foldl_pushFree (r : OpRegistry Op Payload Data) (idxs : List Nat) :
    r.Quiet (idxs.foldl OpRegistry.pushFree r) := by
  induction idxs generalizing r with
  | nil => exact .refl r
  | cons idx idxs ih => exact (quiet_pushFree r idx).trans (ih _)

theorem quiet_reserve (hidle : (r.slots idx).state = .idle) (data : Data) :
    r.Quiet (r.reserve idx data).1 := by
  have hslot : r.Quiet (r.setSlot idx { r.slots idx with
      generation := nextGeneration (r.slots idx).generation, state := .reserved }) := by
    refine .setSlot rfl (.inr ⟨?_, SlotState.noConfusion, SlotState.noConfusion⟩)
    rw [hidle]
    exact SlotState.noConfusion
  exact hslot.trans (.of_slots rfl rfl)

theorem quiet_allocLoop (fuel : Nat) {deferred : List Nat} {data : Data}
    {result : Except Data OpHandle}
    (hrun : OpRegistry.allocLoop fuel r deferred data = some (r', result)) : r.Quiet r' := by
  induction fuel generalizing r deferred with
  | zero => cases hrun
  | succ fuel ih =>
    rw [OpRegistry.allocLoop] at hrun
    cases hhead : r.localFreeHead with
    | none =>
      simp only [hhead] at hrun
      cases hrun
      exact quiet_foldl_pushFree r deferred
    | some idx =>
      simp only [hhead] at hrun
      have hpopped : r.Quiet { r with localFreeHead := (r.slots idx).nextFree } := .of_slots rfl rfl
      split at hrun
      · cases hrun
      · split at hrun
        · exact hpopped.trans (ih hrun)
        · rename_i hidle
          cases hrun
          have hreserve := quiet_reserve (r := { r with localFreeHead := (r.slots idx).nextFree })
            (not_not.mp hidle) data
          exact hpopped.trans (hreserve.trans (quiet_foldl_pushFree _ deferred))

theorem quiet_alloc {data : Data} {result : Except Data OpHandle}
    (hrun : r.alloc data = some (r', result)) : r.Quiet r' := by
  unfold OpRegistry.alloc at hrun
  refine Quiet.trans ?_ (quiet_allocLoop _ hrun)
  cases r.localFreeHead with
  | none => exact .of_slots rfl rfl
  | some idx => exact .refl r

theorem quiet_remove [Inhabited Data] (r : OpRegistry Op Payload Data) (token : OpToken) :
    r.Quiet (r.remove token) := by
  rw [remove_eq]
  split
  · set idx := token.index
    set released := r.setLocal idx { r.locals idx with
      active := false, op := none, payload := none, platformData := default }
    have hlocal : r.Quiet released := .of_slots rfl rfl
    have hslot : released.Quiet (released.setSlot idx (r.slots idx).free) := by
      unfold SlotData.free
      split
      · exact .setSlot rfl (.inl ⟨rfl, rfl⟩)
      · rename_i hready
        exact .setSlot rfl (.inr ⟨hready, SlotState.noConfusion, SlotState.noConfusion⟩)
    exact hlocal.trans (hslot.trans ((quiet_pushFree _ idx).trans (.of_slots rfl rfl)))
  · exact .refl r

theorem quiet_slotSetPayload (r : OpRegistry Op Payload Data) (token : OpToken)
    (payload : Payload) : r.Quiet (r.slotSetPayload token payload) := by
  unfold OpRegistry.slotSetPayload
  split
  · exact .of_slots rfl rfl
  · exact .refl r

/-- What `try_take_record` reports as ready. -/
theorem pollOutcome_eq_ready {token : OpToken} :
    r.pollOutcome token = .ready ↔ token.index < r.capacity ∧
      (r.slots token.index).generation = token.generation ∧
      (r.slots token.index).state = .inFlightReady := by
  unfold OpRegistry.pollOutcome
  by_cases hlt : r.capacity ≤ token.index
  · rw [if_pos hlt]
    exact ⟨PollRecordResult.noConfusion, fun h => absurd h.1 (Nat.not_lt.mpr hlt)⟩
  · rw [if_neg hlt]
    dsimp only
    by_cases hgen : (r.slots token.index).generation = token.generation
    · rw [if_neg (not_not.mpr hgen)]
      cases hstate : (r.slots token.index).state with
      | inFlightReady => exact ⟨fun _ => ⟨Nat.lt_of_not_le hlt, hgen, rfl⟩, fun _ => rfl⟩
      | idle | reserved | inFlightWaiting | inFlightOrphaned | finalizing =>
        exact ⟨PollRecordResult.noConfusion, fun h => SlotState.noConfusion h.2.2⟩
    · rw [if_pos hgen]
      exact ⟨PollRecordResult.noConfusion, fun h => absurd h.2.1 hgen⟩

/-- What `record_completion` accepts. -/
theorem recordOutcome_eq_recordedUser {token : OpToken} :
    r.recordOutcome token = .recordedUser ↔ token.index < r.capacity ∧
      (r.slots token.index).generation = token.generation ∧
      (r.slots token.index).state = .inFlightWaiting := by
  unfold OpRegistry.recordOutcome
  by_cases hlt : r.capacity ≤ token.index
  · rw [if_pos hlt]
    exact ⟨RecordCompletionOutcome.noConfusion, fun h => absurd h.1 (Nat.not_lt.mpr hlt)⟩
  · rw [if_neg hlt]
    dsimp only
    rcases Nat.lt_trichotomy token.generation (r.slots token.index).generation with h | h | h
    · rw [if_pos h]
      exact ⟨RecordCompletionOutcome.noConfusion, fun hall => absurd hall.2.1 (Nat.ne_of_gt h)⟩
    · rw [if_neg (by omega), if_neg (by omega)]
      cases hstate : (r.slots token.index).state with
      | inFlightWaiting => exact ⟨fun _ => ⟨Nat.lt_of_not_le hlt, h.symm, rfl⟩, fun _ => rfl⟩
      | idle | reserved | inFlightReady | inFlightOrphaned | finalizing =>
        exact ⟨RecordCompletionOutcome.noConfusion, fun hall => SlotState.noConfusion hall.2.2⟩
    · rw [if_neg (by omega), if_pos h]
      refine ⟨fun heq => ?_, fun hall => absurd hall.2.1 (Nat.ne_of_lt h)⟩
      split at heq
      · cases heq
      · cases heq

/-- A waiting slot is orphaned; a ready one is another matter. -/
theorem quiet_markOrphaned {token : OpToken} (hready : r.pollOutcome token ≠ .ready) :
    r.Quiet (r.markOrphaned token) := by
  unfold OpRegistry.markOrphaned
  dsimp only
  split
  · rename_i hwaiting
    refine .setSlot rfl (.inr ⟨?_, SlotState.noConfusion, SlotState.noConfusion⟩)
    rw [hwaiting.2.2]
    exact SlotState.noConfusion
  · unfold OpRegistry.tryTakeRecord
    dsimp only
    rw [if_neg fun h => hready (pollOutcome_eq_ready.mpr h)]
    exact .refl r

end OpRegistry

namespace Completions

variable {s s' : Completions Op Payload Data Detail} {hand : Option (Attached Detail)}
  {token : OpToken} {idx f : Nat}

/-! ## The invariant -/

/-- An operation whose future may still get its record. -/
def Open (r : OpRegistry Op Payload Data) (idx : Nat) : Prop :=
  (r.slots idx).state = .inFlightWaiting ∨ (r.slots idx).state = .inFlightReady

/-- The cell of a ready slot is filled with its own record. -/
def Filled (s : Completions Op Payload Data Detail) (idx : Nat) : Prop :=
  ∃ record rest, (s.registry.slots idx).completionData = some record ∧
    s.attached idx = some rest ∧ record.token.index = idx ∧
    record.token.generation = (s.registry.slots idx).generation

/-- The future of the last submission is pending. -/
def Awaited (s : Completions Op Payload Data Detail) (idx : Nat) : Prop :=
  idx < s.registry.capacity ∧ ∃ token detached,
    s.futures (s.owner idx) = .pending token detached ∧ token.index = idx ∧
    token.generation = (s.registry.slots idx).generation

/-- The invariant, with a packet in the hands of the call that is running. -/
structure Inv (hand : Option (Attached Detail)) (s : Completions Op Payload Data Detail) :
    Prop where
  accounts : Accounts (places s.attached hand) s.ledger
  filled : ∀ idx, (s.registry.slots idx).state = .inFlightReady → s.Filled idx
  empty : ∀ idx, (s.registry.slots idx).state ≠ .inFlightReady → s.attached idx = none
  awaited : ∀ idx, Open s.registry idx → s.Awaited idx

theorem not_open_new [Inhabited Data] (capacity idx : Nat) :
    ¬ Open (OpRegistry.new capacity : OpRegistry Op Payload Data) idx := by
  have hquiet := OpRegistry.quiet_foldl_pushFree
    (⟨capacity, fun _ => SlotData.new, none, 0, fun _ => ⟨none, none, default, false, 0⟩, none, 0⟩ :
      OpRegistry Op Payload Data) (List.range capacity).reverse
  rcases (hquiet.slots idx).2 with ⟨hidle, -⟩ | ⟨-, hready, hwaiting⟩
  · exact fun hopen => hopen.elim (fun h => SlotState.noConfusion (hidle.symm.trans h))
      fun h => SlotState.noConfusion (hidle.symm.trans h)
  · exact fun hopen => hopen.elim hwaiting hready

theorem Inv.new [Inhabited Data] (capacity : Nat) :
    Inv none (new capacity : Completions Op Payload Data Detail) :=
  ⟨Accounts.new, fun idx hready => absurd (.inr hready) (not_open_new capacity idx),
    fun _ _ => rfl, fun idx hopen => absurd hopen (not_open_new capacity idx)⟩

/-- A call that no completion takes part in. -/
theorem Inv.quiet (h : Inv hand s) {r : OpRegistry Op Payload Data} (hquiet : s.registry.Quiet r) :
    Inv hand { s with registry := r } := by
  refine ⟨h.accounts, fun idx hready => ?_, fun idx hnot => h.empty idx fun hready => ?_,
    fun idx hopen => ?_⟩
  · obtain ⟨hdata, hcore⟩ := hquiet.slots idx
    rcases hcore with ⟨hstate, hgen⟩ | ⟨-, hnot, -⟩
    · obtain ⟨record, rest, hrecord, hrest, hindex, hgeneration⟩ :=
        h.filled idx (hstate.symm.trans hready)
      exact ⟨record, rest, hdata.trans hrecord, hrest, hindex, hgeneration.trans hgen.symm⟩
    · exact absurd hready hnot
  · rcases (hquiet.slots idx).2 with ⟨hstate, -⟩ | ⟨hnot', -, -⟩
    · exact hnot (hstate.trans hready)
    · exact hnot' hready
  · rcases (hquiet.slots idx).2 with ⟨hstate, hgen⟩ | ⟨-, hready, hwaiting⟩
    · have hold : Open s.registry idx := by
        unfold Open at hopen ⊢
        rw [← hstate]
        exact hopen
      obtain ⟨hlt, token, detached, hfuture, hindex, hgeneration⟩ := h.awaited idx hold
      refine ⟨?_, token, detached, hfuture, hindex, hgeneration.trans hgen.symm⟩
      show idx < r.capacity
      rw [hquiet.capacity]
      exact hlt
    · exact (hopen.elim hwaiting hready).elim

/-- The operation of `token` is over as far as its future goes. -/
def Settled (s : Completions Op Payload Data Detail) (token : OpToken) : Prop :=
  (s.registry.slots token.index).generation = token.generation → ¬ Open s.registry token.index

/-- A future is over when its operation is. -/
theorem Inv.setFuture (h : Inv hand s) {future : OpFuture}
    (hsettled : ∀ token detached, s.futures f = .pending token detached → s.Settled token) :
    Inv hand (s.setFuture f future) := by
  refine ⟨h.accounts, h.filled, h.empty, fun idx hopen => ?_⟩
  obtain ⟨hlt, token, detached, hfuture, hindex, hgeneration⟩ := h.awaited idx hopen
  refine ⟨hlt, token, detached, ?_, hindex, hgeneration⟩
  show Function.update s.futures f future (s.owner idx) = _
  rw [Function.update_of_ne]
  · exact hfuture
  · rintro hf
    rw [hf] at hfuture
    have hnot := hsettled token detached hfuture
    unfold Settled at hnot
    rw [hindex] at hnot
    exact hnot hgeneration.symm hopen

/-! ## A packet in the hands of the call -/

/-- A new packet is handed over. -/
theorem Inv.give (h : Inv none s) (armed : Bool) (detail : Option Detail) :
    Inv (some ⟨s.made, detail, s.guard armed⟩)
      { s.counted armed with handed := s.handed ++ [s.made] } :=
  ⟨h.accounts.hand armed detail, h.filled, h.empty, h.awaited⟩

/-- A guard without a packet is made and dropped. -/
theorem Inv.clean (h : Inv none s) (armed : Bool) :
    Inv none { s.counted armed with ran := (s.guard armed).drop s.ran } :=
  ⟨h.accounts.clean armed, h.filled, h.empty, h.awaited⟩

/-- The packet is dropped, and its cleanup runs. -/
theorem Inv.discard {rest : Attached Detail} (h : Inv (some rest) s) :
    Inv none { s with discarded := s.discarded ++ [rest.id], ran := rest.cleanup.drop s.ran } :=
  ⟨h.accounts.discard, h.filled, h.empty, h.awaited⟩

/-- The packet is delivered to the consumer of its own token. -/
theorem Inv.deliver {rest : Attached Detail} (h : Inv (some rest) s)
    {delivery : Delivery Payload Detail} (hid : delivery.id = rest.id)
    (hown : delivery.token = delivery.consumer) :
    Inv none { s with delivered := s.delivered ++ [delivery] } :=
  ⟨h.accounts.deliver hid hown, h.filled, h.empty, h.awaited⟩

/-- A slot changes along with its cell, and the packet in hand with the one in the cell. -/
theorem Inv.exchange {rest : Option (Attached Detail)} (h : Inv rest s) (idx : Nat)
    {slot : SlotData Payload} {r : OpRegistry Op Payload Data}
    (hcapacity : r.capacity = s.registry.capacity)
    (hslots : r.slots = Function.update s.registry.slots idx slot)
    (hfilled : slot.state = .inFlightReady → ∃ record packet, slot.completionData = some record ∧
      rest = some packet ∧ record.token.index = idx ∧ record.token.generation = slot.generation)
    (hempty : slot.state ≠ .inFlightReady → rest = none)
    (hopen : slot.state = .inFlightWaiting ∨ slot.state = .inFlightReady →
      Open s.registry idx ∧ slot.generation = (s.registry.slots idx).generation) :
    Inv (s.attached idx)
      { s with registry := r, attached := Function.update s.attached idx rest } := by
  have hself : r.slots idx = slot := by rw [hslots, Function.update_self]
  have hother : ∀ i, i ≠ idx → r.slots i = s.registry.slots i := by
    intro i hi
    rw [hslots, Function.update_of_ne hi]
  refine ⟨h.accounts.swap idx, fun i hready => ?_, fun i hnot => ?_, fun i hi => ?_⟩
  · by_cases hidx : i = idx
    · subst hidx
      have hready' : slot.state = .inFlightReady := by rw [← hself]; exact hready
      obtain ⟨record, packet, hdata, hrest, hindex, hgeneration⟩ := hfilled hready'
      refine ⟨record, packet, ?_, (Function.update_self ..).trans hrest, hindex, ?_⟩
      · show (r.slots i).completionData = _
        rw [hself]
        exact hdata
      · show _ = (r.slots i).generation
        rw [hself]
        exact hgeneration
    · have hready' : (s.registry.slots i).state = .inFlightReady := by
        rw [← hother i hidx]
        exact hready
      obtain ⟨record, packet, hdata, hrest, hindex, hgeneration⟩ := h.filled i hready'
      refine ⟨record, packet, ?_, (Function.update_of_ne hidx ..).trans hrest, hindex, ?_⟩
      · show (r.slots i).completionData = _
        rw [hother i hidx]
        exact hdata
      · show _ = (r.slots i).generation
        rw [hother i hidx]
        exact hgeneration
  · by_cases hidx : i = idx
    · subst hidx
      refine (Function.update_self ..).trans (hempty ?_)
      rw [← hself]
      exact hnot
    · refine (Function.update_of_ne hidx ..).trans (h.empty i ?_)
      rw [← hother i hidx]
      exact hnot
  · -- the operation was open before, under the same generation
    have hold : Open s.registry i ∧ (r.slots i).generation = (s.registry.slots i).generation := by
      unfold Open at hi ⊢
      by_cases hidx : i = idx
      · subst hidx
        dsimp only at hi
        rw [hself] at hi ⊢
        exact hopen hi
      · dsimp only at hi
        rw [hother i hidx] at hi ⊢
        exact ⟨hi, rfl⟩
    obtain ⟨hlt, token, detached, hfuture, hindex, hgeneration⟩ := h.awaited i hold.1
    refine ⟨?_, token, detached, hfuture, hindex, hgeneration.trans hold.2.symm⟩
    show i < r.capacity
    rw [hcapacity]
    exact hlt

/-! ## Recording and taking -/

/-- The packet goes into the cell of a waiting slot, which becomes ready. -/
theorem Inv.fill {rest : Attached Detail} (h : Inv (some rest) s)
    {record : CompletionRecord Payload}
    (hrecorded : s.registry.recordOutcome record.token = .recordedUser) :
    Inv none { s.store record.token.index (some rest) with
      registry := s.registry.recordCompletion record } := by
  obtain ⟨hlt, hgen, hwaiting⟩ := OpRegistry.recordOutcome_eq_recordedUser.mp hrecorded
  have hempty : s.attached record.token.index = none := by
    refine h.empty record.token.index ?_
    rw [hwaiting]
    exact SlotState.noConfusion
  have hregistry : (s.registry.recordCompletion record).slots =
      Function.update s.registry.slots record.token.index
        { s.registry.slots record.token.index with
          state := .inFlightReady, completionData := some record } := by
    unfold OpRegistry.recordCompletion
    dsimp only
    rw [if_pos ⟨hlt, hgen, hwaiting⟩]
    rfl
  have hfill := h.exchange _ (OpRegistry.sameOwners_recordCompletion s.registry record).capacity
    hregistry (fun _ => ⟨record, rest, rfl, rfl, rfl, hgen.symm⟩) (fun hnot => absurd rfl hnot)
    fun _ => ⟨.inl hwaiting, rfl⟩
  rw [hempty] at hfill
  unfold store
  rw [hempty]
  exact hfill

/-- A new packet is handed to `record_user_completion`. -/
theorem Inv.record (h : Inv none s) (armed : Bool) (token : OpToken) (res : Int) (flags : Nat)
    (payload : Payload) (detail : Option Detail) :
    Inv none ((s.counted armed).recordUserCompletion
      ⟨s.made, token, res, flags, payload, detail, s.guard armed⟩) := by
  have hhand := h.give armed detail
  unfold recordUserCompletion
  dsimp only
  split
  · rename_i hrecorded
    have hrecorded' : s.registry.recordOutcome
        (CompletionRecord.mk token res flags payload).token = .recordedUser := hrecorded
    exact hhand.fill hrecorded'
  · have hdiscard := hhand.discard
    rw [← CompletionCleanupGuard.drop_run] at hdiscard
    exact hdiscard

/-- The record of a ready slot is taken into the hands of the call. -/
theorem Inv.takeCell (h : Inv none s) (hready : s.registry.pollOutcome token = .ready) :
    ∃ taken record rest, s.takeCell token = (taken, some (record, rest)) ∧
      record.token = token ∧ Inv (some rest) taken ∧ taken.futures = s.futures ∧
      ¬ Open taken.registry token.index := by
  obtain ⟨hlt, hgen, hstate⟩ := OpRegistry.pollOutcome_eq_ready.mp hready
  obtain ⟨record, rest, hrecord, hrest, hindex, hgeneration⟩ := h.filled token.index hstate
  have htake : s.registry.tryTakeRecord token = ({ s.registry.setSlot token.index
      { s.registry.slots token.index with
        state := .idle, generation := nextGeneration token.generation, completionData := none } with
      readyCompletionCount := s.registry.readyCompletionCount - 1 }, some record) := by
    unfold OpRegistry.tryTakeRecord
    dsimp only
    rw [if_pos ⟨hlt, hgen, hstate⟩, hrecord]
  have hexchange := h.exchange token.index (r := (s.registry.tryTakeRecord token).1)
    (OpRegistry.sameOwners_tryTakeRecord s.registry token).capacity (by rw [htake]; rfl)
    SlotState.noConfusion (fun _ => rfl) fun hopen => hopen.elim SlotState.noConfusion
      SlotState.noConfusion
  rw [hrest] at hexchange
  refine ⟨_, record, rest, ?_, ?_, hexchange, rfl, ?_⟩
  · unfold Completions.takeCell
    simp only [htake, hrest]
  · obtain ⟨index, generation, _, _⟩ := token
    obtain ⟨⟨index', generation', _, _⟩, _⟩ := record
    cases hindex
    cases hgeneration.trans hgen
    rfl
  · show ¬ Open (s.registry.tryTakeRecord token).1 token.index
    rw [htake]
    have hidle : ((s.registry.setSlot token.index { s.registry.slots token.index with
        state := .idle, generation := nextGeneration token.generation,
        completionData := none }).slots token.index).state = .idle := by
      show (Function.update s.registry.slots token.index _ token.index).state = _
      rw [Function.update_self]
    exact fun hopen => hopen.elim (fun h => SlotState.noConfusion (hidle.symm.trans h))
      fun h => SlotState.noConfusion (hidle.symm.trans h)

/-- The record in hand is consumed. -/
theorem Inv.fromCompletionRecord {rest : Attached Detail} (h : Inv (some rest) s)
    {record : CompletionRecord Payload} (htoken : record.token = token) (mismatch : Bool) :
    Inv none (s.fromCompletionRecord token record rest mismatch) := by
  unfold Completions.fromCompletionRecord
  cases mismatch with
  | true =>
    have hdiscard := h.discard
    rw [← CompletionCleanupGuard.drop_run] at hdiscard
    exact hdiscard
  | false => exact h.deliver rfl htoken

/-- Where neither a record nor a wait is found the operation is over. -/
theorem Inv.settled (h : Inv hand s) (hready : s.registry.pollOutcome token ≠ .ready)
    (hpending : s.registry.pollOutcome token ≠ .pending) : s.Settled token := by
  intro hgen hopen
  have hlt := (h.awaited token.index hopen).1
  rcases hopen with hstate | hstate
  · refine hpending ?_
    unfold OpRegistry.pollOutcome
    rw [if_neg (Nat.not_le.mpr hlt)]
    dsimp only
    rw [if_neg (not_not.mpr hgen), hstate]
  · exact hready (OpRegistry.pollOutcome_eq_ready.mpr ⟨hlt, hgen, hstate⟩)

/-- A poll that does not leave the future pending settles its operation. -/
theorem Inv.pollTableOnce (h : Inv none s) (token : OpToken) (mismatch : Bool) :
    Inv none (s.pollTableOnce token mismatch).1 ∧
      (s.pollTableOnce token mismatch).1.futures = s.futures ∧
      ((s.pollTableOnce token mismatch).2 ≠ .pending →
        (s.pollTableOnce token mismatch).1.Settled token) := by
  unfold Completions.pollTableOnce
  cases houtcome : s.registry.pollOutcome token with
  | ready =>
    obtain ⟨taken, record, rest, htake, htoken, hinv, hfutures, hnot⟩ := h.takeCell houtcome
    simp only [htake]
    have hsame : (taken.fromCompletionRecord token record rest mismatch).registry =
        taken.registry ∧
        (taken.fromCompletionRecord token record rest mismatch).futures = taken.futures := by
      unfold Completions.fromCompletionRecord
      cases mismatch with
      | true => exact ⟨rfl, rfl⟩
      | false => exact ⟨rfl, rfl⟩
    refine ⟨hinv.fromCompletionRecord htoken mismatch, hsame.2.trans hfutures, fun _ _ => ?_⟩
    rw [hsame.1]
    exact hnot
  | pending => exact ⟨h, rfl, fun hne => absurd rfl hne⟩
  | corrupt | unavailable =>
    exact ⟨h, rfl, fun _ => h.settled (by rw [houtcome]; exact PollRecordResult.noConfusion)
      (by rw [houtcome]; exact PollRecordResult.noConfusion)⟩

/-! ## Giving up -/

theorem Inv.discardReadyRecord (h : Inv none s)
    (hready : s.registry.pollOutcome token = .ready) :
    Inv none (s.discardReadyRecord token) ∧ (s.discardReadyRecord token).futures = s.futures ∧
      (s.discardReadyRecord token).Settled token := by
  unfold Completions.discardReadyRecord
  obtain ⟨taken, record, rest, htake, -, hinv, hfutures, hnot⟩ := h.takeCell hready
  rw [if_pos hready]
  simp only [htake]
  have hdiscard := hinv.discard
  rw [← CompletionCleanupGuard.drop_run] at hdiscard
  exact ⟨hdiscard, hfutures, fun _ => hnot⟩

theorem Inv.markOrphaned (h : Inv none s) (token : OpToken) :
    Inv none (s.markOrphaned token) ∧ (s.markOrphaned token).futures = s.futures ∧
      (s.markOrphaned token).Settled token := by
  unfold Completions.markOrphaned
  by_cases hready : s.registry.pollOutcome token = .ready
  · rw [if_pos hready]
    exact h.discardReadyRecord hready
  · rw [if_neg hready]
    refine ⟨h.quiet (OpRegistry.quiet_markOrphaned hready), rfl, fun hgen hopen => ?_⟩
    have hinv := h.quiet (OpRegistry.quiet_markOrphaned hready)
    have hlt : token.index < (s.registry.markOrphaned token).capacity :=
      (hinv.awaited token.index hopen).1
    rw [(OpRegistry.quiet_markOrphaned hready).capacity] at hlt
    by_cases hwaiting : (s.registry.slots token.index).generation = token.generation ∧
        (s.registry.slots token.index).state = .inFlightWaiting
    · have horphan : ((s.registry.markOrphaned token).slots token.index).state =
          .inFlightOrphaned := by
        unfold OpRegistry.markOrphaned
        dsimp only
        rw [if_pos ⟨hlt, hwaiting.1, hwaiting.2⟩]
        show (Function.update s.registry.slots token.index _ token.index).state = _
        rw [Function.update_self]
      exact hopen.elim (fun h => SlotState.noConfusion (horphan.symm.trans h))
        fun h => SlotState.noConfusion (horphan.symm.trans h)
    · have hsame : s.registry.markOrphaned token = s.registry := by
        unfold OpRegistry.markOrphaned OpRegistry.tryTakeRecord
        dsimp only
        rw [if_neg fun hall => hwaiting hall.2,
          if_neg fun hall => hready (OpRegistry.pollOutcome_eq_ready.mpr hall)]
      dsimp only at hgen hopen
      rw [hsame] at hgen hopen
      rcases hopen with hstate | hstate
      · exact hwaiting ⟨hgen, hstate⟩
      · exact hready (OpRegistry.pollOutcome_eq_ready.mpr ⟨hlt, hgen, hstate⟩)

/-! ## Submissions and futures -/

/-- The slot begins to wait, and the new future waits for it. -/
theorem Inv.await (h : Inv none s) (habsent : s.futures f = .absent)
    (hlt : token.index < s.registry.capacity)
    (hgen : (s.registry.slots token.index).generation = token.generation)
    (hstate : (s.registry.slots token.index).state = .reserved) (detached : Bool)
    {r : OpRegistry Op Payload Data} (hcapacity : r.capacity = s.registry.capacity)
    (hslots : r.slots = Function.update s.registry.slots token.index
      { s.registry.slots token.index with state := .inFlightWaiting }) :
    Inv none { s.setFuture f (.pending token detached) with
      registry := r, owner := Function.update s.owner token.index f } := by
  have hself : r.slots token.index =
      { s.registry.slots token.index with state := .inFlightWaiting } := by
    rw [hslots, Function.update_self]
  have hother : ∀ i, i ≠ token.index → r.slots i = s.registry.slots i := by
    intro i hi
    rw [hslots, Function.update_of_ne hi]
  refine ⟨h.accounts, fun i hready => ?_, fun i hnot => ?_, fun i hopen => ?_⟩
  · by_cases hi : i = token.index
    · subst hi
      dsimp only at hready
      rw [hself] at hready
      cases hready
    · dsimp only at hready
      rw [hother i hi] at hready
      obtain ⟨record, rest, hdata, hrest, hindex, hgeneration⟩ := h.filled i hready
      refine ⟨record, rest, ?_, hrest, hindex, ?_⟩
      · show (r.slots i).completionData = _
        rw [hother i hi]
        exact hdata
      · show _ = (r.slots i).generation
        rw [hother i hi]
        exact hgeneration
  · refine h.empty i ?_
    by_cases hi : i = token.index
    · subst hi
      rw [hstate]
      exact SlotState.noConfusion
    · rw [← hother i hi]
      exact hnot
  · by_cases hi : i = token.index
    · subst hi
      refine ⟨?_, token, detached, ?_, rfl, ?_⟩
      · show token.index < r.capacity
        rw [hcapacity]
        exact hlt
      · show Function.update s.futures f _ (Function.update s.owner token.index f token.index) = _
        rw [Function.update_self, Function.update_self]
      · show _ = (r.slots token.index).generation
        rw [hself]
        exact hgen.symm
    · have hold : Open s.registry i := by
        unfold Open at hopen ⊢
        rw [← hother i hi]
        exact hopen
      obtain ⟨hlt', token', detached', hfuture, hindex, hgeneration⟩ := h.awaited i hold
      refine ⟨?_, token', detached', ?_, hindex, ?_⟩
      · show i < r.capacity
        rw [hcapacity]
        exact hlt'
      · show Function.update s.futures f _ (Function.update s.owner token.index f i) = _
        rw [Function.update_of_ne hi, Function.update_of_ne]
        · exact hfuture
        · -- the new future was absent, the old one is pending
          rintro heq
          rw [heq, habsent] at hfuture
          cases hfuture
      · show _ = (r.slots i).generation
        rw [hother i hi]
        exact hgeneration

theorem Inv.submit (h : Inv none s) (habsent : s.futures f = .absent) (detached : Bool)
    (token : OpToken) (op : Op) (payload : Payload) (accepted : Bool) :
    Inv none (s.submit f detached token op payload accepted) := by
  set stored := s.registry.slotSetPayload token payload with hstored
  have hslots : stored.slots = s.registry.slots := by
    rw [hstored]
    unfold OpRegistry.slotSetPayload
    split
    · rfl
    · rfl
  have hcapacity : stored.capacity = s.registry.capacity :=
    (OpRegistry.quiet_slotSetPayload s.registry token payload).capacity
  have hquiet : s.registry.Quiet stored := .of_slots hcapacity hslots
  have hunfold : s.registry.submit token op payload accepted =
    stored.submitSqe token op accepted := rfl
  unfold Completions.submit
  rw [← hstored, hunfold]
  unfold OpRegistry.submitSqe
  cases hview : stored.checkedSlotView token with
  | none => exact h.quiet hquiet
  | some view =>
    cases view with
    | missing | empty | stale => exact h.quiet hquiet
    | valid view index =>
      cases view with
      | inFlightWaiting | inFlightOrphaned => exact h.quiet hquiet
      | reserved =>
        obtain ⟨hlt, hgen, hstate⟩ := OpRegistry.checkedSlotView_eq_valid hview
        rw [hslots] at hgen hstate
        rw [hcapacity] at hlt
        cases accepted with
        | false => exact h.quiet (hquiet.trans (.of_slots rfl rfl))
        | true =>
          have hupdate : ((stored.modifyLocal token fun slot => { slot with op := some op }).setSlot
              token.index { stored.slots token.index with state := .inFlightWaiting }).slots =
              Function.update s.registry.slots token.index
                { s.registry.slots token.index with state := .inFlightWaiting } := by
            rw [← hslots]
            rfl
          exact h.await habsent hlt hgen hstate detached hcapacity hupdate

theorem Inv.poll (h : Inv none s) {mismatch : Bool} (hs : s.poll f mismatch = some s') :
    Inv none s' := by
  have honce : ∀ token detached, (∀ token' detached', s.futures f = .pending token' detached' →
      token' = token) → ∀ polled outcome, s.pollTableOnce token mismatch = (polled, outcome) →
        Inv none polled ∧
          (outcome ≠ .pending → Inv none (polled.setFuture f (.completed token detached))) := by
    intro token detached hown polled outcome hpoll
    obtain ⟨hinv, hfutures, hsettled⟩ := h.pollTableOnce token mismatch
    rw [hpoll] at hinv hfutures hsettled
    refine ⟨hinv, fun hdone => hinv.setFuture fun token' detached' hfuture => ?_⟩
    rw [hown token' detached' (by rw [← hfutures]; exact hfuture)]
    exact hsettled hdone
  unfold Completions.poll at hs
  cases hf : s.futures f with
  | absent =>
    simp only [hf] at hs
    cases hs
  | dropped =>
    simp only [hf] at hs
    cases hs
  | pending token detached =>
    have hpolled := honce token detached fun token' detached' hfuture => by
      rw [hf] at hfuture
      cases hfuture
      rfl
    simp only [hf] at hs
    cases hs
    split
    · exact (hpolled _ _ ‹_›).1
    · exact (hpolled _ _ ‹_›).2 ‹_›
  | completed token detached =>
    cases detached with
    | false =>
      simp only [hf] at hs
      cases hs
    | true =>
      have hpolled := honce token true fun token' detached' hfuture => by
        rw [hf] at hfuture
        cases hfuture
      simp only [hf] at hs
      cases hs
      split
      · exact (hpolled _ _ ‹_›).1
      · exact (hpolled _ _ ‹_›).2 ‹_›

theorem Inv.dropFuture (h : Inv none s) (hs : s.dropFuture f = some s') : Inv none s' := by
  have hdrop : ∀ token, (∀ token' detached', s.futures f = .pending token' detached' →
      token' = token) → Inv none ((s.markOrphaned token).setFuture f .dropped) := by
    intro token hown
    obtain ⟨hinv, hfutures, hsettled⟩ := h.markOrphaned token
    refine hinv.setFuture fun token' detached' hfuture => ?_
    rw [hown token' detached' (by rw [← hfutures]; exact hfuture)]
    exact hsettled
  unfold Completions.dropFuture at hs
  cases hf : s.futures f with
  | absent =>
    simp only [hf] at hs
    cases hs
  | dropped =>
    simp only [hf] at hs
    cases hs
  | pending token detached =>
    simp only [hf] at hs
    cases hs
    refine hdrop token fun token' detached' hfuture => ?_
    rw [hf] at hfuture
    cases hfuture
    rfl
  | completed token detached =>
    have hnot : ∀ token' detached', s.futures f ≠ .pending token' detached' := by
      intro token' detached' hfuture
      rw [hf] at hfuture
      cases hfuture
    cases detached with
    | false =>
      simp only [hf] at hs
      cases hs
      exact h.setFuture fun token' detached' hfuture => absurd hfuture (hnot token' detached')
    | true =>
      simp only [hf] at hs
      cases hs
      exact hdrop token fun token' detached' hfuture => absurd hfuture (hnot token' detached')

/-! ## What it says of a packet -/

/-- The packet is in a cell. -/
def InTable (s : Completions Op Payload Data Detail) (id : Nat) : Prop :=
  ∃ idx rest, s.attached idx = some rest ∧ rest.id = id

/-- Every packet that was handed over is in a cell, delivered or discarded, and one of these
only; its cleanup has run once if it was discarded, and else not at all. -/
theorem Inv.fate (h : Inv none s) {id : Nat} (hid : id ∈ s.handed) :
    (s.InTable id ∧ (s.delivered.map (·.id)).count id = 0 ∧ s.discarded.count id = 0 ∧
        s.ran.count id = 0) ∨
      (¬ s.InTable id ∧ (s.delivered.map (·.id)).count id = 1 ∧ s.discarded.count id = 0 ∧
        s.ran.count id = 0) ∨
      (¬ s.InTable id ∧ (s.delivered.map (·.id)).count id = 0 ∧ s.discarded.count id = 1 ∧
        s.ran.count id = if id ∈ s.armed then 1 else 0) := by
  have hacc := h.accounts
  obtain ⟨hreceived, hdiscarded, hapart⟩ := List.nodup_append.mp hacc.nodup
  have hfresh : ∀ idx rest, s.attached idx = some rest → Fresh s.ledger rest :=
    fun idx rest hrest => hacc.placed (some idx) rest hrest
  rcases hacc.settled id hid with ⟨p, rest, hp, rfl⟩ | hmem | hmem
  · cases p with
    | none => cases hp
    | some idx =>
      obtain ⟨-, hnot, hnot', hran, -⟩ := hfresh idx rest hp
      exact .inl ⟨⟨idx, rest, hp, rfl⟩, List.count_eq_zero.mpr hnot, List.count_eq_zero.mpr hnot',
        List.count_eq_zero.mpr hran⟩
  · refine .inr (.inl ⟨?_, List.count_eq_one_of_mem hreceived hmem,
      List.count_eq_zero.mpr fun hother => hapart id hmem id hother rfl,
      List.count_eq_zero.mpr (hacc.not_ran id hmem)⟩)
    rintro ⟨idx, rest, hrest, rfl⟩
    exact (hfresh idx rest hrest).not_received hmem
  · refine .inr (.inr ⟨?_, List.count_eq_zero.mpr fun hother => hapart id hother id hmem rfl,
      List.count_eq_one_of_mem hdiscarded hmem, ?_⟩)
    · rintro ⟨idx, rest, hrest, rfl⟩
      exact (hfresh idx rest hrest).not_discarded hmem
    · split
      · rename_i harmed
        exact List.count_eq_one_of_mem hacc.ran_nodup (hacc.ran_of_discarded id hmem harmed)
      · rename_i hnot
        exact List.count_eq_zero.mpr fun hran => hnot (hacc.ran_armed id hran)

/-- The packet in a cell is that of the pending future of its own token. -/
theorem Inv.pending (h : Inv none s) {rest : Attached Detail} (hrest : s.attached idx = some rest) :
    ∃ record detached, (s.registry.slots idx).completionData = some record ∧
      s.futures (s.owner idx) = .pending record.token detached := by
  have hready : (s.registry.slots idx).state = .inFlightReady := by
    by_contra hnot
    rw [h.empty idx hnot] at hrest
    cases hrest
  obtain ⟨record, -, hdata, -, hindex, hgeneration⟩ := h.filled idx hready
  obtain ⟨-, token, detached, hfuture, hindex', hgeneration'⟩ := h.awaited idx (.inr hready)
  have htoken : token = record.token := by
    obtain ⟨index, generation, _, _⟩ := token
    obtain ⟨⟨index', generation', _, _⟩, _⟩ := record
    cases hindex.trans hindex'.symm
    cases hgeneration.trans hgeneration'.symm
    rfl
  rw [htoken] at hfuture
  exact ⟨record, detached, hdata, hfuture⟩

/-! ## The flow of a completion -/

theorem Inv.hooked (h : Inv none s) (token : OpToken) (hook : Hook Op Payload Detail) :
    Inv none (s.hooked token hook) :=
  h.quiet (.of_slots rfl rfl)

variable [Inhabited Data]

theorem Inv.finalize (h : Inv none s) (token : OpToken) : Inv none (s.finalize token) :=
  h.quiet (OpRegistry.quiet_remove s.registry token)

theorem Inv.finishHookOutcome (h : Inv none s) (effectOk : Bool)
    (outcome : CompletionHookOutcome Payload Detail) (finalize : Option FinalizeAction) :
    Inv none (s.finishHookOutcome effectOk outcome finalize) := by
  cases outcome with
  | user token res flags payload detail armed =>
    have hrecord := h.record armed token res flags payload detail
    cases effectOk with
    | false => exact h.clean armed
    | true =>
      cases finalize with
      | none => exact hrecord.finalize token
      | some action =>
        cases action with
        | waiting event => exact hrecord.finalize event
        | orphaned event => exact hrecord.finalize token
  | cleanup armed =>
    have hclean := h.clean armed
    cases effectOk with
    | false => exact hclean
    | true =>
      rw [← CompletionCleanupGuard.drop_run] at hclean
      cases finalize with
      | none => exact hclean
      | some action =>
        cases action with
        | waiting event => exact hclean.finalize event
        | orphaned event => exact hclean.finalize event
  | anomaly | controlHandled | ignore => exact h

theorem Inv.acceptUserEvent (h : Inv none s) (token : OpToken) (hook : Hook Op Payload Detail) :
    Inv none (s.acceptUserEvent token hook) := by
  have hhooked := h.hooked token hook
  unfold Completions.acceptUserEvent
  cases s.registry.checkedSlotView token with
  | none => exact h
  | some view =>
    cases houtcome : hook.outcome with
    | none =>
      cases view with
      | valid view index =>
        cases view with
        | reserved => exact h
        | inFlightWaiting | inFlightOrphaned => exact hhooked
      | missing | empty | stale => exact h
    | some outcome =>
      cases view with
      | valid view index =>
        cases view with
        | reserved => exact h
        | inFlightWaiting | inFlightOrphaned => exact hhooked.finishHookOutcome _ _ _
      | missing | empty | stale => exact h.finishHookOutcome _ _ _

theorem Inv.step (h : Inv none s) {e : CompletionEvent Op Payload Data Detail}
    (hs : s.step e = some s') : Inv none s' := by
  cases e with
  | alloc data =>
    obtain ⟨⟨r, result⟩, halloc, heq⟩ := Option.map_eq_some_iff.mp hs
    cases heq
    exact h.quiet (OpRegistry.quiet_alloc halloc)
  | submit f detached token op payload accepted =>
    unfold Completions.step at hs
    cases hf : s.futures f with
    | absent =>
      simp only [hf] at hs
      cases hs
      exact h.submit hf detached token op payload accepted
    | pending | completed | dropped =>
      simp only [hf] at hs
      cases hs
  | accept token hook =>
    cases hs
    exact h.acceptUserEvent token hook
  | record token res flags payload detail armed =>
    cases hs
    exact h.record armed token res flags payload detail
  | take token mismatch =>
    cases hs
    exact (h.pollTableOnce token mismatch).1
  | poll f mismatch => exact h.poll hs
  | discard token =>
    cases hs
    by_cases hready : s.registry.pollOutcome token = .ready
    · exact (h.discardReadyRecord hready).1
    · unfold Completions.discardReadyRecord
      rw [if_neg hready]
      exact h
  | orphan token =>
    cases hs
    exact (h.markOrphaned token).1
  | remove token =>
    cases hs
    exact h.finalize token
  | drop f => exact h.dropFuture hs

end Completions

/-- In every run each packet that was handed to `record_user_completion` is in the table, was
delivered once, or was dropped once; its cleanup has run, once, exactly if it was dropped; it
is delivered to the consumer of its own token; and while it is in the table the future of the
submission it belongs to is still pending. -/
theorem completion_fates [Inhabited Data] {s : Completions Op Payload Data Detail}
    (h : Run CompletionStep Always (fun s => ∃ capacity, s = Completions.new capacity) s) :
    (∀ id ∈ s.handed,
      (s.InTable id ∧ (s.delivered.map (·.id)).count id = 0 ∧ s.discarded.count id = 0 ∧
          s.ran.count id = 0) ∨
        (¬ s.InTable id ∧ (s.delivered.map (·.id)).count id = 1 ∧ s.discarded.count id = 0 ∧
          s.ran.count id = 0) ∨
        (¬ s.InTable id ∧ (s.delivered.map (·.id)).count id = 0 ∧ s.discarded.count id = 1 ∧
          s.ran.count id = if id ∈ s.armed then 1 else 0)) ∧
    (∀ delivery ∈ s.delivered, delivery.token = delivery.consumer) ∧
    ∀ idx rest, s.attached idx = some rest →
      ∃ record detached, (s.registry.slots idx).completionData = some record ∧
        s.futures (s.owner idx) = .pending record.token detached := by
  have hinv : s.Inv none := by
    refine h.invariant ?_ fun _ _ _ hinv _ hs => hinv.step hs
    rintro _ ⟨capacity, rfl⟩
    exact .new capacity
  exact ⟨fun _ hid => hinv.fate hid, hinv.accounts.own, fun _ _ hrest => hinv.pending hrest⟩

/-- One operation is delivered, one discarded with its future, and one packet comes too late. -/
def threePackets : List (CompletionEvent Unit Unit Unit Unit) :=
  let first : OpToken := ⟨0, 1, indexLimit_pos, first_generation_lt⟩
  let second : OpToken := ⟨1, 1, one_lt_indexLimit, first_generation_lt⟩
  let hook : Hook Unit Unit Unit := ⟨none, none, some (.user first 0 0 () none true), true⟩
  [.alloc (), .alloc (), .submit 0 true first () () true, .submit 1 true second () () true,
    .accept first hook, .record second 0 0 () none true, .poll 0 false, .drop 1,
    .record second 0 0 () none true]

def threeFates : Completions Unit Unit Unit Unit :=
  (replay Completions.step (fun _ _ => true) (.new 2) threePackets).get (by decide +kernel)

theorem completion_fates_three :
    threeFates.handed = [0, 1, 2] ∧ threeFates.delivered.map (·.id) = [0] ∧
      threeFates.discarded = [1, 2] ∧ threeFates.ran = [1, 2] ∧ ¬ threeFates.InTable 1 := by
  have hreplay : replay Completions.step (fun _ _ => true) (.new 2) threePackets =
    some threeFates := (Option.some_get _).symm
  have hstart : Run CompletionStep Always (fun s => ∃ capacity, s = Completions.new capacity)
      (Completions.new 2 : Completions Unit Unit Unit Unit) := Run.start ⟨2, rfl⟩
  have hrun := hstart.replay (fun _ _ _ hs => hs) (fun _ _ _ => trivial) hreplay
  have hhanded : threeFates.handed = [0, 1, 2] := by decide +kernel
  have hdiscarded : threeFates.discarded = [1, 2] := by decide +kernel
  refine ⟨hhanded, by decide +kernel, hdiscarded, by decide +kernel, fun hin => ?_⟩
  have hfate := (completion_fates hrun).1 1 (by rw [hhanded]; decide)
  rw [hdiscarded] at hfate
  rcases hfate with ⟨-, -, hzero, -⟩ | ⟨hnot, -⟩ | ⟨hnot, -⟩
  · exact absurd hzero (by decide)
  · exact hnot hin
  · exact hnot hin

end Veloq.Driver
