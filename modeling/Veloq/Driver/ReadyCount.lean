import Veloq.Driver.Partition
import Veloq.Driver.Routing
set_option autoImplicit false

/-!
# Driver: the counter of ready completions is exact

`has_ready_completion` looks at a counter that every operation keeps by hand.  It is the
number of slots that are ready, so its saturating decrement never saturates.
-/

namespace Veloq.Driver

open Veloq.Foundation

variable {Op Payload Data : Type}

namespace OpRegistry

variable {r r' : OpRegistry Op Payload Data} {idx : Nat} {slot : SlotData Payload}

/-- The slot holds a completion for its consumer. -/
def ReadyAt (r : OpRegistry Op Payload Data) (idx : Nat) : Prop :=
  (r.slots idx).state = .inFlightReady

/-- `has_ready_completion`. -/
def hasReadyCompletion (r : OpRegistry Op Payload Data) : Bool :=
  decide (0 < r.readyCompletionCount)

/-- The counter is the number of ready slots. -/
def ReadyExact (r : OpRegistry Op Payload Data) : Prop :=
  Census r.ReadyAt r.readyCompletionCount

theorem ReadyExact.congr (h : r.ReadyExact) (hready : ∀ i, r'.ReadyAt i ↔ r.ReadyAt i)
    (hcount : r'.readyCompletionCount = r.readyCompletionCount) : r'.ReadyExact := by
  unfold ReadyExact
  rw [hcount]
  exact Census.congr h hready

theorem readyAt_setSlot (hslot : slot.state = .inFlightReady ↔ r.ReadyAt idx) (i : Nat) :
    (r.setSlot idx slot).ReadyAt i ↔ r.ReadyAt i := by
  show (Function.update r.slots idx slot i).state = .inFlightReady ↔ r.ReadyAt i
  by_cases hi : i = idx
  · rw [hi, Function.update_self]
    exact hslot
  · rw [Function.update_of_ne hi]
    exact Iff.rfl

/-- One slot changes, but not whether it is ready. -/
theorem ReadyExact.setSlot (h : r.ReadyExact)
    (hslot : slot.state = .inFlightReady ↔ r.ReadyAt idx) : (r.setSlot idx slot).ReadyExact :=
  h.congr (readyAt_setSlot hslot) rfl

/-- A slot becomes ready, and is counted. -/
theorem ReadyExact.enter (h : r.ReadyExact) (hbefore : ¬ r.ReadyAt idx)
    (hslot : slot.state = .inFlightReady) :
    ReadyExact { r.setSlot idx slot with
      readyCompletionCount := r.readyCompletionCount + 1 } := by
  refine Census.join h hbefore fun i => ?_
  show (Function.update r.slots idx slot i).state = .inFlightReady ↔ i = idx ∨ r.ReadyAt i
  by_cases hi : i = idx
  · rw [hi, Function.update_self]
    exact ⟨fun _ => .inl rfl, fun _ => hslot⟩
  · rw [Function.update_of_ne hi]
    exact ⟨.inr, fun hor => hor.resolve_left hi⟩

/-- A ready slot becomes idle, and is counted out. -/
theorem ReadyExact.exit (h : r.ReadyExact) (hbefore : r.ReadyAt idx)
    (hslot : slot.state = .idle) :
    ReadyExact { r.setSlot idx slot with
      readyCompletionCount := r.readyCompletionCount - 1 } := by
  refine Census.leave h hbefore fun i => ?_
  show (Function.update r.slots idx slot i).state = .inFlightReady ↔ i ≠ idx ∧ r.ReadyAt i
  by_cases hi : i = idx
  · rw [hi, Function.update_self, hslot]
    exact ⟨SlotState.noConfusion, fun hboth => absurd rfl hboth.1⟩
  · rw [Function.update_of_ne hi]
    exact ⟨fun hready => ⟨hi, hready⟩, And.right⟩

/-- Before the decrement there is something to count out. -/
theorem ReadyExact.pos (h : r.ReadyExact) (hready : r.ReadyAt idx) :
    0 < r.readyCompletionCount :=
  Census.pos h hready

theorem ReadyExact.hasReadyCompletion_iff (h : r.ReadyExact) :
    r.hasReadyCompletion = true ↔ ∃ i, r.ReadyAt i := by
  unfold hasReadyCompletion
  rw [decide_eq_true_iff]
  exact ⟨Census.exists_of_pos h, fun ⟨_, hready⟩ => h.pos hready⟩

/-! ## The operations -/

theorem ReadyExact.pushFree (h : r.ReadyExact) (idx : Nat) : (r.pushFree idx).ReadyExact :=
  h.congr (readyAt_setSlot Iff.rfl) rfl

theorem ReadyExact.foldl_pushFree (h : r.ReadyExact) (idxs : List Nat) :
    (idxs.foldl OpRegistry.pushFree r).ReadyExact := by
  induction idxs generalizing r with
  | nil => exact h
  | cons idx idxs ih => exact ih (h.pushFree idx)

theorem ReadyExact.new [Inhabited Data] (capacity : Nat) :
    (OpRegistry.new capacity : OpRegistry Op Payload Data).ReadyExact := by
  refine ReadyExact.foldl_pushFree ?_ _
  exact Census.zero fun _ hready => SlotState.noConfusion hready

/-- Only an idle slot is reserved. -/
theorem ReadyExact.reserve (h : r.ReadyExact) (hidle : (r.slots idx).state = .idle) (data : Data) :
    (r.reserve idx data).1.ReadyExact := by
  refine h.congr (readyAt_setSlot ?_) rfl
  unfold ReadyAt
  rw [hidle]
  exact ⟨SlotState.noConfusion, SlotState.noConfusion⟩

theorem ReadyExact.allocLoop (fuel : Nat) (h : r.ReadyExact) {deferred : List Nat} {data : Data}
    {result : Except Data OpHandle}
    (hrun : OpRegistry.allocLoop fuel r deferred data = some (r', result)) : r'.ReadyExact := by
  induction fuel generalizing r deferred with
  | zero => cases hrun
  | succ fuel ih =>
    rw [OpRegistry.allocLoop] at hrun
    cases hhead : r.localFreeHead with
    | none =>
      simp only [hhead] at hrun
      cases hrun
      exact h.foldl_pushFree deferred
    | some idx =>
      simp only [hhead] at hrun
      have hpopped : ReadyExact { r with localFreeHead := (r.slots idx).nextFree } := h
      split at hrun
      · cases hrun
      · split at hrun
        · exact ih hpopped hrun
        · rename_i hidle
          cases hrun
          exact (hpopped.reserve (not_not.mp hidle) data).foldl_pushFree deferred

theorem ReadyExact.alloc (h : r.ReadyExact) {data : Data} {result : Except Data OpHandle}
    (hrun : r.alloc data = some (r', result)) : r'.ReadyExact := by
  unfold OpRegistry.alloc at hrun
  refine ReadyExact.allocLoop _ ?_ hrun
  cases r.localFreeHead with
  | none => exact h
  | some idx => exact h

theorem ReadyExact.submit (h : r.ReadyExact) (token : OpToken) (op : Op) (payload : Payload)
    (accepted : Bool) : (r.submit token op payload accepted).ReadyExact := by
  have hpayload : (r.slotSetPayload token payload).ReadyExact := by
    unfold OpRegistry.slotSetPayload
    split
    · exact h
    · exact h
  unfold OpRegistry.submit submitSqe
  cases hview : (r.slotSetPayload token payload).checkedSlotView token with
  | none => exact hpayload
  | some view =>
    cases view with
    | missing | empty | stale => exact hpayload
    | valid view index =>
      cases view with
      | inFlightWaiting | inFlightOrphaned => exact hpayload
      | reserved =>
        have hreserved : ((r.slotSetPayload token payload).slots token.index).state = .reserved :=
          (checkedSlotView_eq_valid hview).2.2
        dsimp only
        split
        · refine ReadyExact.congr hpayload (readyAt_setSlot ?_) rfl
          show _ ↔ ((r.slotSetPayload token payload).slots token.index).state = _
          rw [hreserved]
          exact ⟨SlotState.noConfusion, SlotState.noConfusion⟩
        · exact hpayload

theorem ReadyExact.recordCompletion (h : r.ReadyExact) (record : CompletionRecord Payload) :
    (r.recordCompletion record).ReadyExact := by
  unfold OpRegistry.recordCompletion
  dsimp only
  split
  · rename_i hwaiting
    refine h.enter (fun hready => ?_) rfl
    exact SlotState.noConfusion (hwaiting.2.2.symm.trans hready)
  · exact h

theorem ReadyExact.tryTakeRecord (h : r.ReadyExact) (token : OpToken) :
    (r.tryTakeRecord token).1.ReadyExact := by
  unfold OpRegistry.tryTakeRecord
  dsimp only
  split
  · rename_i hready
    exact h.exit hready.2.2 rfl
  · exact h

theorem ReadyExact.markOrphaned (h : r.ReadyExact) (token : OpToken) :
    (r.markOrphaned token).ReadyExact := by
  unfold OpRegistry.markOrphaned
  dsimp only
  split
  · rename_i hwaiting
    refine h.setSlot ⟨SlotState.noConfusion, fun hready => ?_⟩
    exact SlotState.noConfusion (hwaiting.2.2.symm.trans hready)
  · exact h.tryTakeRecord token

variable [Inhabited Data]

/-- A ready completion outlives the removal of its operation. -/
theorem ReadyExact.removeAtIndex (h : r.ReadyExact) (idx : Nat) :
    (r.removeAtIndex idx).ReadyExact := by
  have hfreed : (r.slots idx).free.state = .inFlightReady ↔ r.ReadyAt idx := by
    unfold SlotData.free ReadyAt
    split
    · exact Iff.rfl
    · rename_i hnot
      exact ⟨SlotState.noConfusion, fun hready => absurd hready hnot⟩
  have hlocal : ReadyExact (r.setLocal idx { r.locals idx with
      active := false, op := none, payload := none, platformData := default }) := h
  have hslot : ReadyExact ((r.setLocal idx { r.locals idx with
      active := false, op := none, payload := none, platformData := default }).setSlot idx
      (r.slots idx).free) := hlocal.setSlot hfreed
  exact hslot.pushFree idx

theorem ReadyExact.remove (h : r.ReadyExact) (token : OpToken) : (r.remove token).ReadyExact := by
  rw [remove_eq]
  split
  · exact h.removeAtIndex token.index
  · exact h

/-- A ready completion ends with the recycling of its slot. -/
theorem ReadyExact.recycleAtIndex (h : r.ReadyExact) (idx generation : Nat) :
    (r.recycleAtIndex idx generation).ReadyExact := by
  unfold OpRegistry.recycleAtIndex
  dsimp only
  split
  · rename_i hready
    have hexit : ReadyExact { r.setSlot idx { r.slots idx with
        generation := generation, state := .idle } with
          readyCompletionCount := r.readyCompletionCount - 1 } := h.exit hready rfl
    exact hexit.pushFree idx
  · rename_i hnot
    have hslot : ReadyExact (r.setSlot idx { r.slots idx with
        generation := generation, state := .idle }) :=
      h.setSlot ⟨SlotState.noConfusion, fun hready => absurd hready hnot⟩
    exact hslot.pushFree idx

theorem ReadyExact.recycle (h : r.ReadyExact) (token : OpToken) (nextGeneration : Nat) :
    (r.recycle token nextGeneration).ReadyExact := by
  unfold OpRegistry.recycle
  split
  · exact h.recycleAtIndex token.index nextGeneration
  · exact h

end OpRegistry

/-- The counter of the registry is exact. -/
def Tenancy.ReadyExact (s : Tenancy Op Payload Data) : Prop := s.registry.ReadyExact

theorem Tenancy.ReadyExact.step [Inhabited Data] {s s' : Tenancy Op Payload Data}
    {call : RegistryCall Op Payload Data} (h : s.ReadyExact) (hs : s.step call = some s') :
    s'.ReadyExact := by
  unfold Tenancy.ReadyExact at h
  cases call with
  | alloc data =>
    unfold Tenancy.step at hs
    cases halloc : s.registry.alloc data with
    | none =>
      simp only [halloc] at hs
      cases hs
    | some allocated =>
      obtain ⟨r', result⟩ := allocated
      have hexact : r'.ReadyExact := h.alloc halloc
      cases result with
      | error data =>
        simp only [halloc] at hs
        cases hs
        exact hexact
      | ok handle =>
        simp only [halloc] at hs
        cases hs
        exact hexact
  | submit token op payload accepted =>
    cases hs
    exact h.submit token op payload accepted
  | remove token =>
    cases hs
    exact h.remove token
  | recycle token nextGeneration =>
    cases hs
    exact h.recycle token nextGeneration
  | record record =>
    cases hs
    exact h.recordCompletion record
  | take token =>
    cases hs
    exact h.tryTakeRecord token
  | discard token =>
    cases hs
    exact h.tryTakeRecord token
  | orphan token =>
    cases hs
    exact h.markOrphaned token
  | registerWaker token =>
    cases hs
    exact h

/-- After any calls the counter is the number of ready slots: `has_ready_completion` tells
whether there is one, and where a ready slot is left the decrement has something to take. -/
theorem ready_count_exact [Inhabited Data] {s : Tenancy Op Payload Data}
    (h : Run TenancyStep Always (fun s => ∃ capacity, s = Tenancy.new capacity) s) :
    Census (fun i => (s.registry.slots i).state = .inFlightReady)
        s.registry.readyCompletionCount ∧
      (s.registry.hasReadyCompletion = true ↔
        ∃ i, (s.registry.slots i).state = .inFlightReady) ∧
      ∀ i, (s.registry.slots i).state = .inFlightReady →
        s.registry.readyCompletionCount - 1 + 1 = s.registry.readyCompletionCount := by
  have hexact : s.ReadyExact := by
    refine h.invariant ?_ fun _ _ _ hexact _ hs => hexact.step hs
    rintro _ ⟨capacity, rfl⟩
    exact OpRegistry.ReadyExact.new capacity
  exact ⟨hexact, OpRegistry.ReadyExact.hasReadyCompletion_iff hexact, fun i hready =>
    Nat.sub_add_cancel (OpRegistry.ReadyExact.pos hexact hready)⟩

/-- Two operations complete; one is consumed, the other recycled unconsumed. -/
def consumedAndRecycled : List (RegistryCall Unit Unit Unit) :=
  let first : OpToken := ⟨0, 1, indexLimit_pos, first_generation_lt⟩
  let second : OpToken := ⟨1, 1, one_lt_indexLimit, first_generation_lt⟩
  [.alloc (), .alloc (), .submit first () () true, .submit second () () true,
    .record ⟨first, 0, 0, ()⟩, .record ⟨second, 0, 0, ()⟩, .remove first, .take first,
    .recycle second 7]

def consumedTenancy : Tenancy Unit Unit Unit :=
  (replay Tenancy.step (fun _ _ => true) (.new 2) consumedAndRecycled).get (by decide +kernel)

theorem ready_count_exact_consumed :
    consumedTenancy.registry.readyCompletionCount = 0 ∧
      consumedTenancy.registry.hasReadyCompletion = false ∧
      ¬ ∃ i, (consumedTenancy.registry.slots i).state = .inFlightReady := by
  have hreplay : replay Tenancy.step (fun _ _ => true) (.new 2) consumedAndRecycled =
    some consumedTenancy := (Option.some_get _).symm
  have hstart : Run TenancyStep Always (fun s => ∃ capacity, s = Tenancy.new capacity)
      (Tenancy.new 2 : Tenancy Unit Unit Unit) := Run.start ⟨2, rfl⟩
  have hrun := hstart.replay (fun _ _ _ hs => hs) (fun _ _ _ => trivial) hreplay
  have hnone : consumedTenancy.registry.hasReadyCompletion = false := by decide +kernel
  refine ⟨by decide +kernel, hnone, fun hready => ?_⟩
  rw [(ready_count_exact hrun).2.1.mpr hready] at hnone
  cases hnone

end Veloq.Driver
