import Veloq.Foundation.Run
import Veloq.Driver.Registry
set_option autoImplicit false

/-!
# Driver: which operation a kernel completion reaches

The state machine of the registry, and the way of a `user_data` through the kernel
and back.  Along every run an operation in flight owns its slot, with its operation
and payload stored, so a completion reaches it exactly when the token comes back
with its whole generation.
-/

namespace Veloq.Driver.OpRegistry

open Veloq.Foundation

variable {Op Payload Data : Type}

/-- What the driver and the consumers of completions do with a registry. -/
inductive Call (Op Payload Data : Type) where
  | alloc (data : Data)
  | submit (token : OpToken) (op : Op) (payload : Payload) (accepted : Bool)
  | complete (raw : Nat) (res : Int) (flags : Nat)
  | take (token : OpToken)
  | orphan (token : OpToken)
  | remove (token : OpToken)

/-- One call, run to its end. -/
inductive Step [Inhabited Data] : OpRegistry Op Payload Data → Call Op Payload Data → OpRegistry Op Payload Data →
    Prop where
  | alloc {r r' : OpRegistry Op Payload Data} {data : Data} {result : Except Data OpHandle} :
      r.alloc data = some (r', result) → Step r (.alloc data) r'
  | submit (r : OpRegistry Op Payload Data) (token : OpToken) (op : Op) (payload : Payload)
      (accepted : Bool) :
      Step r (.submit token op payload accepted) (r.submit token op payload accepted)
  | complete (r : OpRegistry Op Payload Data) (raw : Nat) (res : Int) (flags : Nat) :
      Step r (.complete raw res flags) (r.acceptKernel raw res flags)
  | take (r : OpRegistry Op Payload Data) (token : OpToken) :
      Step r (.take token) (r.tryTakeRecord token).1
  | orphan (r : OpRegistry Op Payload Data) (token : OpToken) :
      Step r (.orphan token) (r.markOrphaned token)
  | remove (r : OpRegistry Op Payload Data) (token : OpToken) :
      Step r (.remove token) (r.remove token)

/-- The slot belongs to an operation that the kernel may complete. -/
def IsInFlight (state : SlotState) : Prop :=
  state = .inFlightWaiting ∨ state = .inFlightOrphaned

/-- The operation `token` is in flight. -/
def InFlight (r : OpRegistry Op Payload Data) (token : OpToken) : Prop :=
  token.index < r.capacity ∧ (r.slots token.index).generation = token.generation ∧
    IsInFlight (r.slots token.index).state

/-- The completion of `token` is routed exactly: its `user_data` is classified as
`token` itself and accepted as the live slot of `token`. -/
def RoutedExactly (r : OpRegistry Op Payload Data) (token : OpToken) : Prop :=
  CompletionToken.classify (CompletionToken.user token) = .user token ∧
  (r.routeKernel (CompletionToken.user token) = some (.valid .inFlightWaiting token.index) ∨
    r.routeKernel (CompletionToken.user token) = some (.valid .inFlightOrphaned token.index))

/-! ## The invariant of a registry -/

/-- Generations are `u32`, and an operation in flight has its operation and its
payload stored. -/
structure Inv (r : OpRegistry Op Payload Data) : Prop where
  generation_lt : ∀ idx, (r.slots idx).generation < 2 ^ 32
  owned : ∀ idx, IsInFlight (r.slots idx).state →
    (r.locals idx).op.isSome = true ∧ (r.locals idx).payload.isSome = true

/-- A step that touches one slot only. -/
theorem Inv.of_slot {r r' : OpRegistry Op Payload Data} (h : Inv r) (idx : Nat)
    (hother : ∀ j, j ≠ idx → (r'.slots j).generation = (r.slots j).generation ∧
      (r'.slots j).state = (r.slots j).state ∧ r'.locals j = r.locals j)
    (hgen : (r'.slots idx).generation < 2 ^ 32)
    (howned : IsInFlight (r'.slots idx).state →
      (r'.locals idx).op.isSome = true ∧ (r'.locals idx).payload.isSome = true) : Inv r' := by
  constructor
  · intro j
    by_cases hj : j = idx
    · rw [hj]
      exact hgen
    · rw [(hother j hj).1]
      exact h.generation_lt j
  · intro j
    by_cases hj : j = idx
    · rw [hj]
      exact howned
    · rw [(hother j hj).2.1, (hother j hj).2.2]
      exact h.owned j

theorem not_isInFlight_idle : ¬ IsInFlight .idle := by
  rintro (h | h) <;> exact absurd h (by decide)

theorem not_isInFlight_reserved : ¬ IsInFlight .reserved := by
  rintro (h | h) <;> exact absurd h (by decide)

theorem not_isInFlight_ready : ¬ IsInFlight .inFlightReady := by
  rintro (h | h) <;> exact absurd h (by decide)

/-- Links of the free lists do not matter. -/
theorem Inv.pushFree {r : OpRegistry Op Payload Data} (h : Inv r) (idx : Nat) :
    Inv (r.pushFree idx) := by
  refine h.of_slot idx ?_ ?_ ?_
  · intro j hj
    simp [OpRegistry.pushFree, setSlot, hj]
  · simpa [OpRegistry.pushFree, setSlot] using h.generation_lt idx
  · simpa [OpRegistry.pushFree, setSlot] using h.owned idx

theorem Inv.foldl_pushFree {r : OpRegistry Op Payload Data} (h : Inv r) (idxs : List Nat) :
    Inv (idxs.foldl OpRegistry.pushFree r) := by
  induction idxs generalizing r with
  | nil => exact h
  | cons idx idxs ih => exact ih (h.pushFree idx)

theorem inv_new [Inhabited Data] (capacity : Nat) : Inv (new capacity : OpRegistry Op Payload Data) := by
  refine Inv.foldl_pushFree ⟨?_, ?_⟩ _
  · intro idx
    exact Nat.two_pow_pos 32
  · intro idx hflight
    exact absurd hflight not_isInFlight_idle

theorem Inv.reserve {r : OpRegistry Op Payload Data} (h : Inv r) (idx : Nat) (data : Data) :
    Inv (r.reserve idx data).1 := by
  refine h.of_slot idx ?_ ?_ ?_
  · intro j hj
    simp [OpRegistry.reserve, setSlot, setLocal, hj]
  · simpa [OpRegistry.reserve, setSlot, setLocal] using nextGeneration_lt _
  · intro hflight
    refine absurd hflight ?_
    simpa [OpRegistry.reserve, setSlot, setLocal] using not_isInFlight_reserved

theorem Inv.allocLoop (fuel : Nat) {r r' : OpRegistry Op Payload Data} (deferred : List Nat)
    (data : Data) {result : Except Data OpHandle} (h : Inv r)
    (hrun : OpRegistry.allocLoop fuel r deferred data = some (r', result)) : Inv r' := by
  induction fuel generalizing r deferred with
  | zero => exact absurd hrun (by simp [OpRegistry.allocLoop])
  | succ fuel ih =>
    rw [OpRegistry.allocLoop] at hrun
    cases hhead : r.localFreeHead with
    | none =>
      simp only [hhead] at hrun
      cases hrun
      exact h.foldl_pushFree deferred
    | some idx =>
      simp only [hhead] at hrun
      have hpopped : Inv { r with localFreeHead := (r.slots idx).nextFree } :=
        ⟨h.generation_lt, h.owned⟩
      split at hrun
      · exact absurd hrun (by simp)
      · split at hrun
        · exact ih (deferred ++ [idx]) hpopped hrun
        · cases hrun
          exact (hpopped.reserve idx data).foldl_pushFree deferred

theorem Inv.alloc {r r' : OpRegistry Op Payload Data} (h : Inv r) {data : Data}
    {result : Except Data OpHandle} (hrun : r.alloc data = some (r', result)) : Inv r' := by
  unfold OpRegistry.alloc at hrun
  refine Inv.allocLoop _ [] data ?_ hrun
  cases hhead : r.localFreeHead with
  | none => exact ⟨h.generation_lt, h.owned⟩
  | some idx => exact h

/-- A valid view says what the slot looks like. -/
theorem checkedSlotView_eq_valid {r : OpRegistry Op Payload Data} {token : OpToken}
    {view : SlotView} {index : Nat} (h : r.checkedSlotView token = some (.valid view index)) :
    token.index < r.capacity ∧ (r.slots token.index).generation = token.generation ∧
    (r.slots token.index).state = match view with
      | .reserved => .reserved
      | .inFlightWaiting => .inFlightWaiting
      | .inFlightOrphaned => .inFlightOrphaned := by
  unfold checkedSlotView at h
  split at h
  · exact absurd h (by simp)
  · rename_i hlt
    simp only at h
    split at h
    · exact absurd h (by simp)
    · rename_i hgen
      refine ⟨Nat.lt_of_not_le hlt, Decidable.not_not.mp hgen, ?_⟩
      split at h
      · split at h
        · cases h
          assumption
        · exact absurd h (by simp)
      · split at h
        · cases h
          assumption
        · exact absurd h (by simp)
      · exact absurd h (by simp)
      · exact absurd h (by simp)
      · exact absurd h (by simp)
      · split at h
        · cases h
          assumption
        · exact absurd h (by simp)

theorem Inv.submit {r : OpRegistry Op Payload Data} (h : Inv r) (token : OpToken) (op : Op)
    (payload : Payload) (accepted : Bool) : Inv (r.submit token op payload accepted) := by
  unfold OpRegistry.submit
  have hset : Inv (r.slotSetPayload token payload) := by
    unfold slotSetPayload
    split
    · refine h.of_slot token.index ?_ (h.generation_lt _) ?_
      · intro j hj
        simp [modifyLocal, setLocal, hj]
      · intro hflight
        simpa [modifyLocal, setLocal] using (h.owned _ hflight).1
    · exact h
  unfold submitSqe
  split
  · rename_i index hview
    obtain ⟨hlt, hgen, hstate⟩ := checkedSlotView_eq_valid hview
    have hslots : (r.slotSetPayload token payload).slots = r.slots := by
      unfold slotSetPayload
      split <;> rfl
    have hcap : (r.slotSetPayload token payload).capacity = r.capacity := by
      unfold slotSetPayload
      split <;> rfl
    rw [hslots] at hgen hstate
    rw [hcap] at hlt
    -- the token is current, so its payload has been stored
    have hpayload : ((r.slotSetPayload token payload).locals token.index).payload =
        some payload := by
      unfold slotSetPayload
      rw [if_pos (by simp [isCurrentActive, hlt, hgen, hstate])]
      simp [modifyLocal, setLocal]
    split
    · refine hset.of_slot token.index ?_ ?_ ?_
      · intro j hj
        simp [modifyLocal, setLocal, setSlot, hj]
      · simpa [modifyLocal, setLocal, setSlot] using hset.generation_lt token.index
      · intro _
        simp [modifyLocal, setLocal, setSlot, hpayload]
    · refine hset.of_slot token.index ?_ (hset.generation_lt _) ?_
      · intro j hj
        simp [modifyLocal, setLocal, hj]
      · intro hflight
        refine absurd hflight ?_
        rw [show ((modifyLocal (r.slotSetPayload token payload) token _).slots token.index).state =
          .reserved by simpa [modifyLocal, setLocal, hslots] using hstate]
        exact not_isInFlight_reserved
  · exact hset

theorem Inv.remove [Inhabited Data] {r : OpRegistry Op Payload Data} (h : Inv r) (token : OpToken) :
    Inv (r.remove token) := by
  unfold OpRegistry.remove
  split
  · exact h
  · simp only
    split
    · exact h
    · refine h.of_slot token.index ?_ ?_ ?_
      · intro j hj
        simp [removeAtIndex, OpRegistry.pushFree, setSlot, setLocal, hj]
      · have hgen : ((r.slots token.index).free).generation =
            (r.slots token.index).generation := by
          unfold SlotData.free
          split <;> rfl
        simpa [removeAtIndex, OpRegistry.pushFree, setSlot, setLocal, hgen] using
          h.generation_lt token.index
      · intro hflight
        refine absurd hflight ?_
        rw [show (((removeAtIndex r token.index).slots token.index).state) =
          ((r.slots token.index).free).state by
            simp [removeAtIndex, OpRegistry.pushFree, setSlot, setLocal]]
        unfold SlotData.free
        split
        · rename_i hready
          rw [hready]
          exact not_isInFlight_ready
        · exact not_isInFlight_idle

theorem Inv.tryTakeRecord {r : OpRegistry Op Payload Data} (h : Inv r) (token : OpToken) :
    Inv (r.tryTakeRecord token).1 := by
  unfold OpRegistry.tryTakeRecord
  simp only
  split
  · refine h.of_slot token.index ?_ ?_ ?_
    · intro j hj
      simp [setSlot, hj]
    · simpa [setSlot] using nextGeneration_lt _
    · intro hflight
      refine absurd hflight ?_
      simpa [setSlot] using not_isInFlight_idle
  · exact h

theorem Inv.markOrphaned {r : OpRegistry Op Payload Data} (h : Inv r) (token : OpToken) :
    Inv (r.markOrphaned token) := by
  unfold OpRegistry.markOrphaned
  simp only
  split
  · rename_i hwaiting
    refine h.of_slot token.index ?_ ?_ ?_
    · intro j hj
      simp [setSlot, hj]
    · simpa [setSlot] using h.generation_lt token.index
    · intro _
      exact h.owned token.index (Or.inl hwaiting.2.2)
  · exact h.tryTakeRecord token

theorem Inv.acceptKernel [Inhabited Data] {r : OpRegistry Op Payload Data} (h : Inv r) (raw : Nat) (res : Int)
    (flags : Nat) : Inv (r.acceptKernel raw res flags) := by
  unfold OpRegistry.acceptKernel
  split
  · rename_i token _
    split
    · rename_i index hview
      obtain ⟨hlt, hgen, hstate⟩ := checkedSlotView_eq_valid hview
      split
      · rename_i payload _
        refine Inv.remove ?_ token
        refine h.of_slot token.index ?_ ?_ ?_
        · intro j hj
          simp [recordCompletion, modifyLocal, setLocal, setSlot, hlt, hgen, hstate, hj]
        · simpa [recordCompletion, modifyLocal, setLocal, setSlot, hlt, hgen, hstate] using
            token.generation_lt
        · intro hflight
          refine absurd hflight ?_
          simpa [recordCompletion, modifyLocal, setLocal, setSlot, hlt, hgen, hstate] using
            not_isInFlight_ready
      · exact h
    · exact h.remove token
    · exact h
  · exact h
  · exact h

/-- Every call keeps the invariant. -/
theorem Inv.step [Inhabited Data] {r r' : OpRegistry Op Payload Data} {call : Call Op Payload Data} (h : Inv r)
    (hs : Step r call r') : Inv r' := by
  cases hs with
  | alloc hrun => exact h.alloc hrun
  | submit token op payload accepted => exact h.submit token op payload accepted
  | complete raw res flags => exact h.acceptKernel raw res flags
  | take token => exact h.tryTakeRecord token
  | orphan token => exact h.markOrphaned token
  | remove token => exact h.remove token

/-! ## Exact routing -/

/-- The slot of an operation in flight is seen as such under its own token. -/
theorem Inv.checkedSlotView_inFlight {r : OpRegistry Op Payload Data} (h : Inv r) {token : OpToken}
    (hflight : InFlight r token) :
    r.checkedSlotView token = some (.valid .inFlightWaiting token.index) ∨
      r.checkedSlotView token = some (.valid .inFlightOrphaned token.index) := by
  obtain ⟨hlt, hgen, hstate⟩ := hflight
  obtain ⟨hop, hpayload⟩ := h.owned token.index hstate
  unfold checkedSlotView
  rw [if_neg (Nat.not_le.mpr hlt)]
  rcases hstate with hstate | hstate
  · left
    simp [hgen, hstate, hop, hpayload]
  · right
    simp [hgen, hstate, hop, hpayload]

/-- The completion of an operation whose generation does not fit is stale. -/
theorem routeKernel_stale {r : OpRegistry Op Payload Data} {token : OpToken}
    (hflight : InFlight r token) (hbig : 2 ^ 15 ≤ token.generation) :
    ∃ snapshot, r.routeKernel (CompletionToken.user token) = some (.stale snapshot) := by
  obtain ⟨hlt, hgen, _⟩ := hflight
  have hmod : token.generation % 2 ^ 15 < 2 ^ 15 := Nat.mod_lt _ (Nat.two_pow_pos 15)
  unfold routeKernel
  rw [CompletionToken.classify_user]
  simp only [checkedSlotView]
  rw [if_neg (Nat.not_le.mpr hlt), if_pos (by rw [hgen]; omega)]
  exact ⟨_, rfl⟩

/-- **When kernel completions are routed exactly.**  After every run of a registry,
the completion of an operation in flight is classified as its own token and reaches
its live slot if and only if the generation of the token fits into 15 bits. -/
theorem routedExactly_iff [Inhabited Data] {capacity : Nat} {r : OpRegistry Op Payload Data}
    (h : Run Step Always (fun r => r = new capacity) r) {token : OpToken}
    (hflight : InFlight r token) : RoutedExactly r token ↔ token.generation < 2 ^ 15 := by
  have hinv : Inv r := by
    refine h.invariant ?_ fun _ _ _ hinv _ hs => hinv.step hs
    rintro r rfl
    exact inv_new capacity
  have hclass := CompletionToken.classify_user_eq_iff token
  refine ⟨fun hrouted => hclass.mp hrouted.1, fun hsmall => ⟨hclass.mpr hsmall, ?_⟩⟩
  unfold routeKernel
  rw [hclass.mpr hsmall]
  exact hinv.checkedSlotView_inFlight hflight

/-! ## A slot that has been reused often -/

/-- A registry with one slot, which is free and has the given generation. -/
def recycled (generation : Nat) : OpRegistry Unit Unit Unit :=
  { capacity := 1
    slots := Function.update (fun _ => SlotData.new) 0
      { generation := generation, state := .idle, nextFree := none, completionData := none }
    remoteFreeHead := some 0
    readyCompletionCount := 0
    locals := Function.update
      (fun _ => { op := none, payload := none, platformData := (), active := false,
                  generation := 0 }) 0
      { op := none, payload := none, platformData := (), active := false,
        generation := generation }
    localFreeHead := none
    activeCount := 0 }

/-- The same registry once its slot has been allocated. -/
def reservedSlot (generation : Nat) : OpRegistry Unit Unit Unit :=
  { recycled generation with
    slots := Function.update (fun _ => SlotData.new) 0
      { generation := generation, state := .reserved, nextFree := none, completionData := none }
    remoteFreeHead := none
    locals := Function.update
      (fun _ => { op := none, payload := none, platformData := (), active := false,
                  generation := 0 }) 0
      { op := none, payload := none, platformData := (), active := true,
        generation := generation }
    activeCount := 1 }

/-- The token of the only slot. -/
def tokenOf (generation : Nat) (h : generation < 2 ^ 32) : OpToken :=
  ⟨0, generation, indexLimit_pos, h⟩

theorem new_one : (new 1 : OpRegistry Unit Unit Unit) = recycled 0 := by
  unfold new recycled
  simp [List.range_succ, OpRegistry.pushFree, setSlot, SlotData.new]

theorem alloc_recycled {generation : Nat} (h : generation + 1 < 2 ^ 32) :
    (recycled generation).alloc () =
      some (reservedSlot (generation + 1), .ok { index := 0, generation := generation + 1 }) := by
  simp [alloc, allocLoop, OpRegistry.reserve, recycled, reservedSlot, setSlot, setLocal,
    nextGeneration_of_lt h]

theorem remove_reservedSlot {generation : Nat} (h : generation < 2 ^ 32) :
    (reservedSlot generation).remove (tokenOf generation h) = recycled generation := by
  simp [OpRegistry.remove, removeAtIndex, OpRegistry.pushFree, recycled, reservedSlot, setSlot,
    setLocal, tokenOf, SlotData.free]

/-- Allocating and removing over and over, the generation of the slot climbs. -/
theorem run_recycled (generation : Nat) (h : generation < 2 ^ 32) :
    Run Step Always (fun r => r = new 1) (recycled generation) := by
  induction generation with
  | zero => exact Run.start new_one.symm
  | succ generation ih =>
    have hreserved := (ih (by omega)).next (.alloc ()) trivial (Step.alloc (alloc_recycled h))
    have hremoved := hreserved.next (.remove (tokenOf (generation + 1) h)) trivial
      (Step.remove _ _)
    rw [remove_reservedSlot] at hremoved
    exact hremoved

/-- An operation submitted to the slot is in flight under the slot's generation. -/
theorem run_inFlight (generation : Nat) (h : generation + 1 < 2 ^ 32) :
    Run Step Always (fun r => r = new 1)
        ((reservedSlot (generation + 1)).submit (tokenOf (generation + 1) h) () () true) ∧
      InFlight ((reservedSlot (generation + 1)).submit (tokenOf (generation + 1) h) () () true)
        (tokenOf (generation + 1) h) := by
  have hreserved := (run_recycled generation (by omega)).next (.alloc ()) trivial
    (Step.alloc (alloc_recycled h))
  refine ⟨hreserved.next _ trivial (Step.submit _ _ _ _ _), ?_⟩
  simp [InFlight, IsInFlight, OpRegistry.submit, slotSetPayload, submitSqe, isCurrentActive,
    checkedSlotView, reservedSlot, recycled, modifyLocal, setLocal, setSlot, tokenOf]

/-- The first operation of a registry with one slot is routed exactly. -/
theorem routedExactly_first :
    ∃ r : OpRegistry Unit Unit Unit, Run Step Always (fun r => r = new 1) r ∧
      InFlight r (tokenOf 1 (by decide)) ∧ RoutedExactly r (tokenOf 1 (by decide)) := by
  obtain ⟨hrun, hflight⟩ := run_inFlight 0 (by decide)
  exact ⟨_, hrun, hflight, (routedExactly_iff hrun hflight).mpr (by decide)⟩

/-- An operation whose slot has reached generation `2 ^ 15` is in flight, and its
completion is taken for one of generation `0`. -/
theorem routed_stale_at_limit :
    ∃ r : OpRegistry Unit Unit Unit, Run Step Always (fun r => r = new 1) r ∧
      InFlight r (tokenOf (2 ^ 15) (by decide)) ∧
      ¬ RoutedExactly r (tokenOf (2 ^ 15) (by decide)) ∧
      ∃ snapshot, r.routeKernel (CompletionToken.user (tokenOf (2 ^ 15) (by decide))) =
        some (.stale snapshot) := by
  obtain ⟨hrun, hflight⟩ := run_inFlight (2 ^ 15 - 1) (by decide)
  refine ⟨_, hrun, hflight, ?_, routeKernel_stale hflight (by decide)⟩
  rintro ⟨hclass, _⟩
  exact absurd ((CompletionToken.classify_user_eq_iff _).mp hclass) (by decide)

end Veloq.Driver.OpRegistry
