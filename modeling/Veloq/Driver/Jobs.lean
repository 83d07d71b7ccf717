import Veloq.Driver.CompletionFates
set_option autoImplicit false

/-!
# Driver: the operations that are in flight

What the calls of a registry do to the operations in flight: a submission puts one into its slot,
the consumer may orphan it, and a completion takes it out.  Everything else leaves them alone.
-/

namespace Veloq.Driver.OpRegistry

variable {Op Payload Data : Type}

/-- An operation in flight: the generation of its slot, whether it is orphaned, and its data. -/
structure Job (Op Data : Type) where
  generation : Nat
  orphaned : Bool
  op : Op
  data : Data

/-- The operation in flight in a slot. -/
def job (r : OpRegistry Op Payload Data) (idx : Nat) : Option (Job Op Data) :=
  match (r.slots idx).state, (r.locals idx).op with
  | .inFlightWaiting, some op =>
      some ⟨(r.slots idx).generation, false, op, (r.locals idx).platformData⟩
  | .inFlightOrphaned, some op =>
      some ⟨(r.slots idx).generation, true, op, (r.locals idx).platformData⟩
  | _, _ => none

/-- Every slot has its place, an operation in flight has all its parts, and a slot without one
has no data. -/
structure Tended [Inhabited Data] (r : OpRegistry Op Payload Data) : Prop where
  parted : ∃ free shared, Parted r free [] shared
  inv : Inv r
  current : ∀ idx, IsInFlight (r.slots idx).state → (r.locals idx).active = true ∧
    (r.locals idx).generation = (r.slots idx).generation
  resting : ∀ idx, ¬ IsInFlight (r.slots idx).state → (r.locals idx).platformData = default

/-- The slot `idx` has the operation `j` in flight afterwards, and the others what they had. -/
structure Becomes [Inhabited Data] (r r' : OpRegistry Op Payload Data) (idx : Nat)
    (j : Option (Job Op Data)) : Prop where
  tended : Tended r'
  self : r'.job idx = j
  other : ∀ i, i ≠ idx → r'.job i = r.job i

section

variable {r r' r'' : OpRegistry Op Payload Data} {idx : Nat} {token : OpToken}

/-! ## Jobs -/

theorem job_eq_none (h : ¬ IsInFlight (r.slots idx).state) : r.job idx = none := by
  unfold job
  split
  · rename_i hstate _
    exact absurd (.inl hstate) h
  · rename_i hstate _
    exact absurd (.inr hstate) h
  · rfl

theorem isInFlight_of_job {j : Job Op Data} (h : r.job idx = some j) :
    IsInFlight (r.slots idx).state := by
  rcases Classical.em (IsInFlight (r.slots idx).state) with hflight | hflight
  · exact hflight
  · rw [job_eq_none hflight] at h
    cases h

/-- The parts of an operation in flight. -/
theorem job_eq_some {j : Job Op Data} (h : r.job idx = some j) :
    (r.slots idx).state = (if j.orphaned then .inFlightOrphaned else .inFlightWaiting) ∧
    (r.slots idx).generation = j.generation ∧ (r.locals idx).op = some j.op ∧
    (r.locals idx).platformData = j.data := by
  unfold job at h
  split at h
  · rename_i hstate hop
    cases h
    exact ⟨hstate, rfl, hop, rfl⟩
  · rename_i hstate hop
    cases h
    exact ⟨hstate, rfl, hop, rfl⟩
  · cases h

theorem job_of_waiting {op : Op} (hstate : (r.slots idx).state = .inFlightWaiting)
    (hop : (r.locals idx).op = some op) :
    r.job idx = some ⟨(r.slots idx).generation, false, op, (r.locals idx).platformData⟩ := by
  unfold job
  rw [hstate, hop]

theorem job_of_orphaned {op : Op} (hstate : (r.slots idx).state = .inFlightOrphaned)
    (hop : (r.locals idx).op = some op) :
    r.job idx = some ⟨(r.slots idx).generation, true, op, (r.locals idx).platformData⟩ := by
  unfold job
  rw [hstate, hop]

/-- Only the state, the generation, the operation and its data matter. -/
theorem job_congr (hstate : (r'.slots idx).state = (r.slots idx).state)
    (hgen : (r'.slots idx).generation = (r.slots idx).generation)
    (hlocal : r'.locals idx = r.locals idx) : r'.job idx = r.job idx := by
  unfold job
  rw [hstate, hgen, hlocal]

variable [Inhabited Data]

/-- An operation in flight under the generation of `token` holds its slot. -/
theorem Tended.holds (h : Tended r) {j : Job Op Data} (hjob : r.job token.index = some j)
    (hgen : j.generation = token.generation) : r.holds token = true := by
  obtain ⟨free, shared, hparted⟩ := h.parted
  obtain ⟨hactive, hlocal⟩ := h.current _ (isInFlight_of_job hjob)
  unfold OpRegistry.holds
  rw [hactive, hlocal, (job_eq_some hjob).2.1, hgen, decide_eq_true (hparted.active_lt _ hactive),
    decide_eq_true rfl]
  rfl

theorem Tended.index_lt (h : Tended r) {j : Job Op Data} (hjob : r.job idx = some j) :
    idx < r.capacity := by
  obtain ⟨free, shared, hparted⟩ := h.parted
  exact hparted.active_lt idx (h.current idx (isInFlight_of_job hjob)).1

/-! ## Views -/

/-- What a view of `token` says about the operation in flight. -/
inductive Viewed (r : OpRegistry Op Payload Data) (token : OpToken) :
    Option CheckedSlotView → Prop where
  | waiting {j : Job Op Data} {payload : Payload} : r.job token.index = some j →
      j.generation = token.generation → j.orphaned = false →
      (r.locals token.index).payload = some payload →
      Viewed r token (some (.valid .inFlightWaiting token.index))
  | orphaned {j : Job Op Data} {payload : Payload} : r.job token.index = some j →
      j.generation = token.generation → j.orphaned = true →
      (r.locals token.index).payload = some payload →
      Viewed r token (some (.valid .inFlightOrphaned token.index))
  | reserved : r.job token.index = none → (r.locals token.index).op = none →
      (r.slots token.index).generation = token.generation → token.index < r.capacity →
      (r.slots token.index).state = .reserved →
      Viewed r token (some (.valid .reserved token.index))
  | missing {index generation : Nat} : r.job token.index = none →
      Viewed r token (some (.missing index generation))
  | empty {snapshot : SlotSnapshot} : r.job token.index = none →
      Viewed r token (some (.empty snapshot))
  | stale {snapshot : SlotSnapshot} :
      (∀ j, r.job token.index = some j → j.generation ≠ token.generation) →
      Viewed r token (some (.stale snapshot))
  | corrupt : r.job token.index = none → Viewed r token none

theorem Tended.viewed (h : Tended r) (token : OpToken) :
    Viewed r token (r.checkedSlotView token) := by
  unfold checkedSlotView
  by_cases hlt : r.capacity ≤ token.index
  · rw [if_pos hlt]
    refine .missing ?_
    cases hjob : r.job token.index with
    | none => rfl
    | some j => exact absurd (h.index_lt hjob) (Nat.not_lt.mpr hlt)
  rw [if_neg hlt]
  dsimp only
  by_cases hgen : (r.slots token.index).generation = token.generation
  · rw [if_neg (not_not.mpr hgen)]
    have hnone : ∀ {state : SlotState}, (r.slots token.index).state = state →
        ¬ IsInFlight state → r.job token.index = none := fun hstate hflight =>
      job_eq_none (hstate ▸ hflight)
    cases hstate : (r.slots token.index).state with
    | inFlightWaiting =>
      obtain ⟨hop, hpayload⟩ := h.inv.owned token.index (.inl hstate)
      obtain ⟨op, hop'⟩ := Option.isSome_iff_exists.mp hop
      obtain ⟨payload, hpayload'⟩ := Option.isSome_iff_exists.mp hpayload
      simp only [hop, hpayload, Bool.and_self, if_true]
      exact .waiting (job_of_waiting hstate hop') hgen rfl hpayload'
    | inFlightOrphaned =>
      obtain ⟨hop, hpayload⟩ := h.inv.owned token.index (.inr hstate)
      obtain ⟨op, hop'⟩ := Option.isSome_iff_exists.mp hop
      obtain ⟨payload, hpayload'⟩ := Option.isSome_iff_exists.mp hpayload
      simp only [hop, hpayload, Bool.and_self, if_true]
      exact .orphaned (job_of_orphaned hstate hop') hgen rfl hpayload'
    | idle => exact .empty (hnone hstate not_isInFlight_idle)
    | inFlightReady => exact .empty (hnone hstate not_isInFlight_ready)
    | finalizing => exact .empty (hnone hstate (by rintro (h | h) <;> cases h))
    | reserved =>
      dsimp only
      have hjob := hnone hstate not_isInFlight_reserved
      split
      · rename_i hop
        exact .reserved hjob (Option.isNone_iff_eq_none.mp hop) hgen (Nat.not_le.mp hlt) hstate
      · exact .corrupt hjob
  · rw [if_pos hgen]
    refine .stale fun j hjob heq => hgen ?_
    rw [(job_eq_some hjob).2.1, heq]

/-! ## Changes of one slot -/

/-- A change of the slot `idx` that keeps the free lists. -/
theorem Tended.becomes (h : Tended r) {j : Option (Job Op Data)}
    (hparted : ∃ free shared, Parted r' free [] shared)
    (hother : ∀ i, i ≠ idx → (r'.slots i).generation = (r.slots i).generation ∧
      (r'.slots i).state = (r.slots i).state ∧ r'.locals i = r.locals i)
    (hgen : (r'.slots idx).generation < 2 ^ 32)
    (howned : IsInFlight (r'.slots idx).state → (r'.locals idx).op.isSome = true ∧
      (r'.locals idx).payload.isSome = true ∧ (r'.locals idx).active = true ∧
      (r'.locals idx).generation = (r'.slots idx).generation)
    (hresting : ¬ IsInFlight (r'.slots idx).state → (r'.locals idx).platformData = default)
    (hself : r'.job idx = j) : Becomes r r' idx j := by
  refine ⟨⟨hparted, h.inv.of_slot idx hother hgen fun hflight =>
    ⟨(howned hflight).1, (howned hflight).2.1⟩, fun i hflight => ?_, fun i hflight => ?_⟩, hself,
    fun i hi => job_congr (hother i hi).2.1 (hother i hi).1 (hother i hi).2.2⟩
  · rcases Classical.em (i = idx) with rfl | hi
    · exact (howned hflight).2.2
    · obtain ⟨hgen', hstate, hlocal⟩ := hother i hi
      rw [hstate] at hflight
      rw [hlocal, hgen']
      exact h.current i hflight
  · rcases Classical.em (i = idx) with rfl | hi
    · exact hresting hflight
    · obtain ⟨hgen', hstate, hlocal⟩ := hother i hi
      rw [hstate] at hflight
      rw [hlocal]
      exact h.resting i hflight

theorem Becomes.refl (h : Tended r) (idx : Nat) : Becomes r r idx (r.job idx) :=
  ⟨h, rfl, fun _ _ => rfl⟩

theorem Becomes.trans {j j' : Option (Job Op Data)} (h : Becomes r r' idx j)
    (h' : Becomes r' r'' idx j') : Becomes r r'' idx j' :=
  ⟨h'.tended, h'.self, fun i hi => (h'.other i hi).trans (h.other i hi)⟩

/-- A slot that keeps what it had. -/
theorem Becomes.job_eq (h : Becomes r r' idx (r.job idx)) (i : Nat) : r'.job i = r.job i := by
  rcases Classical.em (i = idx) with rfl | hi
  · exact h.self
  · exact h.other i hi

/-! ## Allocation -/

/-- What `alloc` does to the states of the slots. -/
structure Reserved (r r' : OpRegistry Op Payload Data) (data : Data)
    (result : Except Data OpHandle) : Prop where
  capacity : r'.capacity = r.capacity
  other : ∀ i, (∀ handle, result = .ok handle → i ≠ handle.index) →
    (r'.slots i).generation = (r.slots i).generation ∧ (r'.slots i).state = (r.slots i).state
  given : ∀ handle, result = .ok handle → handle.index < r.capacity ∧
    (r.slots handle.index).state = .idle ∧ (r'.slots handle.index).state = .reserved ∧
    (r'.slots handle.index).generation = handle.generation ∧
    r'.locals handle.index = ⟨none, none, data, true, handle.generation⟩

omit [Inhabited Data] in
theorem foldl_pushFree_core (r : OpRegistry Op Payload Data) (idxs : List Nat) (i : Nat) :
    (idxs.foldl OpRegistry.pushFree r).capacity = r.capacity ∧
    ((idxs.foldl OpRegistry.pushFree r).slots i).generation = (r.slots i).generation ∧
    ((idxs.foldl OpRegistry.pushFree r).slots i).state = (r.slots i).state := by
  induction idxs generalizing r with
  | nil => exact ⟨rfl, rfl, rfl⟩
  | cons idx idxs ih =>
    obtain ⟨hcapacity, hgen, hstate⟩ := ih (r.pushFree idx)
    have hslot : ((r.pushFree idx).slots i).generation = (r.slots i).generation ∧
        ((r.pushFree idx).slots i).state = (r.slots i).state := by
      rcases Classical.em (i = idx) with rfl | hi
      · simp [OpRegistry.pushFree, setSlot]
      · simp [OpRegistry.pushFree, setSlot, hi]
    exact ⟨hcapacity, hgen.trans hslot.1, hstate.trans hslot.2⟩

omit [Inhabited Data] in
theorem reserved_allocLoop (fuel : Nat) {deferred : List Nat} {data : Data}
    {result : Except Data OpHandle}
    (hrun : OpRegistry.allocLoop fuel r deferred data = some (r', result)) :
    Reserved r r' data result := by
  induction fuel generalizing r deferred with
  | zero => cases hrun
  | succ fuel ih =>
    rw [OpRegistry.allocLoop] at hrun
    cases hhead : r.localFreeHead with
    | none =>
      simp only [hhead] at hrun
      cases hrun
      exact ⟨(foldl_pushFree_core r deferred 0).1, fun i _ => (foldl_pushFree_core r deferred i).2,
        fun handle hok => by cases hok⟩
    | some idx =>
      simp only [hhead] at hrun
      split at hrun
      · cases hrun
      · rename_i hlt
        split at hrun
        · obtain ⟨hcapacity, hother, hgiven⟩ := ih hrun
          exact ⟨hcapacity, hother, hgiven⟩
        · rename_i hidle
          cases hrun
          refine ⟨(foldl_pushFree_core _ deferred 0).1, fun i hi => ?_, fun handle hok => ?_⟩
          · obtain ⟨-, hgen, hstate⟩ := foldl_pushFree_core
              (OpRegistry.reserve { r with localFreeHead := (r.slots idx).nextFree } idx data).1
              deferred i
            have hne : i ≠ idx := hi _ rfl
            rw [hgen, hstate]
            simp [OpRegistry.reserve, setSlot, setLocal, hne]
          · cases hok
            obtain ⟨-, hgen, hstate⟩ := foldl_pushFree_core
              (OpRegistry.reserve { r with localFreeHead := (r.slots idx).nextFree } idx data).1
              deferred idx
            refine ⟨Nat.not_le.mp hlt, not_not.mp hidle, hstate.trans ?_, hgen.trans ?_,
              (congrFun (foldl_pushFree_locals _ deferred) idx).trans ?_⟩
            · simp [OpRegistry.reserve, setSlot, setLocal]
            · simp [OpRegistry.reserve, setSlot, setLocal]
            · simp [OpRegistry.reserve, setSlot, setLocal]

omit [Inhabited Data] in
theorem reserved_alloc {data : Data} {result : Except Data OpHandle}
    (hrun : r.alloc data = some (r', result)) : Reserved r r' data result := by
  unfold OpRegistry.alloc at hrun
  obtain ⟨hcapacity, hother, hgiven⟩ := reserved_allocLoop _ hrun
  cases hhead : r.localFreeHead with
  | none =>
    simp only [hhead] at hcapacity hother hgiven
    exact ⟨hcapacity, hother, hgiven⟩
  | some idx =>
    simp only [hhead] at hcapacity hother hgiven
    exact ⟨hcapacity, hother, hgiven⟩

/-- A slot that was just reserved for `token`. -/
structure Vacant (r : OpRegistry Op Payload Data) (token : OpToken) : Prop where
  index_lt : token.index < r.capacity
  state : (r.slots token.index).state = .reserved
  generation : (r.slots token.index).generation = token.generation
  active : (r.locals token.index).active = true
  localGeneration : (r.locals token.index).generation = token.generation

/-- Nothing in flight changes, whatever `alloc` finds. -/
theorem Tended.alloc (h : Tended r) {result : Except Data OpHandle}
    (hrun : r.alloc default = some (r', result)) :
    Tended r' ∧ (∀ i, r'.job i = r.job i) ∧ ∀ handle, result = .ok handle →
      r.job handle.index = none ∧ (r'.locals handle.index).op = none ∧
      ∀ token : OpToken, token.index = handle.index → token.generation = handle.generation →
        Vacant r' token := by
  obtain ⟨free, shared, hparted⟩ := h.parted
  obtain ⟨r₁, result₁, hrun₁, hallocated⟩ := hparted.alloc default
  obtain ⟨rfl, rfl⟩ : r' = r₁ ∧ result = result₁ :=
    Prod.mk.inj (Option.some.inj (hrun.symm.trans hrun₁))
  obtain ⟨hcapacity, hother, hgiven⟩ := reserved_alloc hrun
  have hinv := h.inv.alloc hrun
  cases result with
  | error data =>
    have hlocals := hallocated.failed data rfl
    have hcore : ∀ i, (r'.slots i).generation = (r.slots i).generation ∧
        (r'.slots i).state = (r.slots i).state := fun i => hother i fun _ hok => by cases hok
    refine ⟨⟨hallocated.parted, hinv, fun i hflight => ?_, fun i hflight => ?_⟩, fun i => ?_,
      fun handle hok => by cases hok⟩
    · rw [(hcore i).2] at hflight
      rw [hlocals, (hcore i).1]
      exact h.current i hflight
    · rw [(hcore i).2] at hflight
      rw [hlocals]
      exact h.resting i hflight
    · exact job_congr (hcore i).2 (hcore i).1 (congrFun hlocals i)
  | ok handle =>
    obtain ⟨hlt, hidle, hreserved, hgen, hlocal⟩ := hgiven handle rfl
    obtain ⟨-, -, -, hlocals⟩ := hallocated.given handle rfl
    have hcore : ∀ i, i ≠ handle.index → (r'.slots i).generation = (r.slots i).generation ∧
        (r'.slots i).state = (r.slots i).state := fun i hi => hother i fun _ hok => by
      cases hok
      exact hi
    have hbefore : r.job handle.index = none := job_eq_none (hidle ▸ not_isInFlight_idle)
    have hnot : ¬ IsInFlight (r'.slots handle.index).state := hreserved ▸ not_isInFlight_reserved
    have hbecomes : Becomes r r' handle.index none := by
      refine h.becomes hallocated.parted (fun i hi => ⟨(hcore i hi).1, (hcore i hi).2,
        hlocals i hi⟩) (hinv.generation_lt _) (fun hflight => absurd hflight hnot) (fun _ => ?_)
        (job_eq_none hnot)
      rw [hlocal]
    refine ⟨hbecomes.tended, ?_, fun handle' hok => ?_⟩
    · rw [← hbefore] at hbecomes
      exact hbecomes.job_eq
    · cases hok
      refine ⟨hbefore, by rw [hlocal], fun token hindex htoken => ?_⟩
      rw [← hindex] at hlt hreserved hgen hlocal
      exact ⟨hcapacity ▸ hlt, hreserved, hgen.trans htoken.symm, by rw [hlocal], by
        rw [hlocal]
        exact htoken.symm⟩

/-! ## Submission -/

theorem Tended.parted_of_sameOwners (h : Tended r) (hsame : SameOwners r r') :
    ∃ free shared, Parted r' free [] shared := by
  obtain ⟨free, shared, hparted⟩ := h.parted
  exact ⟨free, shared, hparted.congr hsame⟩

omit [Inhabited Data] in
theorem setLocal_of_ne {slot : LocalSlot Op Payload Data} {i : Nat} (hi : i ≠ idx) :
    (r.setLocal idx slot).locals i = r.locals i := Function.update_of_ne hi ..

omit [Inhabited Data] in
theorem setLocal_self {slot : LocalSlot Op Payload Data} :
    (r.setLocal idx slot).locals idx = slot := Function.update_self ..

omit [Inhabited Data] in
theorem setSlot_of_ne {slot : SlotData Payload} {i : Nat} (hi : i ≠ idx) :
    (r.setSlot idx slot).slots i = r.slots i := Function.update_of_ne hi ..

omit [Inhabited Data] in
theorem setSlot_self {slot : SlotData Payload} : (r.setSlot idx slot).slots idx = slot :=
  Function.update_self ..

/-- The operation and the payload of a slot that is not in flight may change. -/
theorem Tended.setParts (h : Tended r) (hstate : ¬ IsInFlight (r.slots idx).state)
    {slot : LocalSlot Op Payload Data} (hactive : slot.active = (r.locals idx).active)
    (hgeneration : slot.generation = (r.locals idx).generation)
    (hdata : slot.platformData = (r.locals idx).platformData) :
    Becomes r (r.setLocal idx slot) idx none := by
  refine h.becomes (h.parted_of_sameOwners (sameOwners_setLocal hactive hgeneration))
    (fun i hi => ⟨rfl, rfl, setLocal_of_ne hi⟩) (h.inv.generation_lt idx)
    (fun hflight => absurd hflight hstate) (fun _ => ?_) (job_eq_none hstate)
  rw [setLocal_self, hdata]
  exact h.resting idx hstate

omit [Inhabited Data] in
/-- Such a change leaves the slot reserved. -/
theorem Vacant.setParts (h : Vacant r token) {slot : LocalSlot Op Payload Data}
    (hactive : slot.active = (r.locals token.index).active)
    (hgeneration : slot.generation = (r.locals token.index).generation) :
    Vacant (r.setLocal token.index slot) token := by
  refine ⟨h.index_lt, h.state, h.generation, ?_, ?_⟩
  · rw [setLocal_self, hactive]
    exact h.active
  · rw [setLocal_self, hgeneration]
    exact h.localGeneration

omit [Inhabited Data] in
theorem Vacant.not_inFlight (h : Vacant r token) : ¬ IsInFlight (r.slots token.index).state := by
  rw [h.state]
  exact not_isInFlight_reserved

omit [Inhabited Data] in
theorem Vacant.isCurrentActive (h : Vacant r token) : r.isCurrentActive token = true := by
  unfold OpRegistry.isCurrentActive
  rw [decide_eq_true h.index_lt, decide_eq_true h.generation, h.state]
  rfl

/-- A reserved slot with its operation and its payload starts waiting. -/
theorem Tended.start (h : Tended r) (hvacant : Vacant r token) {op : Op} {payload : Payload}
    (hop : (r.locals token.index).op = some op)
    (hpayload : (r.locals token.index).payload = some payload) :
    Becomes r (r.setSlot token.index { r.slots token.index with state := .inFlightWaiting })
      token.index (some ⟨token.generation, false, op, default⟩) := by
  have hself : (r.setSlot token.index { r.slots token.index with
      state := .inFlightWaiting }).slots token.index =
        { r.slots token.index with state := .inFlightWaiting } := setSlot_self
  refine h.becomes (h.parted_of_sameOwners (sameOwners_setSlot rfl))
    (fun i hi => by rw [setSlot_of_ne hi]; exact ⟨rfl, rfl, rfl⟩) ?_ (fun _ => ?_)
    (fun hflight => ?_) ?_
  · rw [hself]
    exact h.inv.generation_lt token.index
  · refine ⟨Option.isSome_iff_exists.mpr ⟨op, hop⟩, Option.isSome_iff_exists.mpr ⟨payload, hpayload⟩,
      hvacant.active, ?_⟩
    rw [hself]
    exact hvacant.localGeneration.trans hvacant.generation.symm
  · refine absurd ?_ hflight
    rw [hself]
    exact .inl rfl
  · refine (job_of_waiting (congrArg SlotData.state hself) hop).trans ?_
    rw [hself]
    show some (Job.mk (r.slots token.index).generation _ _ (r.locals token.index).platformData) = _
    rw [hvacant.generation, h.resting _ hvacant.not_inFlight]

/-- The data of an operation in flight changes. -/
theorem Tended.setData (h : Tended r) (token : OpToken) {j : Job Op Data}
    (hjob : r.job token.index = some j) (data : Data) :
    Becomes r (r.modifyLocal token fun slot => { slot with platformData := data }) token.index
      (some { j with data := data }) := by
  obtain ⟨hstate, hgen, hop, -⟩ := job_eq_some hjob
  have hflight := isInFlight_of_job hjob
  have hself : (r.modifyLocal token fun slot => { slot with platformData := data }).locals
      token.index = { r.locals token.index with platformData := data } := setLocal_self
  refine h.becomes (h.parted_of_sameOwners (sameOwners_setLocal rfl rfl))
    (fun i hi => ⟨rfl, rfl, setLocal_of_ne hi⟩) (h.inv.generation_lt _) (fun _ => ?_)
    (fun hnot => absurd hflight hnot) ?_
  · rw [hself]
    exact ⟨(h.inv.owned _ hflight).1, (h.inv.owned _ hflight).2, (h.current _ hflight).1,
      (h.current _ hflight).2⟩
  · have hop' : ((r.modifyLocal token fun slot => { slot with platformData := data }).locals
        token.index).op = some j.op := by
      rw [hself]
      exact hop
    obtain ⟨generation, orphaned, op, old⟩ := j
    cases orphaned with
    | false =>
      rw [job_of_waiting (r := r.modifyLocal token _) hstate hop', hself, ← hgen]
      rfl
    | true =>
      rw [job_of_orphaned (r := r.modifyLocal token _) hstate hop', hself, ← hgen]
      rfl

/-- The consumer gives an operation in flight up. -/
theorem Tended.orphan (h : Tended r) {j : Job Op Data} (hjob : r.job idx = some j) :
    Becomes r (r.setSlot idx { r.slots idx with state := .inFlightOrphaned }) idx
      (some { j with orphaned := true }) := by
  obtain ⟨-, hgen, hop, hdata⟩ := job_eq_some hjob
  have hflight := isInFlight_of_job hjob
  have hself : (r.setSlot idx { r.slots idx with state := .inFlightOrphaned }).slots idx =
      { r.slots idx with state := .inFlightOrphaned } := setSlot_self
  refine h.becomes (h.parted_of_sameOwners (sameOwners_setSlot rfl))
    (fun i hi => by rw [setSlot_of_ne hi]; exact ⟨rfl, rfl, rfl⟩) ?_ (fun _ => ?_)
    (fun hnot => ?_) ?_
  · rw [hself]
    exact h.inv.generation_lt idx
  · rw [hself]
    exact ⟨(h.inv.owned _ hflight).1, (h.inv.owned _ hflight).2, (h.current _ hflight).1,
      (h.current _ hflight).2⟩
  · refine absurd ?_ hnot
    rw [hself]
    exact .inr rfl
  · rw [job_of_orphaned (congrArg SlotData.state hself) hop, hself, ← hgen, ← hdata]
    rfl

/-! ## Removal -/

theorem removeAtIndex_slots (r : OpRegistry Op Payload Data) (idx : Nat) :
    ((r.removeAtIndex idx).slots idx).generation = (r.slots idx).generation ∧
    ((r.removeAtIndex idx).slots idx).state = (r.slots idx).free.state ∧
    (r.removeAtIndex idx).locals idx = { r.locals idx with
      active := false, op := none, payload := none, platformData := default } ∧
    ∀ i, i ≠ idx → ((r.removeAtIndex idx).slots i).generation = (r.slots i).generation ∧
      ((r.removeAtIndex idx).slots i).state = (r.slots i).state := by
  have hgen : (r.slots idx).free.generation = (r.slots idx).generation := by
    unfold SlotData.free
    split
    · rfl
    · rfl
  refine ⟨?_, ?_, ?_, fun i hi => ?_⟩
  · simp [removeAtIndex, OpRegistry.pushFree, setSlot, setLocal, hgen]
  · simp [removeAtIndex, OpRegistry.pushFree, setSlot, setLocal]
  · simp [removeAtIndex, OpRegistry.pushFree, setSlot, setLocal]
  · simp [removeAtIndex, OpRegistry.pushFree, setSlot, setLocal, hi]

omit [Inhabited Data] in
theorem not_isInFlight_free (slot : SlotData Payload) : ¬ IsInFlight slot.free.state := by
  unfold SlotData.free
  split
  · rename_i hready
    rw [hready]
    exact not_isInFlight_ready
  · exact not_isInFlight_idle

/-- The slot of `token` is given up; `taken` is the registry after a hook has had the slot. -/
theorem Tended.removed (h : Tended r) {taken : OpRegistry Op Payload Data}
    (hsame : SameOwners r taken) (hholds : taken.holds token = true)
    (hgen : (taken.slots token.index).generation = (r.slots token.index).generation)
    (hother : ∀ i, i ≠ token.index → (taken.slots i).generation = (r.slots i).generation ∧
      (taken.slots i).state = (r.slots i).state ∧ taken.locals i = r.locals i) :
    Becomes r (taken.remove token) token.index none := by
  obtain ⟨free, shared, hparted⟩ := h.parted_of_sameOwners hsame
  have hreleased := hparted.removeAtIndex (active_of_holds hholds)
  obtain ⟨hgen', hstate', hlocal', hslots'⟩ := removeAtIndex_slots taken token.index
  have hnot : ¬ IsInFlight ((taken.removeAtIndex token.index).slots token.index).state := by
    rw [hstate']
    exact not_isInFlight_free _
  rw [remove_eq, if_pos hholds]
  refine h.becomes hreleased.parted (fun i hi => ?_) ?_ (fun hflight => absurd hflight hnot)
    (fun _ => ?_) (job_eq_none hnot)
  · obtain ⟨hgen, hstate, hlocal⟩ := hother i hi
    exact ⟨(hslots' i hi).1.trans hgen, (hslots' i hi).2.trans hstate,
      (hreleased.other i hi).trans hlocal⟩
  · rw [hgen', hgen]
    exact h.inv.generation_lt _
  · rw [hlocal']

/-- A removal keeps the operations in flight, if there is none under its token. -/
theorem Tended.remove (h : Tended r) (hjob : r.job token.index = none) :
    Becomes r (r.remove token) token.index none := by
  rcases Classical.em (r.holds token = true) with hholds | hholds
  · exact h.removed (.refl r) hholds rfl fun _ _ => ⟨rfl, rfl, rfl⟩
  · rw [remove_eq, if_neg hholds, ← hjob]
    exact .refl h _

/-! ## Completion -/

omit [Inhabited Data] in
theorem holds_congr (hsame : SameOwners r r') : r'.holds token = r.holds token := by
  unfold OpRegistry.holds
  rw [hsame.capacity, hsame.active, hsame.generation]

/-- An operation in flight is cleaned up. -/
theorem Tended.cleanedUp (h : Tended r) {j : Job Op Data} (hjob : r.job token.index = some j)
    (hgen : j.generation = token.generation) :
    let taken := r.modifyLocal token fun slot => { slot with op := none, payload := none }
    taken.holds token = true ∧ Becomes r (taken.remove token) token.index none := by
  intro taken
  have hsame : SameOwners r taken := sameOwners_setLocal rfl rfl
  have hholds : taken.holds token = true := (holds_congr hsame).trans (h.holds hjob hgen)
  exact ⟨hholds, h.removed hsame hholds rfl fun i hi => ⟨rfl, rfl, setLocal_of_ne hi⟩⟩

/-- The completion of a waiting operation is recorded. -/
theorem Tended.recorded (h : Tended r) {j : Job Op Data} (hjob : r.job token.index = some j)
    (hgen : j.generation = token.generation) (hwaiting : j.orphaned = false)
    (record : CompletionRecord Payload) (htoken : record.token = token) :
    let taken := r.modifyLocal token fun slot => { slot with op := none, payload := none }
    taken.recordOutcome token = .recordedUser ∧
    (taken.recordCompletion record).holds token = true ∧
    Becomes r ((taken.recordCompletion record).remove token) token.index none := by
  intro taken
  subst htoken
  obtain ⟨hstate, hslot, -⟩ := job_eq_some hjob
  have hstate' : (r.slots record.token.index).state = .inFlightWaiting := by
    rw [hstate, hwaiting]
    rfl
  have hcond : record.token.index < taken.capacity ∧
      (taken.slots record.token.index).generation = record.token.generation ∧
      (taken.slots record.token.index).state = .inFlightWaiting :=
    ⟨h.index_lt hjob, hslot.trans hgen, hstate'⟩
  have hsame : SameOwners r taken := sameOwners_setLocal rfl rfl
  have hrecorded : SameOwners r (taken.recordCompletion record) :=
    hsame.trans (sameOwners_recordCompletion taken record)
  have hholds : (taken.recordCompletion record).holds record.token = true :=
    (holds_congr hrecorded).trans (h.holds hjob hgen)
  have hslots : (taken.recordCompletion record).slots = Function.update r.slots record.token.index
      { r.slots record.token.index with
        state := .inFlightReady, completionData := some record } := by
    unfold OpRegistry.recordCompletion
    dsimp only
    rw [if_pos hcond]
    rfl
  have hlocals : (taken.recordCompletion record).locals = taken.locals := by
    unfold OpRegistry.recordCompletion
    dsimp only
    rw [if_pos hcond]
    rfl
  refine ⟨recordOutcome_eq_recordedUser.mpr hcond, hholds,
    h.removed hrecorded hholds ?_ fun i hi => ?_⟩
  · rw [hslots, Function.update_self]
  · rw [hslots, Function.update_of_ne hi, hlocals]
    exact ⟨rfl, rfl, setLocal_of_ne hi⟩

/-! ## Consumers -/

/-- A record that is taken was no operation in flight. -/
theorem Tended.tryTakeRecord (h : Tended r) (token : OpToken) :
    Tended (r.tryTakeRecord token).1 ∧ ∀ i, (r.tryTakeRecord token).1.job i = r.job i := by
  have hparted := h.parted_of_sameOwners (sameOwners_tryTakeRecord r token)
  have hinv := h.inv.tryTakeRecord token
  revert hparted hinv
  unfold OpRegistry.tryTakeRecord
  dsimp only
  split
  · rename_i hready
    intro hparted hinv
    have hnot : ¬ IsInFlight (r.slots token.index).state := by
      rw [hready.2.2]
      exact not_isInFlight_ready
    have hjob := job_eq_none hnot
    set slot : SlotData Payload := { r.slots token.index with
      state := .idle, generation := nextGeneration token.generation, completionData := none }
    have hself : (r.setSlot token.index slot).slots token.index = slot := setSlot_self
    have hidle : ¬ IsInFlight ((r.setSlot token.index slot).slots token.index).state := by
      rw [hself]
      exact not_isInFlight_idle
    have hbecomes : Becomes r { r.setSlot token.index slot with
        readyCompletionCount := r.readyCompletionCount - 1 } token.index (r.job token.index) := by
      refine h.becomes hparted (fun i hi => ?_) (hinv.generation_lt _)
        (fun hflight => absurd hflight hidle) (fun _ => h.resting _ hnot)
        ((job_eq_none hidle).trans hjob.symm)
      show ((r.setSlot token.index slot).slots i).generation = _ ∧
        ((r.setSlot token.index slot).slots i).state = _ ∧ _
      rw [setSlot_of_ne hi]
      exact ⟨rfl, rfl, rfl⟩
    exact ⟨hbecomes.tended, hbecomes.job_eq⟩
  · intro _ _
    exact ⟨h, fun _ => rfl⟩

/-- `mark_orphaned` orphans the waiting operation under its token, if there is one. -/
theorem Tended.markOrphaned (h : Tended r) (token : OpToken) :
    (∃ j, r.job token.index = some j ∧ j.generation = token.generation ∧ j.orphaned = false ∧
      Becomes r (r.markOrphaned token) token.index (some { j with orphaned := true })) ∨
    (Tended (r.markOrphaned token) ∧ ∀ i, (r.markOrphaned token).job i = r.job i) := by
  unfold OpRegistry.markOrphaned
  dsimp only
  split
  · rename_i hwaiting
    obtain ⟨op, hop⟩ := Option.isSome_iff_exists.mp (h.inv.owned _ (.inl hwaiting.2.2)).1
    have hjob := job_of_waiting hwaiting.2.2 hop
    exact .inl ⟨_, hjob, hwaiting.2.1, rfl, h.orphan hjob⟩
  · exact .inr (h.tryTakeRecord token)

/-- A registry that nobody has used yet. -/
theorem Tended.new (capacity : Nat) : Tended (.new capacity : OpRegistry Op Payload Data) := by
  have hcore : ∀ i, ((.new capacity : OpRegistry Op Payload Data).slots i).state = .idle := by
    intro i
    unfold OpRegistry.new
    exact (foldl_pushFree_core _ _ i).2.2
  have hlocals : ∀ i, ((.new capacity : OpRegistry Op Payload Data).locals i).platformData =
      default := by
    intro i
    unfold OpRegistry.new
    dsimp only
    rw [foldl_pushFree_locals]
  refine ⟨⟨[], Parted.new capacity⟩, inv_new capacity, fun i hflight => ?_, fun i _ => hlocals i⟩
  rw [hcore] at hflight
  exact absurd hflight not_isInFlight_idle

end

end Veloq.Driver.OpRegistry
