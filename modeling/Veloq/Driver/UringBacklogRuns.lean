import Veloq.Foundation.Run
import Veloq.Driver.UringBooks
import Mathlib.Data.List.InsertIdx
set_option autoImplicit false

/-!
# Driver: the backlog agrees with the slots

Every call of the driver is a few moves of its books, so in every run the tokens of the backlog are
those of the queued slots, an SQE is pushed once, and an operation that was queued is pushed or ends
once.
-/

namespace Veloq.Driver.UringDriver

open Veloq.Foundation OpRegistry

variable {Payload : Type} {s s' : UringDriver Payload} {token : OpToken}

/-- The books of a driver. -/
def books (s : UringDriver Payload) : UringBooks :=
  { jobs := s.ops.job, backlog := s.backlog, wheel := s.wheel, ring := s.ring,
    submitted := s.submitted, deferred := s.deferred, pushed := s.pushed,
    completions := s.completions, abandoned := s.abandoned }

/-- What holds between the calls of a driver. -/
structure Inv (s : UringDriver Payload) : Prop where
  tended : Tended s.ops
  books : s.books.Inv

theorem jobs_of_becomes {ops : OpRegistry UringOp Payload UringOpState} {j : Option UringJob}
    (h : Becomes s.ops ops token.index j) : ops.job = (s.books.setJob token j).jobs := by
  funext i
  show _ = Function.update s.ops.job token.index j i
  rcases Classical.em (i = token.index) with rfl | hne
  · rw [Function.update_self]
    exact h.self
  · rw [Function.update_of_ne hne]
    exact h.other i hne

/-- Only the slots change, and nothing in flight. -/
theorem Inv.keep (h : s.Inv) {ops : OpRegistry UringOp Payload UringOpState} (htended : Tended ops)
    (hjobs : ∀ i, ops.job i = s.ops.job i) : { s with ops := ops }.Inv := by
  refine ⟨htended, ?_⟩
  have hbooks : { s with ops := ops }.books = s.books := by
    show UringBooks.mk ops.job _ _ _ _ _ _ _ _ = _
    rw [show ops.job = s.ops.job from funext hjobs]
    rfl
  rw [hbooks]
  exact h.books

/-! ## Completions -/

/-- What `accept_user_event` does: it ends the operation of its token, if there is one. -/
inductive Accepted (s : UringDriver Payload) (token : OpToken) (source : CompletionSource) :
    UringDriver Payload × Bool → Prop where
  | finished {j : UringJob} {fate : Fate} {ops : OpRegistry UringOp Payload UringOpState} :
      s.books.Holds token j → (fate = .cleanedUp → j.orphaned = true ∨ source = .cancel .abandon) →
      Becomes s.ops ops token.index none →
      Accepted s token source
        ({ s with ops := ops, completions := (j.op.ident, fate) :: s.completions }, true)
  | nothing {ok : Bool} : (∀ j, ¬ s.books.Holds token j) → Accepted s token source (s, ok)

theorem not_holds (hjob : s.ops.job token.index = none) (j : UringJob) :
    ¬ s.books.Holds token j := by
  intro hholds
  have hsome := hholds.1
  rw [show s.books.jobs token.index = none from hjob] at hsome
  cases hsome

theorem accepted (h : Tended s.ops) (token : OpToken) (res : Int) (flags : Nat)
    (source : CompletionSource) :
    Accepted s token source (s.acceptUserEvent token res flags source) := by
  unfold acceptUserEvent
  generalize hview : s.ops.checkedSlotView token = view
  have hviewed := h.viewed token
  rw [hview] at hviewed
  cases hviewed with
  | @waiting j payload hjob hgen horphaned hpayload =>
    obtain ⟨-, -, hop, -⟩ := job_eq_some hjob
    simp only [hop, hpayload]
    split
    · rename_i habandon
      obtain ⟨hholds, hbecomes⟩ := h.cleanedUp hjob hgen
      unfold cleanUp
      rw [hholds]
      exact .finished ⟨hjob, hgen⟩ (fun _ => .inr habandon) hbecomes
    · obtain ⟨houtcome, hholds, hbecomes⟩ := h.recorded hjob hgen horphaned
        { token := token, res := res, flags := flags, payload := payload } rfl
      unfold record
      simp only [houtcome, if_true, hholds]
      exact .finished ⟨hjob, hgen⟩ nofun hbecomes
  | @orphaned j payload hjob hgen horphaned hpayload =>
    obtain ⟨-, -, hop, -⟩ := job_eq_some hjob
    simp only [hop, hpayload]
    obtain ⟨hholds, hbecomes⟩ := h.cleanedUp hjob hgen
    unfold cleanUp
    rw [hholds]
    exact .finished ⟨hjob, hgen⟩ (fun _ => .inl horphaned) hbecomes
  | reserved hjob => exact .nothing (not_holds hjob)
  | missing hjob => exact .nothing (not_holds hjob)
  | empty hjob => exact .nothing (not_holds hjob)
  | stale hjob => exact .nothing fun j hholds => hjob j hholds.1 hholds.2
  | corrupt hjob => exact .nothing (not_holds hjob)

/-- The operation of a token has ended; its token has left the place where it waited. -/
theorem Inv.ended (h : s.Inv) {j : UringJob} (hholds : s.books.Holds token j) {fate : Fate}
    (hfate : fate = .cleanedUp → j.op.ident ∈ s.abandoned)
    {ops : OpRegistry UringOp Payload UringOpState} (hbecomes : Becomes s.ops ops token.index none)
    {backlog ring : List OpToken} {wheel : List (Nat × OpToken)}
    (hbacklog : backlog = s.backlog.erase token) (hwheel : wheel.Sublist s.wheel)
    (hwheel_ne : ∀ entry ∈ wheel, entry.2 ≠ token) (hring : ring.Sublist s.ring)
    (hring_ne : ∀ t ∈ ring, t ≠ token) :
    { s with
      ops := ops, backlog := backlog, ring := ring, wheel := wheel,
      completions := (j.op.ident, fate) :: s.completions }.Inv :=
  ⟨hbecomes.tended, h.books.finished hholds hfate ⟨jobs_of_becomes hbecomes, hbacklog, hwheel,
    hwheel_ne, hring, hring_ne, rfl, rfl, rfl, rfl, rfl⟩⟩

/-- A completion ends the operation of its token, when the token has left the place where it
waited.  Its data may have changed on the way. -/
theorem Inv.accept (h : s.Inv) {j j' : UringJob} (hholds : s.books.Holds token j)
    (source : CompletionSource)
    (hsource : source = .cancel .abandon → j.op.ident ∈ s.abandoned)
    {ops : OpRegistry UringOp Payload UringOpState}
    (hbecomes : Becomes s.ops ops token.index (some j')) (hop : j'.op = j.op)
    (hgen : j'.generation = j.generation) (horphaned : j'.orphaned = j.orphaned)
    {backlog ring : List OpToken} {wheel : List (Nat × OpToken)}
    (hbacklog : backlog = s.backlog.erase token) (hwheel : wheel.Sublist s.wheel)
    (hwheel_ne : ∀ entry ∈ wheel, entry.2 ≠ token) (hring : ring.Sublist s.ring)
    (hring_ne : ∀ t ∈ ring, t ≠ token) (res : Int) (flags : Nat) :
    ∃ s', { s with
        ops := ops, backlog := backlog, ring := ring, wheel := wheel }.acceptUserEvent token res
          flags source = (s', true) ∧ s'.Inv ∧ s'.backlog = backlog := by
  set t : UringDriver Payload := { s with
    ops := ops, backlog := backlog, ring := ring, wheel := wheel }
  have hholds' : t.books.Holds token j' := ⟨hbecomes.self, hgen.trans hholds.2⟩
  have haccepted := accepted (s := t) hbecomes.tended token res flags source
  generalize t.acceptUserEvent token res flags source = result at haccepted
  cases haccepted with
  | @finished j'' fate ops' hholds'' hfate hbecomes' =>
    obtain ⟨-, rfl⟩ := hholds'.token_eq hholds'' rfl
    refine ⟨_, rfl, ?_, rfl⟩
    show { s with
      ops := ops', backlog := backlog, ring := ring, wheel := wheel,
      completions := (j''.op.ident, fate) :: s.completions }.Inv
    rw [hop]
    refine h.ended hholds (fun hcleaned => ?_) (hbecomes.trans hbecomes') hbacklog hwheel
      hwheel_ne hring hring_ne
    rcases hfate hcleaned with horph | habandon
    · exact h.books.orphaned _ j hholds.1 (horphaned.symm.trans horph)
    · exact hsource habandon
  | nothing hnone => exact absurd hholds' (hnone j')

/-- The same for a queued operation, which has left the backlog. -/
theorem Inv.accept_queued (h : s.Inv) {j : UringJob} (hholds : s.books.Holds token j)
    (hqueued : j.data.submissionState = .queued) (source : CompletionSource)
    (hsource : source = .cancel .abandon → j.op.ident ∈ s.abandoned)
    {backlog : List OpToken} (hbacklog : backlog = s.backlog.erase token) (res : Int)
    (flags : Nat) :
    ∃ s', { s with backlog := backlog }.acceptUserEvent token res flags source = (s', true) ∧
      s'.Inv ∧ s'.backlog = backlog := by
  have hsame : Becomes s.ops s.ops token.index (some j) := hholds.1 ▸ .refl h.tended _
  refine h.accept hholds source hsource hsame rfl rfl rfl hbacklog (List.Sublist.refl _)
    (h.books.wheel_ne hholds ?_) (List.Sublist.refl _) (h.books.ring_ne hholds ?_) res flags
  · rw [hqueued]
    exact UringSubmissionState.noConfusion
  · rw [hqueued]
    exact UringSubmissionState.noConfusion

theorem accept_inv {res : Int} {flags : Nat} {source : CompletionSource} {backlog : List OpToken}
    (h : ∃ s', s.acceptUserEvent token res flags source = (s', true) ∧ s'.Inv ∧
      s'.backlog = backlog) : (s.acceptUserEvent token res flags source).1.Inv := by
  obtain ⟨s', haccept, hinv, -⟩ := h
  rw [haccept]
  exact hinv

/-! ## Submission -/

theorem Vacant.checkedSlotView {r : OpRegistry UringOp Payload UringOpState}
    (hvacant : Vacant r token) (hop : (r.locals token.index).op = none) :
    r.checkedSlotView token = some (.valid .reserved token.index) := by
  unfold OpRegistry.checkedSlotView
  rw [if_neg (Nat.not_le.mpr hvacant.index_lt)]
  dsimp only
  rw [if_neg (not_not.mpr hvacant.generation), hvacant.state, hop]
  rfl

/-- A reserved slot with its operation and its payload becomes an operation in flight. -/
theorem started (h : Tended s.ops) (hvacant : Vacant s.ops token) {op : UringOp} {payload : Payload}
    (hop : (s.ops.locals token.index).op = some op)
    (hpayload : (s.ops.locals token.index).payload = some payload) (data : UringOpState) :
    Becomes s.ops ((s.setState token .inFlightWaiting).setPlatform token data).ops token.index
      (some ⟨token.generation, false, op, data⟩) := by
  have hstart := h.start hvacant hop hpayload
  exact hstart.trans (hstart.tended.setData token hstart.self data)

/-- What `submit_from_slot_raw` makes of a reserved slot. -/
theorem Inv.submitFromSlot (h : s.Inv) (hvacant : Vacant s.ops token) {strategy : SubmissionStrategy}
    {payload : Payload} (hop : (s.ops.locals token.index).op = some ⟨strategy, s.submitted⟩)
    (hpayload : (s.ops.locals token.index).payload = some payload) (attempt : Attempt) :
    match s.submitFromSlot token attempt with
    | (s', some true) => { s' with submitted := s'.submitted + 1 }.Inv
    | (s', some false) =>
        { s' with backlog := s'.backlog ++ [token], submitted := s'.submitted + 1 }.Inv
    | (s', none) => s' = s := by
  have hjob : s.books.jobs token.index = none := job_eq_none hvacant.not_inFlight
  have hresting : (s.ops.locals token.index).platformData = default :=
    h.tended.resting _ hvacant.not_inFlight
  unfold UringDriver.submitFromSlot
  cases attempt with
  | failed res => simp only [hop, hpayload]
  | pushed =>
    cases strategy with
    | submitSqe =>
      simp only [hop, hpayload, hresting]
      have hbecomes := started h.tended hvacant hop hpayload ⟨none, .kernelSubmitted⟩
      exact ⟨hbecomes.tended, (h.books.launch hjob .submitSqe).of_jobs (jobs_of_becomes hbecomes) rfl⟩
    | softwareTimer =>
      simp only [hop, hpayload]
      have hbecomes := started h.tended hvacant hop hpayload ⟨some s.nextTimerId, .timer⟩
      exact ⟨hbecomes.tended, (h.books.schedule hjob .softwareTimer s.nextTimerId).of_jobs (jobs_of_becomes hbecomes) rfl⟩
  | full =>
    cases strategy with
    | submitSqe =>
      simp only [hop, hpayload, hresting]
      have hbecomes := started h.tended hvacant hop hpayload ⟨none, .queued⟩
      exact ⟨hbecomes.tended, (h.books.defer hjob .submitSqe).of_jobs (jobs_of_becomes hbecomes) rfl⟩
    | softwareTimer =>
      simp only [hop, hpayload]
      have hbecomes := started h.tended hvacant hop hpayload ⟨some s.nextTimerId, .timer⟩
      exact ⟨hbecomes.tended, (h.books.schedule hjob .softwareTimer s.nextTimerId).of_jobs (jobs_of_becomes hbecomes) rfl⟩

theorem tokenOf_eq_some {handle : OpHandle} (h : tokenOf handle = some token) :
    token.index = handle.index ∧ token.generation = handle.generation := by
  unfold tokenOf at h
  split at h
  · cases h
    exact ⟨rfl, rfl⟩
  · cases h

/-- A change of the parts of a slot that is not in flight. -/
theorem Inv.setParts (h : s.Inv) (token : OpToken) (hstate : ¬ IsInFlight (s.ops.slots token.index).state)
    (f : LocalSlot UringOp Payload UringOpState → LocalSlot UringOp Payload UringOpState)
    (hf : ∀ slot, (f slot).active = slot.active ∧ (f slot).generation = slot.generation ∧
      (f slot).platformData = slot.platformData) :
    { s with ops := s.ops.modifyLocal token f }.Inv := by
  obtain ⟨hactive, hgeneration, hdata⟩ := hf (s.ops.locals token.index)
  have hbecomes := h.tended.setParts hstate hactive hgeneration hdata
  rw [← job_eq_none hstate] at hbecomes
  exact h.keep hbecomes.tended hbecomes.job_eq

/-- The slot of an operation that was not accepted is released. -/
theorem Inv.recoverPayload (h : s.Inv) (hjob : s.ops.job token.index = none) :
    (s.recoverPayload token).Inv := by
  unfold UringDriver.recoverPayload
  have hremove : ∀ t : UringDriver Payload, t.Inv → t.ops.job token.index = none →
      { t with ops := t.ops.remove token }.Inv := by
    intro t ht hnone
    have hbecomes := ht.tended.remove hnone
    rw [← hnone] at hbecomes
    exact ht.keep hbecomes.tended hbecomes.job_eq
  split
  · rename_i hactive
    have hstate : ¬ IsInFlight (s.ops.slots token.index).state := by
      intro hflight
      obtain ⟨hop, -⟩ := h.tended.inv.owned _ hflight
      obtain ⟨op, hop⟩ := Option.isSome_iff_exists.mp hop
      rcases hflight with hwaiting | horphaned
      · rw [job_of_waiting hwaiting hop] at hjob
        cases hjob
      · rw [job_of_orphaned horphaned hop] at hjob
        cases hjob
    have htaken := h.setParts token hstate (fun slot => { slot with payload := none })
      fun _ => ⟨rfl, rfl, rfl⟩
    exact hremove _ htaken (job_eq_none hstate)
  · exact hremove s h hjob

theorem Inv.submit (h : s.Inv) {strategy : SubmissionStrategy} {payload : Payload}
    {attempt : Attempt} (hs : s.submit strategy payload attempt = some s') : s'.Inv := by
  unfold UringDriver.submit at hs
  generalize halloc : s.ops.alloc default = result at hs
  rcases result with _ | ⟨ops, _ | handle⟩
  · cases hs
  · obtain ⟨htended, hjobs, -⟩ := h.tended.alloc halloc
    cases hs
    exact h.keep htended hjobs
  obtain ⟨htended, hjobs, hgiven⟩ := h.tended.alloc halloc
  obtain ⟨-, hop, hvacant⟩ := hgiven handle rfl
  have hallocated := h.keep htended hjobs
  dsimp only at hs
  generalize htoken : tokenOf handle = token at hs
  cases token with
  | none =>
    cases hs
    exact hallocated
  | some token =>
    obtain ⟨hindex, hgen⟩ := tokenOf_eq_some htoken
    replace hvacant := hvacant token hindex hgen
    rw [← hindex] at hop
    dsimp only at hs
    -- the payload is stored
    have hset : ops.slotSetPayload token payload =
        ops.modifyLocal token fun slot => { slot with payload := some payload } := by
      unfold slotSetPayload
      rw [if_pos hvacant.isCurrentActive]
    rw [hset] at hs
    have hpaid := hallocated.setParts token hvacant.not_inFlight
      (fun slot => { slot with payload := some payload }) fun _ => ⟨rfl, rfl, rfl⟩
    have hvacant₁ : Vacant (ops.modifyLocal token fun slot => { slot with payload := some payload })
        token := hvacant.setParts rfl rfl
    have hop₁ : ((ops.modifyLocal token fun slot =>
        { slot with payload := some payload }).locals token.index).op = none := by
      unfold modifyLocal
      rw [setLocal_self]
      exact hop
    unfold submitInternal at hs
    rw [Vacant.checkedSlotView hvacant₁ hop₁] at hs
    dsimp only at hs
    -- the operation is stored
    set paid := ops.modifyLocal token fun slot => { slot with payload := some payload }
    set op : UringOp := ⟨strategy, s.submitted⟩
    set stored := paid.modifyLocal token fun slot => { slot with op := some op } with hstored
    have hready := hpaid.setParts token hvacant₁.not_inFlight
      (fun slot => { slot with op := some op }) fun _ => ⟨rfl, rfl, rfl⟩
    have hvacant₂ : Vacant stored token := hvacant₁.setParts rfl rfl
    have hlocal : stored.locals token.index =
        { paid.locals token.index with op := some op } := setLocal_self
    have hop₂ : (stored.locals token.index).op = some op := by rw [hlocal]
    have hpayload₂ : (stored.locals token.index).payload = some payload := by
      rw [hlocal]
      show (Function.update ops.locals token.index _ token.index).payload = some payload
      rw [Function.update_self]
    have hspec := hready.submitFromSlot hvacant₂ hop₂ hpayload₂ attempt
    generalize hresult : ({ s with ops := stored } : UringDriver Payload).submitFromSlot token
      attempt = submitted at hs
    rw [hresult] at hspec
    rcases submitted with ⟨s₁, _ | _ | _⟩
    · -- the operation is taken back, and the slot released
      cases hspec
      cases hs
      exact Inv.recoverPayload (hready.setParts token hvacant₂.not_inFlight
        (fun slot => { slot with op := none }) fun _ => ⟨rfl, rfl, rfl⟩)
        (job_eq_none hvacant₂.not_inFlight)
    · cases hs
      exact hspec
    · cases hs
      exact hspec

/-! ## Cancellation -/

/-- Only the accounts of the cancellations change. -/
theorem Inv.of_books (h : s.Inv) (hops : s'.ops = s.ops) (hbooks : s'.books = s.books) : s'.Inv := by
  refine ⟨?_, ?_⟩
  · rw [hops]
    exact h.tended
  · rw [hbooks]
    exact h.books

theorem nextCancelCompletionId_same (tries : Nat) (s : UringDriver Payload) :
    ∃ id, (nextCancelCompletionId tries s).1 = { s with nextCancelId := id } := by
  induction tries generalizing s with
  | zero => exact ⟨s.nextCancelId, rfl⟩
  | succ tries ih =>
    unfold nextCancelCompletionId
    dsimp only
    split
    · obtain ⟨id, heq⟩ := ih { s with nextCancelId :=
        if (s.nextCancelId + 1) % 2 ^ 16 = 0 then 1 else (s.nextCancelId + 1) % 2 ^ 16 }
      exact ⟨id, heq⟩
    · exact ⟨_, rfl⟩

theorem Inv.trySubmitCancelRequest (h : s.Inv) (request : PendingCancel) (room : Bool) :
    (s.trySubmitCancelRequest request room).1.Inv ∧
    (s.trySubmitCancelRequest request room).1.pendingCancellations = s.pendingCancellations := by
  unfold UringDriver.trySubmitCancelRequest
  obtain ⟨id, heq⟩ := nextCancelCompletionId_same (2 ^ 16 - 1) s
  generalize nextCancelCompletionId (2 ^ 16 - 1) s = result at heq
  obtain ⟨s₁, answer⟩ := result
  cases heq
  cases answer with
  | none => exact ⟨h.of_books rfl rfl, rfl⟩
  | some id =>
    dsimp only
    split
    · exact ⟨h.of_books rfl rfl, rfl⟩
    · exact ⟨h.of_books rfl rfl, rfl⟩

theorem Inv.submitCancelRequest (h : s.Inv) (request : PendingCancel) (room : Bool) :
    (s.submitCancelRequest request room).1.Inv := by
  have htried := h.trySubmitCancelRequest request room
  unfold UringDriver.submitCancelRequest
  generalize s.trySubmitCancelRequest request room = result at htried
  obtain ⟨s₁, _ | _⟩ := result
  · exact htried.1.of_books rfl rfl
  · exact htried.1

theorem cancelLocally_inv {mode : CancelMode}
    {backlog : List OpToken}
    (h : ∃ s', s.acceptUserEvent token (-ECANCELED) 0 (.cancel mode) = (s', true) ∧ s'.Inv ∧
      s'.backlog = backlog) : (s.cancelLocally token mode).1.Inv := by
  obtain ⟨s', haccept, hinv, -⟩ := h
  unfold cancelLocally completeLocalCancel
  rw [haccept]
  exact hinv

/-- A local cancellation ends a queued operation or a timer. -/
theorem Inv.cancelInFlight (h : s.Inv) {j : UringJob} (hholds : s.books.Holds token j)
    {mode : CancelMode} (hmode : mode = .abandon → j.op.ident ∈ s.abandoned)
    {result : UringDriver Payload × Option CancelSubmitOutcome}
    (hs : s.cancelInFlight token mode = some result) : result.1.Inv := by
  have hsource : CompletionSource.cancel mode = .cancel .abandon → j.op.ident ∈ s.abandoned :=
    fun heq => hmode (CompletionSource.cancel.inj heq)
  obtain ⟨-, -, -, hdata⟩ := job_eq_some hholds.1
  unfold UringDriver.cancelInFlight platform at hs
  rw [hdata] at hs
  split at hs
  · rename_i hqueued
    cases hs
    exact cancelLocally_inv (h.accept_queued hholds hqueued _ hsource rfl (-ECANCELED) 0)
  · rename_i hqueued
    cases htimer : j.data.timerId with
    | none =>
      rw [htimer] at hs
      cases hs
    | some tid =>
      rw [htimer] at hs
      cases hs
      have hstate := h.books.timed _ j hholds.1 (by rw [htimer]; exact Option.some_ne_none tid)
      have hkernel : j.data.submissionState ≠ .kernelSubmitted := by
        rw [hstate]
        exact UringSubmissionState.noConfusion
      refine cancelLocally_inv (h.accept hholds _ hsource
        (h.tended.setData token hholds.1 { j.data with timerId := none }) rfl rfl rfl
        (h.books.erase_backlog hholds hqueued).symm List.filter_sublist (fun entry hentry => ?_)
        (List.Sublist.refl _) (h.books.ring_ne hholds hkernel) (-ECANCELED) 0)
      obtain ⟨hmem, hne⟩ := List.mem_filter.mp hentry
      rintro rfl
      obtain ⟨j', hholds', hdata'⟩ := h.books.wheel entry hmem
      obtain ⟨-, rfl⟩ := hholds.token_eq hholds' rfl
      rw [hdata'] at htimer
      cases htimer
      exact of_decide_eq_true hne rfl

/-- `cancel_op_internal`, for a request whose owner has given the operation up if it says so. -/
theorem Inv.cancelOp (h : s.Inv) {request : PendingCancel}
    (hmode : request.mode = .abandon → ∀ j, s.books.Holds request.target j →
      j.op.ident ∈ s.abandoned) (room : Bool) : (s.cancelOp request room).1.Inv := by
  unfold UringDriver.cancelOp
  generalize hview : s.ops.checkedSlotView request.target = view
  have hviewed := h.tended.viewed request.target
  rw [hview] at hviewed
  cases hviewed with
  | @waiting j payload hjob hgen horphaned hpayload =>
    have hholds : s.books.Holds request.target j := ⟨hjob, hgen⟩
    dsimp only
    split
    · rename_i result hresult
      exact h.cancelInFlight hholds (fun habandon => hmode habandon j hholds) hresult
    · split
      · rename_i habandon
        refine Inv.submitCancelRequest ⟨(h.tended.orphan hjob).tended, ?_⟩ request room
        exact (h.books.orphan hholds (hmode habandon j hholds)).of_jobs
          (jobs_of_becomes (h.tended.orphan hjob)) rfl
      · exact h.submitCancelRequest request room
  | @orphaned j payload hjob hgen horphaned hpayload =>
    have hholds : s.books.Holds request.target j := ⟨hjob, hgen⟩
    dsimp only
    split
    · rename_i result hresult
      exact h.cancelInFlight hholds (fun _ => h.books.orphaned _ j hjob horphaned) hresult
    · exact h.submitCancelRequest request room
  | reserved hjob hop =>
    dsimp only
    rw [hop]
    have hbecomes := h.tended.remove hjob
    rw [← hjob] at hbecomes
    exact h.keep hbecomes.tended hbecomes.job_eq
  | missing => exact h
  | empty => exact h
  | stale => exact h
  | corrupt => exact h

theorem Inv.flushCancellations (room : PendingCancel → Bool) (limit : Nat) (h : s.Inv) :
    (flushCancellations room limit s).1.Inv := by
  induction limit generalizing s with
  | zero => exact h
  | succ limit ih =>
    unfold UringDriver.flushCancellations
    split
    · exact h
    · rename_i request rest _
      split
      · exact h
      · have htried := (h.trySubmitCancelRequest request (room request)).1
        generalize s.trySubmitCancelRequest request (room request) = result at htried
        obtain ⟨s₁, _ | _⟩ := result
        · exact htried
        · exact ih (htried.of_books rfl rfl)
      all_goals exact ih (h.of_books rfl rfl)

/-! ## The backlog -/

/-- The front of the backlog is a queued operation, so it is handed over or cancelled, but never
dropped. -/
theorem Inv.backlogAction (h : s.Inv) (hmem : token ∈ s.backlog) :
    ∃ j, s.books.Holds token j ∧ j.data.submissionState = .queued ∧
      s.backlogAction token = some (if j.orphaned then .cancelQueued else .submitQueued) := by
  obtain ⟨j, hholds, hqueued⟩ := (h.books.backlog token).mp hmem
  refine ⟨j, hholds, hqueued, ?_⟩
  obtain ⟨-, -, -, hdata⟩ := job_eq_some hholds.1
  have hstate : (s.platform token).submissionState = .queued := by
    unfold platform
    rw [hdata]
    exact hqueued
  unfold UringDriver.backlogAction
  generalize hview : s.ops.checkedSlotView token = view
  have hviewed := h.tended.viewed token
  rw [hview] at hviewed
  have hnone : s.ops.job token.index ≠ none := by
    rw [show s.ops.job token.index = some j from hholds.1]
    exact Option.some_ne_none j
  cases hviewed with
  | @waiting j' payload hjob hgen horphaned =>
    have hsame : s.books.Holds token j' := ⟨hjob, hgen⟩
    obtain ⟨-, rfl⟩ := hholds.token_eq hsame rfl
    dsimp only
    rw [if_pos hstate, horphaned]
    rfl
  | @orphaned j' payload hjob hgen horphaned =>
    have hsame : s.books.Holds token j' := ⟨hjob, hgen⟩
    obtain ⟨-, rfl⟩ := hholds.token_eq hsame rfl
    dsimp only
    rw [if_pos hstate, horphaned]
    rfl
  | reserved hjob => exact absurd hjob hnone
  | missing hjob => exact absurd hjob hnone
  | empty hjob => exact absurd hjob hnone
  | stale hjob => exact absurd hholds.2 (hjob j hholds.1)
  | corrupt hjob => exact absurd hjob hnone

/-- One round of a flush: the front of the backlog goes to the ring or ends, or it stays. -/
theorem Inv.flushFront (h : s.Inv) {rest : List OpToken} (hbacklog : s.backlog = token :: rest)
    (attempt : Attempt) : (s.flushFront token attempt).1.Inv ∧
      ((s.flushFront token attempt).2 = .next → (s.flushFront token attempt).1.backlog = rest) := by
  have hmem : token ∈ s.backlog := by
    rw [hbacklog]
    exact List.mem_cons_self ..
  have htail : s.backlog.tail = rest := by rw [hbacklog, List.tail_cons]
  have herase : s.backlog.tail = s.backlog.erase token := by
    rw [hbacklog, List.erase_cons_head]
    rfl
  obtain ⟨j, hholds, hqueued, haction⟩ := h.backlogAction hmem
  obtain ⟨-, -, hop, hdata⟩ := job_eq_some hholds.1
  unfold UringDriver.flushFront
  rw [haction]
  cases horphaned : j.orphaned with
  | true =>
    obtain ⟨s₁, haccept, hinv, hrest⟩ := h.accept_queued hholds hqueued
      (.cancel .abandon) (fun _ => h.books.orphaned _ j hholds.1 horphaned) herase
      (-ECANCELED) 0
    simp only [if_true]
    unfold completeLocalCancel popBacklog
    rw [haccept]
    exact ⟨hinv, fun _ => hrest.trans htail⟩
  | false =>
    obtain ⟨-, hpayload⟩ := h.tended.inv.owned _ (isInFlight_of_job hholds.1)
    obtain ⟨payload, hpayload⟩ := Option.isSome_iff_exists.mp hpayload
    have hfail : ∀ res, (s.popBacklog.acceptUserEvent token res 0 .submissionFailure).1.Inv ∧
        (s.popBacklog.acceptUserEvent token res 0 .submissionFailure).1.backlog = rest := by
      intro res
      obtain ⟨s₁, haccept, hinv, hrest⟩ := h.accept_queued hholds hqueued
        .submissionFailure nofun herase res 0
      unfold popBacklog
      rw [haccept]
      exact ⟨hinv, hrest.trans htail⟩
    simp only [Bool.false_eq_true, if_false]
    unfold submitQueuedFromSlot
    simp only [hdata, hqueued, ne_eq, not_true_eq_false, if_false, hop, hpayload]
    obtain ⟨generation, orphaned, ⟨strategy, ident⟩, data⟩ := j
    cases strategy with
    | softwareTimer => exact ⟨(hfail invalidStateRes).1, fun _ => (hfail invalidStateRes).2⟩
    | submitSqe =>
      cases attempt with
      | failed res => exact ⟨(hfail res).1, fun _ => (hfail res).2⟩
      | pushed =>
        have hbecomes := h.tended.setData token hholds.1
          { data with submissionState := .kernelSubmitted }
        refine ⟨⟨hbecomes.tended,
          (h.books.push hholds hqueued).of_jobs (jobs_of_becomes hbecomes) ?_⟩, fun _ => htail⟩
        unfold UringBooks.push
        rw [show s.books.backlog.erase token = s.backlog.tail from herase.symm]
        rfl
      | full =>
        have hbecomes := h.tended.setData token hholds.1
          { data with submissionState := .queued }
        have hsame : { data with submissionState := .queued } = data := by rw [← hqueued]
        rw [hsame, show some _ = s.ops.job token.index from hholds.1.symm] at hbecomes
        rw [hsame]
        exact ⟨h.keep hbecomes.tended hbecomes.job_eq, fun hnext => by cases hnext⟩

theorem Inv.flushLoop (attempt : OpToken → Attempt) (rounds : Nat) (h : s.Inv) :
    (flushLoop attempt rounds s).1.Inv := by
  induction rounds generalizing s with
  | zero => exact h
  | succ rounds ih =>
    unfold UringDriver.flushLoop
    split
    · exact h
    · rename_i token rest hbacklog
      have hfront := (h.flushFront hbacklog (attempt token)).1
      generalize s.flushFront token (attempt token) = result at hfront
      obtain ⟨s₁, _ | _ | _⟩ := result
      · exact ih hfront
      · exact hfront
      · exact hfront

/-- The length of the backlog is rounds enough: the flush has emptied it, or it has stopped. -/
theorem Inv.flushLoop_enough (attempt : OpToken → Attempt) (h : s.Inv) (more : Nat) :
    UringDriver.flushLoop attempt (s.backlog.length + more) s =
      UringDriver.flushLoop attempt s.backlog.length s := by
  generalize hlength : s.backlog.length = rounds
  induction rounds generalizing s with
  | zero =>
    rw [Nat.zero_add]
    cases more with
    | zero => rfl
    | succ more =>
      unfold UringDriver.flushLoop
      rw [List.length_eq_zero_iff.mp hlength]
  | succ rounds ih =>
    rw [Nat.succ_add]
    unfold UringDriver.flushLoop
    split
    · rfl
    · rename_i token rest hbacklog
      obtain ⟨hinv, hnext⟩ := h.flushFront hbacklog (attempt token)
      generalize s.flushFront token (attempt token) = result at hinv hnext
      obtain ⟨s₁, _ | _ | _⟩ := result
      · refine ih hinv ?_
        rw [hnext rfl]
        rw [hbacklog] at hlength
        exact Nat.succ.inj hlength
      · rfl
      · rfl

/-! ## Runs -/

theorem Inv.new (capacity : Nat) : (new capacity : UringDriver Payload).Inv := by
  refine ⟨.new capacity, UringBooks.Inv.empty.of_jobs (funext fun i => ?_) rfl⟩
  refine job_eq_none ?_
  unfold UringDriver.new OpRegistry.new
  rw [(foldl_pushFree_core _ _ i).2.2]
  exact not_isInFlight_idle

/-- Afterwards the operation of `token`, if there is one, is given up. -/
theorem Inv.giveUp (h : s.Inv) (token : OpToken) : (s.giveUp token).Inv ∧
    (s.giveUp token).ops = s.ops ∧
    ∀ j, (s.giveUp token).books.Holds token j → j.op.ident ∈ (s.giveUp token).abandoned := by
  unfold UringDriver.giveUp
  generalize hview : s.ops.checkedSlotView token = view
  have hviewed := h.tended.viewed token
  rw [hview] at hviewed
  have hgiven : ∀ j, s.books.Holds token j →
      { s with abandoned := j.op.ident :: s.abandoned }.Inv ∧
      { s with abandoned := j.op.ident :: s.abandoned }.ops = s.ops ∧
      ∀ j', s.books.Holds token j' → j'.op.ident ∈ j.op.ident :: s.abandoned := by
    intro j hholds
    refine ⟨⟨h.tended, h.books.giveUp j⟩, rfl, fun j' hholds' => ?_⟩
    obtain ⟨-, rfl⟩ := hholds.token_eq hholds' rfl
    exact List.mem_cons_self ..
  cases hviewed with
  | @waiting j payload hjob hgen =>
    obtain ⟨-, -, hop, -⟩ := job_eq_some hjob
    rw [hop]
    exact hgiven j ⟨hjob, hgen⟩
  | @orphaned j payload hjob hgen =>
    obtain ⟨-, -, hop, -⟩ := job_eq_some hjob
    rw [hop]
    exact hgiven j ⟨hjob, hgen⟩
  | reserved hjob => exact ⟨h, rfl, fun j hholds => absurd hholds (not_holds hjob j)⟩
  | missing hjob => exact ⟨h, rfl, fun j hholds => absurd hholds (not_holds hjob j)⟩
  | empty hjob => exact ⟨h, rfl, fun j hholds => absurd hholds (not_holds hjob j)⟩
  | stale hjob => exact ⟨h, rfl, fun j hholds => absurd hholds.2 (hjob j hholds.1)⟩
  | corrupt hjob => exact ⟨h, rfl, fun j hholds => absurd hholds (not_holds hjob j)⟩

/-- What is at a position of a list without repetitions is nowhere else. -/
theorem not_mem_eraseIdx {α : Type} [DecidableEq α] {l : List α} (hl : l.Nodup) {n : Nat} {x : α}
    (hx : l[n]? = some x) : ∀ y ∈ l.eraseIdx n, y ≠ x := by
  obtain ⟨hn, rfl⟩ := List.getElem?_eq_some_iff.mp hx
  rintro y hy rfl
  rw [← hl.erase_getElem n hn] at hy
  exact hl.not_mem_erase hy

/-- The completion of an SQE ends its operation, unless the generation of its token did not
survive the kernel. -/
theorem Inv.completion (h : s.Inv) {position : Nat} (htoken : s.ring[position]? = some token)
    (res : Int) (flags : Nat) :
    ({ s with ring := s.ring.eraseIdx position }.acceptKernel (CompletionToken.user token) res
      flags).1.Inv := by
  obtain ⟨j, hholds, hstate⟩ := h.books.ring token (List.mem_of_getElem? htoken)
  unfold acceptKernel
  rcases Classical.em (token.generation < 2 ^ 15) with hfit | hfit
  · rw [(CompletionToken.classify_user_eq_iff token).mpr hfit]
    have hsame : Becomes s.ops s.ops token.index (some j) := hholds.1 ▸ .refl h.tended _
    exact accept_inv (h.accept hholds .kernel nofun hsame rfl rfl rfl
      (h.books.erase_backlog hholds (by rw [hstate]; exact UringSubmissionState.noConfusion)).symm
      (List.Sublist.refl _)
      (h.books.wheel_ne hholds (by rw [hstate]; exact UringSubmissionState.noConfusion))
      (List.eraseIdx_sublist s.ring position) (not_mem_eraseIdx h.books.ring_nodup htoken) res flags)
  · rw [CompletionToken.classify_user]
    dsimp only
    set stale : OpToken := ⟨token.index, token.generation % 2 ^ 15, token.index_lt, _⟩
    have hlost : { s with ring := s.ring.eraseIdx position }.Inv :=
      ⟨h.tended, h.books.lose (List.eraseIdx_sublist s.ring position)⟩
    have haccepted := accepted hlost.tended stale res flags .kernel
    generalize ({ s with ring := s.ring.eraseIdx position } :
      UringDriver Payload).acceptUserEvent stale res flags .kernel = result at haccepted
    cases haccepted with
    | @finished j' fate ops hholds' =>
      have hjob := hholds'.1
      obtain rfl : j = j' := Option.some.inj (hholds.1.symm.trans hjob)
      have hmod : token.generation = token.generation % 2 ^ 15 := hholds.2.symm.trans hholds'.2
      rw [hmod] at hfit
      exact absurd (Nat.mod_lt _ (Nat.two_pow_pos 15)) hfit
    | nothing => exact hlost

/-- A timer that is due ends its operation. -/
theorem Inv.timer (h : s.Inv) {position tid : Nat} (htoken : s.wheel[position]? = some (tid, token)) :
    ({ s with wheel := s.wheel.eraseIdx position }.acceptUserEvent token 0 0 .timer).1.Inv := by
  obtain ⟨j, hholds, hdata⟩ := h.books.wheel (tid, token) (List.mem_of_getElem? htoken)
  have hsame : Becomes s.ops s.ops token.index (some j) := hholds.1 ▸ .refl h.tended _
  refine accept_inv (h.accept hholds .timer nofun hsame rfl rfl rfl
    (h.books.erase_backlog hholds (by rw [hdata]; exact UringSubmissionState.noConfusion)).symm
    (List.eraseIdx_sublist s.wheel position) (fun entry hentry => ?_) (List.Sublist.refl _)
    (h.books.ring_ne hholds (by rw [hdata]; exact UringSubmissionState.noConfusion)) 0 0)
  refine not_mem_eraseIdx h.books.wheel_nodup (n := position) ?_ entry.2 ?_
  · rw [List.getElem?_map, show s.books.wheel[position]? = some (tid, token) from htoken]
    rfl
  · rw [show s.books.wheel.map Prod.snd = s.wheel.map Prod.snd from rfl, List.eraseIdx_map]
    exact List.mem_map_of_mem hentry

/-- Every event keeps the books right. -/
theorem Inv.step (h : s.Inv) {e : UringEvent Payload} (hs : UringStep s e s') : s'.Inv := by
  unfold UringStep at hs
  cases e with
  | submit strategy payload attempt => exact h.submit hs
  | cancel request room =>
    cases hs
    split
    · obtain ⟨hgiven, -, habandoned⟩ := h.giveUp request.target
      exact hgiven.cancelOp (fun _ => habandoned) room
    · rename_i hmode
      exact h.cancelOp (fun habandon => absurd habandon hmode) room
  | flushCancellations room =>
    cases hs
    exact Inv.flushCancellations room _ h
  | flushBacklog attempt =>
    cases hs
    exact Inv.flushLoop attempt _ h
  | completion position res flags =>
    dsimp only [UringDriver.step] at hs
    split at hs
    · rename_i token htoken
      cases hs
      exact h.completion htoken res flags
    · cases hs
  | cancelCompletion id =>
    cases hs
    exact h.of_books rfl rfl
  | timer position =>
    dsimp only [UringDriver.step] at hs
    split at hs
    · rename_i tid token htoken
      cases hs
      exact h.timer htoken
    · cases hs
  | take token =>
    cases hs
    exact h.keep (h.tended.tryTakeRecord token).1 (h.tended.tryTakeRecord token).2
  | orphan token =>
    cases hs
    obtain ⟨hgiven, -, habandoned⟩ := h.giveUp token
    rcases hgiven.tended.markOrphaned token with ⟨j, hjob, hgen, -, hbecomes⟩ | ⟨htended, hjobs⟩
    · exact ⟨hbecomes.tended, (hgiven.books.orphan ⟨hjob, hgen⟩
        (habandoned j ⟨hjob, hgen⟩)).of_jobs (jobs_of_becomes hbecomes) rfl⟩
    · exact hgiven.keep htended hjobs

/-- A driver that nobody has used yet. -/
def Init (s : UringDriver Payload) : Prop := ∃ capacity, s = .new capacity

theorem inv_of_run (h : Run UringStep Always Init s) : s.Inv := by
  refine h.invariant (fun s hs => ?_) fun _ _ _ hinv _ hstep => hinv.step hstep
  obtain ⟨capacity, rfl⟩ := hs
  exact .new capacity

/-- A flush of the backlog needs no more rounds than it has tokens. -/
theorem flushBacklog_enough (h : Run UringStep Always Init s) (attempt : OpToken → Attempt)
    (more : Nat) : UringDriver.flushLoop attempt (s.backlog.length + more) s =
      s.flushBacklog attempt :=
  (inv_of_run h).flushLoop_enough attempt more

/-- Two operations that found the ring full. -/
def fullDriver : UringDriver Unit :=
  (replay (fun s e => s.step e) (fun _ _ => true) (.new 2)
    [.submit .submitSqe () .full, .submit .submitSqe () .full]).get (by decide +kernel)

theorem flushBacklog_enough_full : fullDriver.backlog.length = 2 ∧
    UringDriver.flushLoop (fun _ => .pushed) (2 + 1) fullDriver =
      fullDriver.flushBacklog fun _ => .pushed := by
  have hreplay : replay (fun s e => s.step e) (fun _ _ => true) (.new 2)
      [.submit .submitSqe () .full, .submit .submitSqe () .full] = some fullDriver :=
    (Option.some_get _).symm
  have hstart : Run UringStep Always Init (UringDriver.new 2 : UringDriver Unit) := .start ⟨2, rfl⟩
  have hlength : fullDriver.backlog.length = 2 := by decide +kernel
  have henough := flushBacklog_enough (hstart.replay (fun _ _ _ hs => hs) (fun _ _ _ => trivial)
    hreplay) (fun _ => .pushed) 1
  rw [hlength] at henough
  exact ⟨hlength, henough⟩

theorem Inv.at_iff (h : s.Inv) (state : UringSubmissionState) :
    s.books.At token state ↔ InFlight s.ops token ∧ (s.platform token).submissionState = state := by
  constructor
  · rintro ⟨j, hholds, hj⟩
    obtain ⟨-, hgen, -, hdata⟩ := job_eq_some hholds.1
    refine ⟨⟨h.tended.index_lt hholds.1, hgen.trans hholds.2, isInFlight_of_job hholds.1⟩, ?_⟩
    rw [platform, hdata]
    exact hj
  · rintro ⟨⟨-, hgen, hflight⟩, hj⟩
    obtain ⟨op, hop⟩ := Option.isSome_iff_exists.mp (h.tended.inv.owned _ hflight).1
    rcases hflight with hwaiting | horphaned
    · exact ⟨_, ⟨job_of_waiting hwaiting hop, hgen⟩, hj⟩
    · exact ⟨_, ⟨job_of_orphaned horphaned hop, hgen⟩, hj⟩

/-- A slot whose state is not idle has an operation in flight. -/
theorem Inv.job_of_state (h : s.Inv) {idx : Nat}
    (hstate : (s.ops.locals idx).platformData.submissionState ≠ .idle) :
    ∃ j, s.ops.job idx = some j ∧ (s.ops.locals idx).platformData = j.data := by
  cases hjob : s.ops.job idx with
  | some j => exact ⟨j, rfl, (job_eq_some hjob).2.2.2⟩
  | none =>
    refine absurd ?_ hstate
    have hnot : ¬ IsInFlight (s.ops.slots idx).state := by
      intro hflight
      obtain ⟨op, hop⟩ := Option.isSome_iff_exists.mp (h.tended.inv.owned _ hflight).1
      rcases hflight with hwaiting | horphaned
      · rw [job_of_waiting hwaiting hop] at hjob
        cases hjob
      · rw [job_of_orphaned horphaned hop] at hjob
        cases hjob
    rw [h.tended.resting idx hnot]
    rfl

/-- The completion of an operation, by how it has ended. -/
theorem Inv.ended_cases (h : s.Inv) {n : Nat} (hn : n ∈ s.completions.map Prod.fst) :
    (n, Fate.recorded) ∈ s.completions ∨ (n, Fate.cleanedUp) ∈ s.completions ∧ n ∈ s.abandoned := by
  obtain ⟨⟨ident, fate⟩, hmem, rfl⟩ := List.mem_map.mp hn
  cases fate with
  | recorded => exact .inl hmem
  | cleanedUp => exact .inr ⟨hmem, h.books.cleaned ident hmem⟩

/-- In every run, between any two calls: the tokens of the backlog are those of the queued slots,
each once; an SQE is pushed at most once, and what is in the ring is in flight; an operation that
was queued is still in the backlog, or was pushed, or its completion was recorded, or it was
cleaned up because its owner had given it up; and no operation ends twice. -/
theorem backlog_agrees_with_slots (h : Run UringStep Always Init s) :
    s.backlog.Nodup ∧
    (∀ token, token ∈ s.backlog ↔
      InFlight s.ops token ∧ (s.platform token).submissionState = .queued) ∧
    (∀ idx, (s.ops.locals idx).platformData.submissionState = .queued ↔
      ∃ token ∈ s.backlog, token.index = idx) ∧
    s.pushed.Nodup ∧
    (∀ token ∈ s.ring,
      InFlight s.ops token ∧ (s.platform token).submissionState = .kernelSubmitted) ∧
    (∀ n ∈ s.deferred,
      (∃ token ∈ s.backlog, ∃ op, (s.ops.locals token.index).op = some op ∧ op.ident = n) ∨
      n ∈ s.pushed ∨ (n, Fate.recorded) ∈ s.completions ∨
      (n, Fate.cleanedUp) ∈ s.completions ∧ n ∈ s.abandoned) ∧
    (s.completions.map Prod.fst).Nodup ∧
    ∀ token op, InFlight s.ops token → (s.ops.locals token.index).op = some op →
      op.ident ∉ s.completions.map Prod.fst := by
  have hinv := inv_of_run h
  have hback : ∀ token, token ∈ s.backlog ↔
      InFlight s.ops token ∧ (s.platform token).submissionState = .queued := fun token =>
    (hinv.books.backlog token).trans (hinv.at_iff .queued)
  have htoken : ∀ i j, s.ops.job i = some j → j.data.submissionState = .queued →
      ∃ token ∈ s.backlog, token.index = i ∧ (s.ops.locals token.index).op = some j.op := by
    intro i j hjob hqueued
    obtain ⟨hindex, hgen⟩ := hinv.books.bounds i j hjob
    exact ⟨⟨i, j.generation, hindex, hgen⟩, (hinv.books.backlog _).mpr ⟨j, ⟨hjob, rfl⟩, hqueued⟩,
      rfl, (job_eq_some hjob).2.2.1⟩
  refine ⟨hinv.books.backlog_nodup, hback, fun idx => ⟨fun hqueued => ?_, ?_⟩,
    hinv.books.pushed_nodup, fun token hmem => ?_, fun n hn => ?_, hinv.books.custody.nodup,
    fun token op hflight hop => ?_⟩
  · obtain ⟨j, hjob, hdata⟩ := hinv.job_of_state (by rw [hqueued]; exact nofun)
    rw [hdata] at hqueued
    obtain ⟨token, hmem, hindex, -⟩ := htoken idx j hjob hqueued
    exact ⟨token, hmem, hindex⟩
  · rintro ⟨token, hmem, rfl⟩
    exact ((hback token).mp hmem).2
  · exact (hinv.at_iff .kernelSubmitted).mp (hinv.books.ring token hmem)
  · rcases hinv.books.deferred n hn with ⟨i, j, hjob, hqueued, rfl⟩ | hpushed | hdone
    · obtain ⟨token, hmem, -, hop⟩ := htoken i j hjob hqueued
      exact .inl ⟨token, hmem, j.op, hop, rfl⟩
    · exact .inr (.inl hpushed)
    · exact .inr (.inr (hinv.ended_cases hdone))
  · obtain ⟨-, -, hwaiting | horphaned⟩ := hflight
    · exact (hinv.books.custody.live token.index op.ident
        (by rw [show s.books.jobs token.index = _ from job_of_waiting hwaiting hop]; rfl)).2
    · exact (hinv.books.custody.live token.index op.ident
        (by rw [show s.books.jobs token.index = _ from job_of_orphaned horphaned hop]; rfl)).2

theorem slotToken_lt : 0 < indexLimit ∧ 1 < indexLimit ∧ 1 < 2 ^ 32 := by decide

/-- The first operation of slot 0 or 1. -/
def slotToken (second : Bool) : OpToken :=
  if second then ⟨1, 1, slotToken_lt.2.1, slotToken_lt.2.2⟩
  else ⟨0, 1, slotToken_lt.1, slotToken_lt.2.2⟩

/-- Two operations find the ring full; a flush takes the first one only, which completes, and the
other is cancelled. -/
def deferredTwice : List (UringEvent Unit) :=
  [.submit .submitSqe () .full, .submit .submitSqe () .full,
    .flushBacklog fun token => if token.index = 0 then .pushed else .full,
    .cancel ⟨slotToken true, .userVisible⟩ true, .completion 0 8 0]

def deferredDriver : UringDriver Unit :=
  (replay (fun s e => s.step e) (fun _ _ => true) (.new 2) deferredTwice).get (by decide +kernel)

theorem backlog_agrees_with_slots_deferred :
    deferredDriver.deferred = [1, 0] ∧ deferredDriver.pushed = [0] ∧
    deferredDriver.completions = [(0, .recorded), (1, .recorded)] ∧
    deferredDriver.backlog.Nodup ∧ deferredDriver.pushed.Nodup := by
  have hreplay : replay (fun s e => s.step e) (fun _ _ => true) (.new 2) deferredTwice =
      some deferredDriver := (Option.some_get _).symm
  have hstart : Run UringStep Always Init (UringDriver.new 2 : UringDriver Unit) := Run.start ⟨2, rfl⟩
  have hrun := hstart.replay (fun _ _ _ hs => hs) (fun _ _ _ => trivial) hreplay
  obtain ⟨hbacklog, -, -, hpushed, -⟩ := backlog_agrees_with_slots hrun
  exact ⟨by decide +kernel, by decide +kernel, by decide +kernel, hbacklog, hpushed⟩

/-- An operation finds the ring full, and its owner gives it up. -/
def abandonedInBacklog : List (UringEvent Unit) :=
  [.submit .submitSqe () .full, .cancel ⟨slotToken false, .abandon⟩ true]

def abandonedDriver : UringDriver Unit :=
  (replay (fun s e => s.step e) (fun _ _ => true) (.new 1) abandonedInBacklog).get
    (by decide +kernel)

/-- A queued operation that was given up leaves the backlog without a record. -/
theorem queued_operation_unrecorded :
    ¬ ∀ s : UringDriver Unit, Run UringStep Always Init s → ∀ n ∈ s.deferred,
      (∃ token ∈ s.backlog, ∃ op, (s.ops.locals token.index).op = some op ∧ op.ident = n) ∨
      n ∈ s.pushed ∨ (n, Fate.recorded) ∈ s.completions := by
  intro hclaim
  have hreplay : replay (fun s e => s.step e) (fun _ _ => true) (.new 1) abandonedInBacklog =
      some abandonedDriver := (Option.some_get _).symm
  have hstart : Run UringStep Always Init (UringDriver.new 1 : UringDriver Unit) := Run.start ⟨1, rfl⟩
  have hrun := hstart.replay (fun _ _ _ hs => hs) (fun _ _ _ => trivial) hreplay
  have hdeferred : abandonedDriver.deferred = [0] := by decide +kernel
  have hbacklog : abandonedDriver.backlog = [] := by decide +kernel
  have hpushed : abandonedDriver.pushed = [] := by decide +kernel
  have hcompletions : abandonedDriver.completions = [(0, .cleanedUp)] := by decide +kernel
  rcases hclaim abandonedDriver hrun 0 (by rw [hdeferred]; exact List.mem_cons_self ..) with
    ⟨token, hmem, -⟩ | hmem | hmem
  · rw [hbacklog] at hmem
    cases hmem
  · rw [hpushed] at hmem
    cases hmem
  · rw [hcompletions] at hmem
    exact absurd hmem (by decide)

end Veloq.Driver.UringDriver
