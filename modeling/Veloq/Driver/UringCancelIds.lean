import Veloq.Driver.UringBacklogRuns
import Veloq.Foundation.Machine
set_option autoImplicit false

/-!
# Driver: the ids of cancel requests

`next_cancel_completion_id` and `handle_cancel_control` of the io_uring driver.  An `AsyncCancel`
carries an id of 16 bits, under which its request waits for the completion.  The ids go round, and
those that are still waited for are passed by.

Requests are submitted and submitted again in the middle of other calls, so that one try is one
step here, and `other` is anything that leaves the requests and the counter alone.
-/

namespace Veloq.Driver

open Veloq.Foundation

/-- `UringBackendEffect` of a cancel completion. -/
inductive CancelEffect where
  | none
  | cancelEnoent (id : Nat) (request : PendingCancel)

/-- `libc::ENOENT`. -/
def ENOENT : Int := 2

/-- What happens to the cancel requests of a driver. -/
inductive CancelEvent where
  | submit (request : PendingCancel) (room : Bool)
  | completion (id : Nat) (res : Int)
  | other

namespace UringDriver

variable {Payload : Type}

/-- `handle_cancel_control`; no effect is an error. -/
def handleCancelControl (s : UringDriver Payload) (id : Nat) (res : Int) :
    UringDriver Payload × Option CancelEffect :=
  match s.pendingCancelCqes.lookup id with
  | none => (s, none)
  | some request =>
      ({ s with pendingCancelCqes := s.pendingCancelCqes.filter fun entry => entry.1 ≠ id },
        some (if res = -ENOENT then .cancelEnoent id request else .none))

/-- One event. -/
inductive CancelStep : UringDriver Payload → CancelEvent → UringDriver Payload → Prop where
  | submit {s : UringDriver Payload} {request : PendingCancel} {room : Bool} :
      CancelStep s (.submit request room) (s.trySubmitCancelRequest request room).1
  | completion {s : UringDriver Payload} {id : Nat} {res : Int} :
      CancelStep s (.completion id res) (s.handleCancelControl id res).1
  | other {s s' : UringDriver Payload} : s'.pendingCancelCqes = s.pendingCancelCqes →
      s'.nextCancelId = s.nextCancelId → CancelStep s .other s'

/-- The ids are in use once each, and the counter is not zero. -/
structure CancelIds (s : UringDriver Payload) : Prop where
  nodup : (s.pendingCancelCqes.map Prod.fst).Nodup
  pos : 0 < s.nextCancelId
  lt : s.nextCancelId < 2 ^ 16

variable {s s' : UringDriver Payload} {token : OpToken}

/-! ## The search -/

/-- The search passes by the ids that are waited for, starting at the counter and leaving out
zero. -/
theorem nextCancelCompletionId_spec {tries : Nat} {found : Option Nat} (hpos : 0 < s.nextCancelId)
    (hlt : s.nextCancelId < 2 ^ 16) (h : nextCancelCompletionId tries s = (s', found)) :
    s'.pendingCancelCqes = s.pendingCancelCqes ∧ 0 < s'.nextCancelId ∧
      s'.nextCancelId < 2 ^ 16 ∧ match found with
      | some id => 0 < id ∧ id < 2 ^ 16 ∧ ∀ entry ∈ s.pendingCancelCqes, entry.1 ≠ id
      | none => ∀ i < tries, ∃ request,
          ((s.nextCancelId - 1 + i) % (2 ^ 16 - 1) + 1, request) ∈ s.pendingCancelCqes := by
  induction tries generalizing s with
  | zero =>
    cases h
    exact ⟨rfl, hpos, hlt, fun i hi => absurd hi (Nat.not_lt_zero i)⟩
  | succ tries ih =>
    have hnext : (if (s.nextCancelId + 1) % 2 ^ 16 = 0 then 1 else (s.nextCancelId + 1) % 2 ^ 16) =
        s.nextCancelId % (2 ^ 16 - 1) + 1 := by
      split <;> omega
    rw [nextCancelCompletionId] at h
    simp only [hnext] at h
    split at h
    · rename_i hused
      obtain ⟨⟨used, request⟩, hmem, heq⟩ := List.any_eq_true.mp hused
      have hsame : used = s.nextCancelId := eq_of_beq heq
      obtain ⟨hpending, hpos', hlt', hfound⟩ :=
        ih (Nat.succ_pos _) (show s.nextCancelId % (2 ^ 16 - 1) + 1 < 2 ^ 16 by omega) h
      refine ⟨hpending, hpos', hlt', ?_⟩
      cases found with
      | some id => exact hfound
      | none =>
        intro i hi
        rcases i with _ | i
        · have hfirst : (s.nextCancelId - 1 + 0) % (2 ^ 16 - 1) + 1 = used := by omega
          exact ⟨request, hfirst ▸ hmem⟩
        · obtain ⟨request', hmem'⟩ := hfound i (Nat.lt_of_succ_lt_succ hi)
          dsimp only at hmem'
          rw [show (s.nextCancelId % (2 ^ 16 - 1) + 1 - 1 + i) % (2 ^ 16 - 1) =
            (s.nextCancelId - 1 + (i + 1)) % (2 ^ 16 - 1) by omega] at hmem'
          exact ⟨request', hmem'⟩
    · rename_i hfree
      cases h
      refine ⟨rfl, Nat.succ_pos _, show s.nextCancelId % (2 ^ 16 - 1) + 1 < 2 ^ 16 by omega, hpos,
        hlt, fun entry hentry heq => hfree (List.any_eq_true.mpr ⟨entry, hentry, ?_⟩)⟩
      exact beq_iff_eq.mpr heq

/-- A completion takes the one request with its id. -/
theorem CancelIds.handleCancelControl (h : s.CancelIds) (id : Nat) (res : Int) :
    (∃ request before after, s.pendingCancelCqes = before ++ (id, request) :: after ∧
      (s.handleCancelControl id res).1 = { s with pendingCancelCqes := before ++ after }) ∨
    (∀ request, (id, request) ∉ s.pendingCancelCqes) ∧
      s.handleCancelControl id res = (s, none) := by
  unfold UringDriver.handleCancelControl
  cases hlookup : s.pendingCancelCqes.lookup id with
  | none =>
    refine .inr ⟨fun request hmem => ?_, rfl⟩
    exact bne_iff_ne.mp (List.lookup_eq_none_iff.mp hlookup _ hmem) rfl
  | some request =>
    obtain ⟨before, after, hsplit, hbefore⟩ := List.lookup_eq_some_iff.mp hlookup
    have hnodup := h.nodup
    rw [hsplit, List.map_append, List.map_cons] at hnodup
    have hother : ∀ entry ∈ before ++ after, entry.1 ≠ id := by
      intro entry hentry heq
      have hnot := (List.nodup_cons.mp (List.nodup_middle.mp hnodup)).1
      rw [← List.map_append] at hnot
      exact hnot (List.mem_map.mpr ⟨entry, hentry, heq⟩)
    refine .inl ⟨request, before, after, hsplit, ?_⟩
    have hkeep : ∀ {part : List (Nat × PendingCancel)}, (∀ entry ∈ part, entry.1 ≠ id) →
        part.filter (fun entry => entry.1 ≠ id) = part :=
      fun hpart => List.filter_eq_self.mpr fun entry hentry => decide_eq_true (hpart entry hentry)
    have hfilter : s.pendingCancelCqes.filter (fun entry => entry.1 ≠ id) = before ++ after := by
      rw [hsplit, List.filter_append, List.filter_cons_of_neg (by simp),
        hkeep fun entry hentry => hother entry (List.mem_append_left _ hentry),
        hkeep fun entry hentry => hother entry (List.mem_append_right _ hentry)]
    rw [← hfilter]

/-! ## Runs -/

theorem CancelIds.step (h : s.CancelIds) {e : CancelEvent} (hs : CancelStep s e s') :
    s'.CancelIds := by
  cases hs with
  | other hpending hcounter =>
    exact ⟨hpending ▸ h.nodup, hcounter ▸ h.pos, hcounter ▸ h.lt⟩
  | @submit request room =>
    unfold trySubmitCancelRequest
    rcases hrun : nextCancelCompletionId (2 ^ 16 - 1) s with ⟨s₁, _ | id⟩
    · obtain ⟨hpending, hpos, hlt, -⟩ := nextCancelCompletionId_spec h.pos h.lt hrun
      exact ⟨hpending ▸ h.nodup, hpos, hlt⟩
    · obtain ⟨hpending, hpos, hlt, -, -, hfree⟩ := nextCancelCompletionId_spec h.pos h.lt hrun
      cases room with
      | false => exact ⟨hpending ▸ h.nodup, hpos, hlt⟩
      | true =>
        refine ⟨List.nodup_cons.mpr ⟨fun hmem => ?_, hpending ▸ h.nodup⟩, hpos, hlt⟩
        obtain ⟨entry, hentry, heq⟩ := List.mem_map.mp hmem
        exact hfree entry (hpending ▸ hentry) heq
  | @completion id res =>
    rcases h.handleCancelControl id res with ⟨request, before, after, hsplit, hrun⟩ | ⟨-, hrun⟩
    · have hnodup := h.nodup
      rw [hsplit, List.map_append, List.map_cons] at hnodup
      rw [hrun]
      refine ⟨?_, h.pos, h.lt⟩
      rw [List.map_append]
      exact (List.nodup_cons.mp (List.nodup_middle.mp hnodup)).2
    · rw [hrun]
      exact h

/-- What the calls of the driver come to, as far as cancel requests go. -/
def Within (s s' : UringDriver Payload) : Prop := Run CancelStep Always (fun t => t = s) s'

namespace Within

theorem trans {t : UringDriver Payload} (h : Within s t) (h' : Within t s') : Within s s' :=
  Run.trans h h'

theorem same (hpending : s'.pendingCancelCqes = s.pendingCancelCqes)
    (hcounter : s'.nextCancelId = s.nextCancelId) : Within s s' :=
  Run.next .other (Run.start rfl) trivial (.other hpending hcounter)

theorem after {t : UringDriver Payload} (h : Within t s')
    (hpending : t.pendingCancelCqes = s.pendingCancelCqes)
    (hcounter : t.nextCancelId = s.nextCancelId) : Within s s' :=
  (same hpending hcounter).trans h

theorem acceptUserEvent {res : Int} {flags : Nat} {source : CompletionSource} :
    Within s (s.acceptUserEvent token res flags source).1 := by
  unfold UringDriver.acceptUserEvent
  dsimp only
  split
  · split <;> exact same rfl rfl
  all_goals exact same rfl rfl

theorem cancelLocally {mode : CancelMode} : Within s (s.cancelLocally token mode).1 := by
  unfold UringDriver.cancelLocally completeLocalCancel
  split <;> rename_i h <;> exact (congrArg Prod.fst h) ▸ acceptUserEvent

theorem trySubmit {request : PendingCancel} {room : Bool} :
    Within s (s.trySubmitCancelRequest request room).1 :=
  Run.next (.submit request room) (Run.start rfl) trivial .submit

theorem submitCancelRequest {request : PendingCancel} {room : Bool} :
    Within s (s.submitCancelRequest request room).1 := by
  have htry : Within s (s.trySubmitCancelRequest request room).1 := trySubmit
  unfold UringDriver.submitCancelRequest
  split <;> rename_i h <;> rw [h] at htry
  · exact htry
  · exact htry.trans (same rfl rfl)

theorem cancelOp {request : PendingCancel} {room : Bool} :
    Within s (s.cancelOp request room).1 := by
  have hflight : ∀ {mode : CancelMode} {result},
      s.cancelInFlight request.target mode = some result → Within s result.1 := by
    intro mode result h
    unfold cancelInFlight at h
    split at h
    · cases h
      exact cancelLocally.after rfl rfl
    · split at h
      · cases h
        exact cancelLocally.after rfl rfl
      · cases h
  unfold UringDriver.cancelOp
  split
  · exact same rfl rfl
  · split
    · exact cancelLocally.after rfl rfl
    · exact same rfl rfl
  · split
    · exact hflight ‹_›
    · split
      · exact submitCancelRequest.after rfl rfl
      · exact submitCancelRequest
  · split
    · exact hflight ‹_›
    · exact submitCancelRequest
  all_goals exact same rfl rfl

theorem flushCancellations {room : PendingCancel → Bool} {limit : Nat} :
    Within s (flushCancellations room limit s).1 := by
  induction limit generalizing s with
  | zero => exact same rfl rfl
  | succ limit ih =>
    unfold UringDriver.flushCancellations
    split
    · exact same rfl rfl
    · rename_i request rest hrest
      split
      · exact same rfl rfl
      · have htry : Within s (s.trySubmitCancelRequest request (room request)).1 := trySubmit
        split <;> rename_i h <;> rw [h] at htry
        · exact htry.trans (ih.after rfl rfl)
        · exact htry
      all_goals exact ih.after rfl rfl

theorem submitFromSlot {attempt : Attempt} : Within s (s.submitFromSlot token attempt).1 := by
  unfold UringDriver.submitFromSlot
  dsimp only
  split <;> exact same rfl rfl

theorem submit {strategy : SubmissionStrategy} {payload : Payload} {attempt : Attempt}
    (h : s.submit strategy payload attempt = some s') : Within s s' := by
  have hinternal : ∀ {s : UringDriver Payload} {token : OpToken} {op : UringOp},
      Within s (s.submitInternal token op attempt).1 := by
    intro s token op
    unfold submitInternal
    split
    · have hslot : Within s (UringDriver.submitFromSlot { s with
          ops := s.ops.modifyLocal token fun slot => { slot with op := some op } }
          token attempt).1 := submitFromSlot.after rfl rfl
      dsimp only
      split <;> rename_i hrun <;> rw [hrun] at hslot
      · exact hslot
      · exact hslot.trans (same rfl rfl)
      · exact hslot.trans (same rfl rfl)
    · exact same rfl rfl
  unfold UringDriver.submit at h
  split at h
  · cases h
  · cases h
    exact same rfl rfl
  · rename_i ops handle halloc
    split at h
    · cases h
      exact same rfl rfl
    · rename_i token htoken
      have hrun : Within s (submitInternal { s with ops := ops.slotSetPayload token payload } token
          ⟨strategy, s.submitted⟩ attempt).1 := hinternal.after rfl rfl
      dsimp only at h
      split at h <;> rename_i heq <;> rw [heq] at hrun <;> cases h
      · exact hrun.trans (same rfl rfl)
      · exact hrun.trans (same rfl rfl)

theorem flushFront {attempt : Attempt} : Within s (s.flushFront token attempt).1 := by
  unfold UringDriver.flushFront
  split
  · exact same rfl rfl
  · have hrun : Within s (s.popBacklog.completeLocalCancel token .abandon).1 :=
      acceptUserEvent.after rfl rfl
    split <;> rename_i h <;> rw [h] at hrun <;> exact hrun
  · have hrun : Within s (s.popBacklog.cancelOp ⟨token, .abandon⟩ (attempt = .pushed)).1 :=
      cancelOp.after rfl rfl
    split <;> rename_i h <;> rw [h] at hrun <;> exact hrun
  · exact same rfl rfl
  · have hrun : Within s (s.submitFromSlot token attempt).1 := submitFromSlot
    split <;> rename_i h <;> rw [h] at hrun
    · exact hrun.trans (same rfl rfl)
    · exact hrun
    · exact hrun.trans (same rfl rfl)
  · have hrun : Within s (s.submitQueuedFromSlot token attempt).1 := by
      unfold submitQueuedFromSlot
      dsimp only
      split
      · exact same rfl rfl
      · split <;> exact same rfl rfl
    split <;> rename_i h <;> rw [h] at hrun
    · exact hrun.trans (same rfl rfl)
    · exact hrun
    · exact hrun.trans (acceptUserEvent.after rfl rfl)

theorem flushLoop {attempt : OpToken → Attempt} {rounds : Nat} :
    Within s (flushLoop attempt rounds s).1 := by
  induction rounds generalizing s with
  | zero => exact same rfl rfl
  | succ rounds ih =>
    unfold UringDriver.flushLoop
    split
    · exact same rfl rfl
    · rename_i token rest hbacklog
      have hfront : Within s (s.flushFront token (attempt token)).1 := flushFront
      split <;> rename_i h <;> rw [h] at hfront
      · exact hfront.trans ih
      · exact hfront
      · exact hfront

theorem giveUp : Within s (s.giveUp token) := by
  unfold UringDriver.giveUp
  split <;> exact same rfl rfl

/-- A completion that the kernel sends for an id takes the request with that id. -/
theorem cancelCompletion {id : Nat} : Within s { s with
    pendingCancelCqes := s.pendingCancelCqes.filter fun entry => entry.1 ≠ id } := by
  have hrun : Within s (s.handleCancelControl id 0).1 :=
    Run.next (.completion id 0) (Run.start rfl) trivial .completion
  unfold handleCancelControl at hrun
  split at hrun
  · rename_i hlookup
    refine same (List.filter_eq_self.mpr fun entry hentry => decide_eq_true fun heq => ?_) rfl
    exact bne_iff_ne.mp (List.lookup_eq_none_iff.mp hlookup entry hentry) heq.symm
  · exact hrun

theorem step {e : UringEvent Payload} (hs : UringStep s e s') : Within s s' := by
  cases e with
  | submit strategy payload attempt => exact submit hs
  | cancel request room =>
    cases hs
    split
    · exact giveUp.trans cancelOp
    · exact cancelOp
  | flushCancellations room =>
    cases hs
    exact flushCancellations
  | flushBacklog attempt =>
    cases hs
    exact flushLoop
  | completion position res flags =>
    dsimp only [UringStep, UringDriver.step] at hs
    split at hs
    · cases hs
      unfold acceptKernel
      split
      · exact acceptUserEvent.after rfl rfl
      all_goals exact same rfl rfl
    · cases hs
  | cancelCompletion id =>
    cases hs
    exact cancelCompletion
  | timer position =>
    dsimp only [UringStep, UringDriver.step] at hs
    split at hs
    · cases hs
      exact acceptUserEvent.after rfl rfl
    · cases hs
  | take token =>
    cases hs
    exact same rfl rfl
  | orphan token =>
    cases hs
    exact giveUp.trans (same rfl rfl)

end Within

/-- Whatever a driver does, in the middle of its calls too, comes to tries and completions of
cancel requests. -/
theorem cancelRun_of_driverRun (h : Run UringStep Always Init s) : Run CancelStep Always Init s := by
  induction h with
  | start hinit => exact .start hinit
  | next e _ _ hs ih => exact ih.trans (Within.step hs)

theorem cancelRun_of_driverRun_deferred :
    Run CancelStep Always Init deferredDriver ∧ deferredDriver.pushed = [0] := by
  have hreplay : replay (fun s e => s.step e) (fun _ _ => true) (.new 2) deferredTwice =
      some deferredDriver := (Option.some_get _).symm
  have hstart : Run UringStep Always Init (UringDriver.new 2 : UringDriver Unit) := .start ⟨2, rfl⟩
  exact ⟨cancelRun_of_driverRun (hstart.replay (fun _ _ _ hs => hs) (fun _ _ _ => trivial)
    hreplay), by decide +kernel⟩

end UringDriver

end Veloq.Driver
