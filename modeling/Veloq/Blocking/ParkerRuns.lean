import Veloq.Blocking.Parker
set_option autoImplicit false

/-!
# Blocking: one token for one return of `park`

The word is `NOTIFIED` exactly while there is a token, so that a token is never overlooked.  But
only the first `compare_exchange` of `park` and the `swap` of `park_timeout` take it: a `park` that
finds the token later, in its second `compare_exchange` or after a wait, returns and leaves the
word as it is, and the next `park` returns for the same token.
-/

namespace Veloq.Blocking

open Veloq.Foundation

namespace Parker

variable {s s' : Parker} {e : ParkerEvent}

theorem parked_ne_notified : parked ≠ notified := by decide

theorem empty_ne_notified : empty ≠ notified := by decide

/-- The token is in the word.  A sleeper without a token sleeps on `PARKED`, and with one it is
going to be woken. -/
structure Inv (s : Parker) : Prop where
  token_iff : s.token = true ↔ s.state = notified
  asleep : s.isAsleep = true → s.token = false → s.state = parked
  woken : s.isAsleep = true → s.token = true → ∃ u, s.unparkers u = .wake

theorem Inv.new : Inv new := ⟨by decide, fun h => (by cases h), fun h => (by cases h)⟩

/-- The thread is not asleep, and the word and the token are as before. -/
theorem Inv.awake {t : Parker} (h : Inv s) (htoken : t.token = s.token)
    (hstate : t.state = s.state) (hawake : t.isAsleep = false) : Inv t := by
  refine ⟨?_, fun hasleep => ?_, fun hasleep => ?_⟩
  · rw [htoken, hstate]
    exact h.token_iff
  · rw [hawake] at hasleep
    cases hasleep
  · rw [hawake] at hasleep
    cases hasleep

/-- The thread is not asleep, and the word is not `NOTIFIED`. -/
theorem Inv.spent {t : Parker} (htoken : t.token = false) (hstate : t.state ≠ notified)
    (hawake : t.isAsleep = false) : Inv t := by
  refine ⟨?_, fun hasleep => ?_, fun hasleep => ?_⟩
  · rw [htoken]
    exact ⟨fun hf => Bool.noConfusion hf, fun hn => absurd hn hstate⟩
  · rw [hawake] at hasleep
    cases hasleep
  · rw [hawake] at hasleep
    cases hasleep

theorem leave_thread (timed consumed : Bool) : (s.leave timed consumed).thread = .idle := by
  cases timed <;> rfl

theorem leave_state (timed consumed : Bool) : (s.leave timed consumed).state = s.state := by
  cases timed <;> rfl

theorem leave_token (timed consumed : Bool) : (s.leave timed consumed).token = s.token := by
  cases timed <;> rfl

theorem isAsleep_of_thread {pc : ParkPc} (h : s.thread = pc) (hpc : ∀ timed, pc ≠ .asleep timed) :
    s.isAsleep = false := by
  unfold isAsleep
  split
  · rename_i timed hasleep
    exact absurd (h.symm.trans hasleep) (hpc timed)
  · rfl

theorem isAsleep_leave (timed consumed : Bool) : (s.leave timed consumed).isAsleep = false :=
  isAsleep_of_thread (leave_thread timed consumed) fun _ => by simp

theorem isAsleep_afterWait (timed : Bool) : (s.goto (afterWait timed)).isAsleep = false := by
  cases timed <;> rfl

theorem Inv.advance (h : Inv s) (hs : s.advance = some s') : Inv s' := by
  unfold Parker.advance at hs
  split at hs
  · rename_i timed hpc
    split at hs <;> cases hs
    · refine Inv.spent ?_ ?_ (isAsleep_leave timed true)
      · rw [leave_token]
      · rw [leave_state]
        exact empty_ne_notified
    · exact h.awake rfl rfl rfl
  · rename_i timed hpc
    split at hs <;> cases hs
    · rename_i hempty
      have htoken : s.token = false := by
        rw [← Bool.not_eq_true, h.token_iff, hempty]
        exact empty_ne_notified
      refine Inv.spent htoken parked_ne_notified ?_
      cases timed <;> rfl
    · exact h.awake (leave_token timed false) (leave_state timed false) (isAsleep_leave timed false)
  · cases hs
    split
    · exact h.awake rfl rfl rfl
    · exact h.awake rfl rfl rfl
  · rename_i timed hpc
    cases hs
    split
    · rename_i hparked
      have htoken : s.token = false := by
        rw [← Bool.not_eq_true, h.token_iff, hparked]
        exact parked_ne_notified
      refine ⟨h.token_iff, fun _ _ => hparked, fun _ hf => ?_⟩
      exact absurd (htoken.symm.trans hf) Bool.false_ne_true
    · exact h.awake rfl rfl (isAsleep_afterWait timed)
  · cases hs
    exact Inv.spent rfl empty_ne_notified rfl
  · cases hs
  · cases hs

theorem rouse_token : s.rouse.token = s.token := by
  unfold rouse
  split <;> rfl

theorem rouse_state : s.rouse.state = s.state := by
  unfold rouse
  split <;> rfl

theorem rouse_returns : s.rouse.returns = s.returns := by
  unfold rouse
  split <;> rfl

theorem rouse_unparks : s.rouse.unparks = s.unparks := by
  unfold rouse
  split <;> rfl

/-- Nobody sleeps through a wake. -/
theorem isAsleep_rouse : s.rouse.isAsleep = false := by
  unfold rouse
  split
  · rename_i timed _
    exact isAsleep_afterWait timed
  · rename_i hne
    unfold isAsleep
    split
    · rename_i timed hasleep
      exact absurd hasleep (hne timed)
    · rfl

/-- An unparking thread that is going to wake the sleeper is not the one that starts. -/
theorem woken_of_update {u v : Nat} {pc : UnparkPc} (hu : s.unparkers u = .wake)
    (hv : s.unparkers v ≠ .wake) : (s.setUnparker v pc).unparkers u = .wake := by
  have hne : u ≠ v := fun heq => hv (heq ▸ hu)
  show Function.update s.unparkers v pc u = .wake
  rw [Function.update_of_ne hne, hu]

/-- Every step keeps the invariant. -/
theorem Inv.step (h : Inv s) (hs : ParkerStep s e s') : Inv s' := by
  unfold ParkerStep at hs
  cases e with
  | park | parkTimeout =>
      obtain ⟨_, hs⟩ := Option.ite_none_right_eq_some.mp hs
      cases hs
      exact h.awake rfl rfl rfl
  | advance => exact h.advance hs
  | timeout =>
      obtain ⟨_, hs⟩ := Option.ite_none_right_eq_some.mp hs
      cases hs
      exact h.awake rfl rfl rfl
  | interrupt =>
      simp only [Parker.step] at hs
      split at hs <;> cases hs
      rename_i timed _
      exact h.awake rfl rfl (isAsleep_afterWait timed)
  | unpark u =>
      obtain ⟨hidle, hs⟩ := Option.ite_none_right_eq_some.mp hs
      cases hs
      refine ⟨h.token_iff, h.asleep, fun hasleep htoken => ?_⟩
      obtain ⟨w, hw⟩ := h.woken hasleep htoken
      exact ⟨w, woken_of_update hw (by rw [hidle]; decide)⟩
  | unparkSwap u =>
      obtain ⟨hswap, hs⟩ := Option.ite_none_right_eq_some.mp hs
      cases hs
      refine ⟨iff_of_true rfl rfl, fun _ hf => Bool.noConfusion hf, fun hasleep _ => ?_⟩
      -- the first unpark of a sleeper finds `PARKED` and has to wake it
      cases htoken : s.token with
      | false =>
          refine ⟨u, ?_⟩
          show Function.update s.unparkers u _ u = .wake
          rw [Function.update_self, if_pos (h.asleep hasleep htoken)]
      | true =>
          obtain ⟨w, hw⟩ := h.woken hasleep htoken
          exact ⟨w, woken_of_update hw (by rw [hswap]; decide)⟩
  | unparkWake u =>
      obtain ⟨_, hs⟩ := Option.ite_none_right_eq_some.mp hs
      cases hs
      exact h.awake rouse_token rouse_state isAsleep_rouse

/-! ## Nobody stays blocked -/

/-- What the parking thread does with a word that is `NOTIFIED`: the call ends, unless there is
still a wait on the way, which does not go to sleep. -/
theorem advance_of_notified (hword : s.state = notified) (hawake : s.isAsleep = false) :
    s.thread = .idle ∨
      ∃ s', s.advance = some s' ∧ (s'.thread = .idle ∨
        ∃ timed, s.thread = .wait timed ∧ s' = s.goto (afterWait timed)) := by
  have hparked : s.state ≠ parked := by
    rw [hword]
    exact parked_ne_notified.symm
  have hempty : s.state ≠ empty := by
    rw [hword]
    exact empty_ne_notified.symm
  cases hpc : s.thread with
  | idle => exact .inl rfl
  | firstCas timed =>
      refine .inr ⟨leave { s with state := empty, token := false } timed true, ?_,
        .inl (leave_thread timed true)⟩
      simp only [Parker.advance, hpc, if_pos hword]
  | secondCas timed =>
      refine .inr ⟨s.leave timed false, ?_, .inl (leave_thread timed false)⟩
      simp only [Parker.advance, hpc, if_neg hempty]
  | load =>
      refine .inr ⟨s.leave false false, ?_, .inl rfl⟩
      simp only [Parker.advance, hpc, if_neg hparked]
  | wait timed =>
      refine .inr ⟨s.goto (afterWait timed), ?_, .inr ⟨timed, rfl, rfl⟩⟩
      simp only [Parker.advance, hpc, if_neg hparked]
  | asleep timed =>
      unfold isAsleep at hawake
      rw [hpc] at hawake
      cases hawake
  | swap =>
      refine .inr ⟨{ s.leave true false with state := empty, token := false }, ?_, .inl rfl⟩
      simp only [Parker.advance, hpc]

theorem alone_one : s.alone 1 = s.advance := by
  cases hs : s.advance with
  | none => simp only [alone, hs, Option.bind_none]
  | some s' => simp only [alone, hs, Option.bind_some]

/-- A thread that does not sleep and finds the word `NOTIFIED` gets to the end of its call. -/
theorem returns_of_notified (hword : s.state = notified) (hawake : s.isAsleep = false) :
    ∃ n s', s.alone n = some s' ∧ s'.thread = .idle := by
  rcases advance_of_notified hword hawake with hidle | ⟨s₁, hfirst, hidle | ⟨timed, _, rfl⟩⟩
  · exact ⟨0, s, rfl, hidle⟩
  · exact ⟨1, s₁, alone_one.trans hfirst, hidle⟩
  · -- the wait has ended, and the step after it ends the call
    have hawake₁ := isAsleep_afterWait (s := s) timed
    rcases advance_of_notified (s := s.goto (afterWait timed)) hword hawake₁ with
      hidle | ⟨s₂, hsecond, hidle | ⟨timed', hwait, _⟩⟩
    · exact ⟨1, _, alone_one.trans hfirst, hidle⟩
    · refine ⟨2, s₂, ?_, hidle⟩
      rw [alone, hfirst, Option.bind_some, alone_one, hsecond]
    · cases timed <;> cases hwait

theorem isAsleep_of_idle (h : s.thread = .idle) : s.isAsleep = false :=
  isAsleep_of_thread h fun _ => by simp

theorem Inv.neverBlocks (h : Inv s) : s.NeverBlocks := by
  refine ⟨fun htoken s' hs => ?_, fun htoken hasleep => h.woken hasleep htoken,
    fun htoken hawake => returns_of_notified (h.token_iff.mp htoken) hawake⟩
  cases hawake : s.isAsleep with
  | true =>
      unfold isAsleep at hawake
      split at hawake
      · rename_i timed hpc
        simp only [Parker.advance, hpc] at hs
        cases hs
      · cases hawake
  | false =>
      rcases advance_of_notified (h.token_iff.mp htoken) hawake with
        hidle | ⟨s₁, hfirst, hidle | ⟨timed, _, rfl⟩⟩
      · simp only [Parker.advance, hidle] at hs
        cases hs
      · rw [hfirst] at hs
        cases hs
        exact isAsleep_of_idle hidle
      · rw [hfirst] at hs
        cases hs
        exact isAsleep_afterWait timed

/-- In every run a thread that parks with a token does not stay blocked. -/
theorem run_neverBlocks (hrun : Run ParkerStep Always (fun s => s = new) s) : s.NeverBlocks := by
  have hinv : Inv s := by
    refine Run.invariant (fun s hnew => ?_) (fun s e s' h _ hs => ?_) hrun
    · rw [hnew]
      exact Inv.new
    · exact h.step hs
  exact hinv.neverBlocks

/-- An unpark finds the thread asleep, and has not woken it yet. -/
def asleepWithToken : Parker :=
  (replay step (fun _ _ => true) new
    [.park, .advance, .advance, .advance, .advance, .unpark 0, .unparkSwap 0]).get (by decide)

theorem run_neverBlocks_asleep :
    asleepWithToken.isAsleep = true ∧ ∃ u, asleepWithToken.unparkers u = .wake := by
  have hreplay : replay step (fun _ _ => true) new
      [.park, .advance, .advance, .advance, .advance, .unpark 0, .unparkSwap 0] =
      some asleepWithToken := (Option.some_get _).symm
  have hstart : Run ParkerStep Always (fun s => s = new) new := .start rfl
  have hblocks := run_neverBlocks (hstart.replay (fun _ _ _ hs => hs) (fun _ _ _ => trivial) hreplay)
  exact ⟨by decide, hblocks.woken (by decide) (by decide)⟩

/-! ## What the returns of `park` consume -/

/-- As long as `park` returns only from its first `compare_exchange`, a token is younger than the
last return. -/
structure Books (s : Parker) : Prop where
  inv : Inv s
  young : s.token = true → 0 < s.unparks
  returns : s.ReturnsConsume

/-- The step is no return of `park` and no unpark. -/
theorem Books.quiet (h : Books s) (hinv : Inv s') (hunparks : s'.unparks = s.unparks)
    (hreturns : s'.returns = s.returns) (htoken : s'.token = true → s.token = true) :
    Books s' := by
  refine ⟨hinv, fun ht => ?_, ?_⟩
  · rw [hunparks]
    exact h.young (htoken ht)
  · unfold ReturnsConsume
    rw [hreturns]
    exact h.returns

theorem Books.advance (h : Books s) (hcare : s.Prompt .advance) (hs : s.advance = some s') :
    Books s' := by
  have hinv := h.inv.advance hs
  obtain ⟨hsecond, hload⟩ := hcare
  unfold Parker.advance at hs
  split at hs
  · rename_i timed hpc
    split at hs <;> cases hs
    · rename_i hword
      cases timed with
      | true => exact h.quiet hinv rfl rfl fun hf => Bool.noConfusion hf
      | false =>
          refine ⟨hinv, fun hf => Bool.noConfusion hf, fun r hr => ?_⟩
          rcases List.mem_append.mp hr with hold | hnew
          · exact h.returns r hold
          · rw [List.mem_singleton.mp hnew]
            exact ⟨rfl, h.young (h.inv.token_iff.mpr hword)⟩
    · exact h.quiet hinv rfl rfl id
  · rename_i timed hpc
    split at hs <;> cases hs
    · exact h.quiet hinv rfl rfl id
    · rename_i hword
      cases timed with
      | true => exact h.quiet hinv rfl rfl id
      | false => exact absurd (hsecond hpc) hword
  · rename_i hpc
    cases hs
    rw [if_pos (hload hpc)] at hinv ⊢
    exact h.quiet hinv rfl rfl id
  · cases hs
    exact h.quiet hinv rfl rfl id
  · cases hs
    exact h.quiet hinv rfl rfl fun hf => Bool.noConfusion hf
  · cases hs
  · cases hs

theorem Books.step (h : Books s) (hcare : s.Prompt e) (hs : ParkerStep s e s') : Books s' := by
  have hinv := h.inv.step hs
  unfold ParkerStep at hs
  cases e with
  | park | parkTimeout | timeout | unpark =>
      obtain ⟨_, hs⟩ := Option.ite_none_right_eq_some.mp hs
      cases hs
      exact h.quiet hinv rfl rfl id
  | advance => exact h.advance hcare hs
  | interrupt =>
      simp only [Parker.step] at hs
      split at hs <;> cases hs
      exact h.quiet hinv rfl rfl id
  | unparkSwap u =>
      obtain ⟨_, hs⟩ := Option.ite_none_right_eq_some.mp hs
      cases hs
      exact ⟨hinv, fun _ => Nat.succ_pos _, h.returns⟩
  | unparkWake u =>
      obtain ⟨_, hs⟩ := Option.ite_none_right_eq_some.mp hs
      cases hs
      refine h.quiet hinv rouse_unparks rouse_returns fun ht => ?_
      rw [rouse_token] at ht
      exact ht

/-- **Runs in which `park` hands out one token at a time.**  In every run of a new parker with one
parking thread, any number of unparking threads and every order of their atomic and futex steps,
in which `park` never returns after its first `compare_exchange`: a thread that parks with a token
does not stay blocked, and every return of `park` has consumed a token, with an unpark since the
return before it. -/
theorem one_token_per_return (s : Parker)
    (hrun : Run ParkerStep Prompt (fun s => s = new) s) : s.NeverBlocks ∧ s.ReturnsConsume := by
  have hbooks : Books s := by
    refine Run.invariant (fun s hnew => ?_) (fun s e s' h hcare hs => ?_) hrun
    · rw [hnew]
      refine ⟨Inv.new, fun hf => Bool.noConfusion hf, fun r hr => ?_⟩
      cases hr
    · exact h.step hcare hs
  exact ⟨hbooks.inv.neverBlocks, hbooks.returns⟩

/-- An unpark, and a `park` that takes its token. -/
theorem one_token_per_return_example :
    ∃ s : Parker, s.returns = [{ consumed := true, unparks := 1 }] ∧
      s.NeverBlocks ∧ s.ReturnsConsume := by
  have hstart : Run ParkerStep Prompt (fun s => s = new) new := .start rfl
  have hunpark := hstart.next (ParkerEvent.unpark 0) trivial rfl
  have hswap := hunpark.next (ParkerEvent.unparkSwap 0) trivial rfl
  have hpark := hswap.next ParkerEvent.park trivial rfl
  have hcas := hpark.next ParkerEvent.advance ⟨fun h => (by cases h), fun h => (by cases h)⟩ rfl
  exact ⟨_, rfl, one_token_per_return _ hcas⟩

/-- A `park` that has to wait, and one after it. -/
def unparkLate : List ParkerEvent :=
  [.park, .advance, .advance, .advance, .advance, .unpark 0, .unparkSwap 0, .unparkWake 0,
    .advance, .park, .advance]

def parkedTwice : Parker :=
  (replay step (fun _ _ => true) new unparkLate).get (by decide)

/-- The second return of `park` has had no unpark of its own. -/
theorem token_served_twice :
    ¬ ∀ s : Parker, Run ParkerStep Always (fun s => s = new) s →
      s.NeverBlocks ∧ s.ReturnsConsume := by
  intro hall
  have hstart : Run ParkerStep Always (fun s => s = new) new := .start rfl
  have hreplay : replay step (fun _ _ => true) new unparkLate = some parkedTwice :=
    (Option.some_get _).symm
  have hrun := hstart.replay (fun _ _ _ hs => hs) (fun _ _ _ => trivial) hreplay
  have hlast := (hall parkedTwice hrun).2 ⟨true, 0⟩ (by decide)
  exact absurd hlast.2 (by decide)

end Parker

end Veloq.Blocking
