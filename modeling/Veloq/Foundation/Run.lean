set_option autoImplicit false

/-!
# Foundation: runs of a system whose steps may be restricted

`Run step allowed init s`: the state `s` is reached from a state of `init` by steps
that are all allowed where they are taken.  With `Always` every step is.  A
property that the allowed steps keep holds in every state of such runs.
-/

namespace Veloq.Foundation

variable {σ ε : Type}

/-- No restriction on the steps. -/
def Always (_ : σ) (_ : ε) : Prop := True

/-- The states reached by allowed steps. -/
inductive Run (step : σ → ε → σ → Prop) (allowed : σ → ε → Prop) (init : σ → Prop) : σ → Prop where
  | start {s : σ} : init s → Run step allowed init s
  | next {s s' : σ} (e : ε) : Run step allowed init s → allowed s e → step s e s' →
      Run step allowed init s'

namespace Run

variable {step : σ → ε → σ → Prop} {allowed allowed' : σ → ε → Prop} {init : σ → Prop} {s : σ}

/-- The invariant rule. -/
theorem invariant {inv : σ → Prop} (hinit : ∀ s, init s → inv s)
    (hstep : ∀ s e s', inv s → allowed s e → step s e s' → inv s')
    (h : Run step allowed init s) : inv s := by
  induction h with
  | start hs => exact hinit _ hs
  | next e _ hallowed hs ih => exact hstep _ e _ ih hallowed hs

/-- A run that obeys a restriction obeys every weaker one. -/
theorem mono (himp : ∀ s e, allowed s e → allowed' s e) (h : Run step allowed init s) :
    Run step allowed' init s := by
  induction h with
  | start hs => exact start hs
  | next e _ hallowed hs ih => exact next e ih (himp _ e hallowed) hs

/-- Runs can be put together. -/
theorem trans {s' : σ} (h : Run step allowed init s) (h' : Run step allowed (fun t => t = s) s') :
    Run step allowed init s' := by
  induction h' with
  | start heq => exact heq ▸ h
  | next e _ hallowed hs ih => exact next e ih hallowed hs

end Run

/-- The state after a list of events, if each can happen and passes a test. -/
def replay (next : σ → ε → Option σ) (test : σ → ε → Bool) : σ → List ε → Option σ
  | s, [] => some s
  | s, e :: es =>
      if test s e then
        match next s e with
        | none => none
        | some s' => replay next test s' es
      else
        none

/-- What every event of the list keeps holds at its end. -/
theorem replay_invariant {next : σ → ε → Option σ} {test : σ → ε → Bool} {p : σ → Prop}
    {s s' : σ} {es : List ε} (hstep : ∀ e ∈ es, ∀ s s', p s → next s e = some s' → p s')
    (hs : p s) (h : replay next test s es = some s') : p s' := by
  induction es generalizing s with
  | nil =>
    cases h
    exact hs
  | cons e es ih =>
    unfold replay at h
    split at h
    · split at h
      · exact absurd h (by simp)
      · rename_i m hm
        exact ih (fun e' he' => hstep e' (List.mem_cons_of_mem e he'))
          (hstep e (List.mem_cons_self ..) s m hs hm) h
    · exact absurd h (by simp)

/-- A run goes on along events that keep `p` and that, given `p`, pass a test for being
allowed. -/
theorem Run.replay_within {step : σ → ε → σ → Prop} {allowed : σ → ε → Prop} {init : σ → Prop}
    {next : σ → ε → Option σ} {test : σ → ε → Bool} {p : σ → Prop} {s s' : σ} {es : List ε}
    (hnext : ∀ s e s', next s e = some s' → step s e s')
    (hkeep : ∀ e ∈ es, ∀ s s', p s → next s e = some s' → p s')
    (htest : ∀ s e, p s → test s e = true → allowed s e) (hs : p s)
    (h : Run step allowed init s) (hreplay : replay next test s es = some s') :
    Run step allowed init s' := by
  induction es generalizing s with
  | nil =>
    cases hreplay
    exact h
  | cons e es ih =>
    unfold Foundation.replay at hreplay
    split at hreplay
    · rename_i hpass
      split at hreplay
      · exact absurd hreplay (by simp)
      · rename_i m hm
        exact ih (fun e' he' => hkeep e' (List.mem_cons_of_mem e he'))
          (hkeep e (List.mem_cons_self ..) s m hs hm) (h.next e (htest s e hs hpass) (hnext s e m hm))
          hreplay
    · exact absurd hreplay (by simp)

/-- A run goes on along events that pass a test for being allowed. -/
theorem Run.replay {step : σ → ε → σ → Prop} {allowed : σ → ε → Prop} {init : σ → Prop}
    {next : σ → ε → Option σ} {test : σ → ε → Bool}
    (hnext : ∀ s e s', next s e = some s' → step s e s')
    (htest : ∀ s e, test s e = true → allowed s e) {s s' : σ} {es : List ε}
    (h : Run step allowed init s) (hreplay : replay next test s es = some s') :
    Run step allowed init s' :=
  Run.replay_within (p := fun _ => True) hnext (fun _ _ _ _ _ _ => trivial)
    (fun s e _ => htest s e) trivial h hreplay

end Veloq.Foundation
