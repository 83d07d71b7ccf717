import Veloq.Runtime.TokenLinksSteps
set_option autoImplicit false

/-!
# Runtime: links between shared tokens do not dangle in careful runs

Two handles that are dropped at the same time can each find the other one still there, and
then neither takes the token out of its parent's list.  Where every handle that leaves this to
another one is right to do so, the children of a token that is alive are alive.
-/

namespace Veloq.Runtime

open Veloq.Foundation

namespace TokenForest

variable {s s' : TokenForest} {f g h : Nat}

namespace Inv

/-- Every careful step keeps the invariant. -/
theorem step (hi : s.Inv) {e : LinkAction} (hborrow : s.Borrows e) (hcare : s.Careful e)
    (hs : LinkStep s e s') : s'.Inv := by
  unfold LinkStep TokenForest.step at hs
  cases e with
  | new =>
    cases hs
    exact hi.addNew false
  | clone h =>
    simp only at hs
    split at hs
    · rename_i hlive
      cases hs
      exact hi.clone hlive
    · exact absurd hs (by simp)
  | drop h =>
    simp only at hs
    split at hs
    · rename_i hlive
      cases hs
      exact hi.setState (by rw [hlive]; simp) (hborrow h rfl) nofun nofun
        (by rintro q (hq | hq) <;> exact absurd hq (by simp)) (Or.inl rfl)
    · exact absurd hs (by simp)
  | advanceDrop h => exact hi.advanceDrop (hcare h rfl) hs
  | child f h =>
    simp only at hs
    split at hs
    · rename_i hlive
      cases hs
      exact hi.child hlive.2
    · exact absurd hs (by simp)
  | linkChild f p c =>
    simp only at hs
    split at hs
    · rename_i hlive
      cases hs
      exact hi.linkChild hlive.2.1 hlive.2.2.1 hlive.2.2.2
    · exact absurd hs (by simp)
  | cancel f h =>
    simp only at hs
    split at hs
    · rename_i hlive
      cases hs
      refine hi.gotoVisit (List.mem_singleton_self h) fun i hb => ?_
      rw [List.mem_singleton.mp hb]
      exact hlive.2
    · exact absurd hs (by simp)
  | advance f => exact hi.advance hs

theorem initial : Inv TokenForest.empty := by
  refine ⟨fun _ _ => rfl, fun _ hne => absurd rfl hne, nofun, nofun,
    fun p c hc => absurd hc List.not_mem_nil, fun p => List.nodup_nil, fun t _ => ⟨rfl, rfl⟩,
    fun f h hb => absurd hb List.not_mem_nil, nofun, nofun, ?_, fun f => List.nodup_nil,
    fun f => trivial, ?_⟩
  · rintro f t (ht | ⟨p, hp, -⟩)
    · exact absurd ht List.not_mem_nil
    · exact absurd hp (by simp [TokenForest.empty, LinkCall.pushing])
  · rintro c (⟨p, -, hc⟩ | ⟨f, hv⟩)
    · exact absurd hc List.not_mem_nil
    · exact absurd hv List.not_mem_nil

end Inv

end TokenForest

/-- In every state of a careful run the children of a token that is alive are alive, and so is
every token that a cancellation is visiting. -/
theorem token_links_alive {s : TokenForest}
    (h : Run LinkStep (fun s e => s.Borrows e ∧ s.Careful e) (· = .empty) s) :
    (∀ p c, 0 < s.strong p → c ∈ (s.node p).children → 0 < s.strong c) ∧
      ∀ f, ∀ c ∈ (s.calls f).visiting, 0 < s.strong c := by
  have hi : s.Inv := by
    refine h.invariant (fun _ hs => ?_) fun _ _ _ hinv hallowed hs =>
      hinv.step hallowed.1 hallowed.2 hs
    rw [hs]
    exact TokenForest.Inv.initial
  exact ⟨fun p c hpos hc => hi.anchored_pos (hi.anchored c (Or.inl ⟨p, hpos, hc⟩)),
    fun f c hv => hi.anchored_pos (hi.anchored c (Or.inr ⟨f, hv⟩))⟩

namespace TokenForest

variable {s s' : TokenForest} {f g h : Nat}

/-! ## Runs with one call at a time -/

theorem advance_calls (hs : s.advance f = some s') (hne : g ≠ f) : s'.calls g = s.calls g := by
  have hgoto : ∀ (c : TokenForest) call, (c.goto f call).calls g = c.calls g :=
    fun _ _ => goto_of_ne hne
  unfold advance at hs
  split at hs
  all_goals
    try simp only [linkParent, linkRecheck, linkPush, visit, drain] at hs
    repeat' split at hs
  all_goals cases hs <;> exact hgoto ..

theorem advanceDrop_calls (hs : s.advanceDrop h = some s') : s'.calls = s.calls := by
  unfold advanceDrop at hs
  split at hs
  all_goals
    try simp only [dropRead, dropUpgrade, leave] at hs
    repeat' split at hs
  all_goals cases hs <;> rfl

end TokenForest

/-- The call that an action is about. -/
def LinkAction.caller : LinkAction → Option Nat
  | child f _ | linkChild f _ _ | cancel f _ | advance f => some f
  | _ => none

namespace TokenForest

/-- Every call but the first one is idle. -/
def Single (s : TokenForest) : Prop := ∀ g, g ≠ 0 → s.calls g = .idle

theorem Single.step {s s' : TokenForest} {e : LinkAction} (hsingle : s.Single) (he : ∀ f, e.caller = some f → f = 0)
    (hs : s.step e = some s') : s'.Single := by
  intro g hg
  refine Eq.trans ?_ (hsingle g hg)
  have hne : ∀ f, e.caller = some f → g ≠ f := by
    rintro f hf rfl
    exact hg (he g hf)
  unfold TokenForest.step at hs
  cases e with
  | new => cases hs; rfl
  | advanceDrop h => rw [advanceDrop_calls hs]
  | advance f => exact advance_calls hs (hne f rfl)
  | clone h => simp only at hs; split at hs <;> cases hs; rfl
  | drop h => simp only at hs; split at hs <;> cases hs; rfl
  | child f h => simp only at hs; split at hs <;> cases hs; exact goto_of_ne (hne f rfl)
  | linkChild f p c => simp only at hs; split at hs <;> cases hs; exact goto_of_ne (hne f rfl)
  | cancel f h => simp only at hs; split at hs <;> cases hs; exact goto_of_ne (hne f rfl)

/-- A test that a handle that is dropped is not borrowed. -/
def borrowsTest (s : TokenForest) : LinkAction → Bool
  | .drop h => decide (h ∉ (s.calls 0).borrowed)
  | _ => true

theorem borrows_of_test (s : TokenForest) (e : LinkAction) (hsingle : s.Single)
    (htest : borrowsTest s e = true) : s.Borrows e := by
  rintro h rfl f hb
  by_cases hf : f = 0
  · rw [hf] at hb
    exact of_decide_eq_true htest hb
  · rw [hsingle f hf] at hb
    exact absurd hb List.not_mem_nil

/-- A test for careful steps. -/
def carefulTest (s : TokenForest) (e : LinkAction) : Bool :=
  borrowsTest s e &&
    match e with
    | .advanceDrop h =>
        decide ((s.handle h).state = .read → s.strong (s.tokenOf h) ≠ 1 →
          ∃ i < s.handles, i ≠ h ∧ s.tokenOf i = s.tokenOf h ∧ (s.handle i).state.keeps = true)
    | _ => true

theorem careful_of_test (s : TokenForest) (e : LinkAction) (hsingle : s.Single)
    (htest : carefulTest s e = true) : s.Borrows e ∧ s.Careful e := by
  unfold carefulTest at htest
  rw [Bool.and_eq_true] at htest
  refine ⟨borrows_of_test s e hsingle htest.1, ?_⟩
  rintro h rfl hread hmany _
  obtain ⟨i, -, hi⟩ := of_decide_eq_true htest.2 hread hmany
  exact ⟨i, hi⟩

end TokenForest

/-- A token and a child of it, with two handles on the child. -/
def clonedChild : List LinkAction :=
  ([.new, .child 0 0] : List LinkAction) ++ List.replicate 5 (.advance 0) ++
    ([.clone 1] : List LinkAction)

/-- One of them is dropped, and a cancellation begins. -/
def droppedClone : List LinkAction :=
  clonedChild ++ ([.drop 1, .advanceDrop 1, .advanceDrop 1, .cancel 0 0] : List LinkAction) ++
    List.replicate 3 (.advance 0)

def droppedForest : TokenForest :=
  (replay TokenForest.step TokenForest.carefulTest .empty droppedClone).get (by decide +kernel)

theorem token_links_visited_alive :
    1 ∈ (droppedForest.calls 0).visiting ∧ 0 < droppedForest.strong 1 := by
  have hreplay : replay TokenForest.step TokenForest.carefulTest .empty droppedClone =
      some droppedForest := (Option.some_get _).symm
  have hcaller : ∀ e ∈ droppedClone, ∀ f, e.caller = some f → f = 0 := by decide +kernel
  have hstart : Run LinkStep (fun s e => s.Borrows e ∧ s.Careful e) (· = .empty)
      TokenForest.empty := .start rfl
  have hrun := hstart.replay_within (fun _ _ _ h => h)
    (fun e he s s' hsingle hs => TokenForest.Single.step hsingle (hcaller e he) hs)
    TokenForest.careful_of_test (fun _ _ => rfl) hreplay
  have hvisiting : 1 ∈ (droppedForest.calls 0).visiting := by decide +kernel
  exact ⟨hvisiting, (token_links_alive hrun).2 0 1 hvisiting⟩

/-- Both handles are dropped, and each finds the other one still there. -/
def droppedBoth : List LinkAction :=
  clonedChild ++
    ([.drop 1, .drop 2, .advanceDrop 1, .advanceDrop 2, .advanceDrop 1,
      .advanceDrop 2] : List LinkAction)

def danglingForest : TokenForest :=
  (replay TokenForest.step TokenForest.borrowsTest .empty droppedBoth).get (by decide +kernel)

theorem token_links_dangle :
    Run LinkStep TokenForest.Borrows (· = .empty) danglingForest ∧ 0 < danglingForest.strong 0 ∧
      1 ∈ (danglingForest.node 0).children ∧ danglingForest.strong 1 = 0 := by
  have hreplay : replay TokenForest.step TokenForest.borrowsTest .empty droppedBoth =
      some danglingForest := (Option.some_get _).symm
  have hcaller : ∀ e ∈ droppedBoth, ∀ f, e.caller = some f → f = 0 := by decide +kernel
  have hstart : Run LinkStep TokenForest.Borrows (· = .empty) TokenForest.empty := .start rfl
  exact ⟨hstart.replay_within (fun _ _ _ h => h)
    (fun e he s s' hsingle hs => TokenForest.Single.step hsingle (hcaller e he) hs)
    TokenForest.borrows_of_test (fun _ _ => rfl) hreplay,
    by decide +kernel, by decide +kernel, by decide +kernel⟩

end Veloq.Runtime
