import Veloq.Runtime.TokenCancel
set_option autoImplicit false

/-!
# Runtime: cancellation reaches every descendant

A token that learns of a cancellation only by asking the scope it is nested in does not push
it on to its children.  As long as every cancellation finds the children of such tokens
cancelled already, or cancels them too, whatever was derived from a cancelled token is
cancelled, and nobody waits for it any more.
-/

namespace Veloq.Runtime

open Relation Veloq.Foundation

namespace TokenTree

variable {s s' : TokenTree} {t y : Nat} {scope : ScopeRef}

/-! ## The invariant -/

/-- The scope and those above it are as `GenericAsyncScope::new` makes them. -/
def Proper (s : TokenTree) : ScopeRef → Prop
  | .root _ token => token < s.count ∧ (s.token token).crossParent = none
  | .under strategy token parent =>
      token < s.count ∧
      (s.token token).crossParent =
        (if ScopeRef.crosses strategy parent then some parent else none) ∧
      (strategy = .atomic → parent.strategy = .atomic ∧ (parent.token, token) ∈ s.links) ∧
      s.Proper parent

/-- The waker is registered wherever a cancellation of the token begins. -/
def Awaits (s : TokenTree) (t waker : Nat) : Prop :=
  t < s.count ∧ s.flag t = false ∧ waker ∈ (s.token t).wakers ∧
    ∀ scope, (s.token t).crossParent = some scope →
      s.flag scope.token = false ∧ waker ∈ (s.token scope.token).wakers

/-- The token is cancelled itself, or the scope that it asks is. -/
def Knows (s : TokenTree) (t : Nat) : Prop :=
  s.flag t = true ∨ ∃ scope, (s.token t).crossParent = some scope ∧ s.flag scope.token = true

structure Inv (s : TokenTree) : Prop where
  bounded : s.Bounded
  emptied : ∀ y, s.flag y = true → (s.token y).children = []
  linked : ∀ p c, (p, c) ∈ s.links → p < s.count ∧ c < s.count
  pushed : ∀ p c, (p, c) ∈ s.links →
    s.flag c = true ∨ s.flag p = false ∧ c ∈ (s.token p).children
  scopes : ∀ scope ∈ s.scopes, s.Proper scope
  crossed : ∀ y scope, (s.token y).crossParent = some scope →
    scope.strategy = .atomic ∧ s.Proper scope
  waiting : ∀ y waker, (y, waker) ∈ s.waiting → s.Awaits y waker
  down : ∀ p c, (p, c) ∈ s.links → s.Knows p → s.Knows c

theorem Proper.lt (h : s.Proper scope) : scope.token < s.count := by
  cases scope with
  | root strategy token => exact h.1
  | under strategy token parent => exact h.1

theorem Proper.mono (h : s.Proper scope) (hcount : s.count ≤ s'.count)
    (hcross : ∀ y < s.count, (s'.token y).crossParent = (s.token y).crossParent)
    (hlinks : ∀ e ∈ s.links, e ∈ s'.links) : s'.Proper scope := by
  induction scope with
  | root strategy token =>
    refine ⟨Nat.lt_of_lt_of_le h.1 hcount, ?_⟩
    rw [hcross token h.1]
    exact h.2
  | under strategy token parent ih =>
    obtain ⟨hlt, hparent, hlink, hproper⟩ := h
    refine ⟨Nat.lt_of_lt_of_le hlt hcount, ?_, fun hs => ?_, ih hproper⟩
    · rw [hcross token hlt]
      exact hparent
    · exact ⟨(hlink hs).1, hlinks _ (hlink hs).2⟩

/-- The token of a scope that is shared between threads asks nobody. -/
theorem Proper.crossParent_eq_none (h : s.Proper scope) (hs : scope.strategy = .atomic) :
    (s.token scope.token).crossParent = none := by
  cases scope with
  | root strategy token => exact h.2
  | under strategy token parent =>
    obtain rfl : strategy = .atomic := hs
    exact h.2.1

/-! ## The moment that needs care -/

/-- Where cancelling `t` reaches a scope, the children of the tokens that ask this scope are
cancelled already, or by the same call. -/
def Covers (s : TokenTree) (t : Nat) : Prop :=
  ∀ p scope, (s.token p).crossParent = some scope → s.Reaches t scope.token →
    ∀ c ∈ (s.token p).children, s.isCancelled c = true ∨ s.Reaches t c ∨
      ∃ scope', (s.token c).crossParent = some scope' ∧ s.Reaches t scope'.token

def Careful (s : TokenTree) : TokenCall → Prop
  | .cancel t => s.Covers t
  | .linkChild t child => s.isCancelled t = true → s.Covers child
  | _ => True

namespace Inv

/-- A scope that is shared between threads is cancelled when its token is: the cancellation of
a parent has been pushed down to it. -/
theorem scope_isCancelled (h : s.Inv) (hp : s.Proper scope) (hs : scope.strategy = .atomic) :
    scope.isCancelled s.flag = s.flag scope.token := by
  induction scope with
  | root strategy token => rfl
  | under strategy token parent ih =>
    obtain rfl : strategy = .atomic := hs
    obtain ⟨-, -, hlink, hproper⟩ := hp
    obtain ⟨hs', hmem⟩ := hlink rfl
    have hflag : s.flag parent.token = true → s.flag token = true := by
      intro hf
      rcases h.pushed _ _ hmem with hc | ⟨hnot, -⟩
      · exact hc
      · rw [hf] at hnot
        exact absurd hnot (by simp)
    show (s.flag token || false || parent.isCancelled s.flag) = s.flag token
    rw [ih hproper hs', Bool.or_false]
    cases hp' : s.flag parent.token with
    | false => rw [Bool.or_false]
    | true => rw [hflag hp', Bool.or_true]

theorem isCancelled_iff (h : s.Inv) : s.isCancelled t = true ↔ s.Knows t := by
  unfold TokenTree.isCancelled Knows
  rw [Bool.or_eq_true, Option.any_eq_true]
  refine or_congr Iff.rfl (exists_congr fun scope => and_congr_right fun hc => ?_)
  obtain ⟨hs, hp⟩ := h.crossed t scope hc
  rw [h.scope_isCancelled hp hs]

/-- Only the wakers, and who waits, may change. -/
theorem transfer (h : s.Inv) (hcount : s'.count = s.count) (hflag : s'.flag = s.flag)
    (hchildren : ∀ y, (s'.token y).children = (s.token y).children)
    (hcross : ∀ y, (s'.token y).crossParent = (s.token y).crossParent)
    (hlinks : s'.links = s.links) (hscopes : s'.scopes = s.scopes)
    (hwaiting : ∀ y waker, (y, waker) ∈ s'.waiting → s'.Awaits y waker) : s'.Inv := by
  have hproper : ∀ {scope}, s.Proper scope → s'.Proper scope := by
    intro scope hp
    exact hp.mono (Nat.le_of_eq hcount.symm) (fun y _ => hcross y) fun e he => by rw [hlinks]; exact he
  have hknows : ∀ y, s'.Knows y ↔ s.Knows y := by
    intro y
    unfold Knows
    rw [hcross, hflag]
  refine ⟨fun y z hz => ?_, fun y hy => ?_, fun p c hc => ?_, fun p c hc => ?_, fun scope hs => ?_,
    fun y scope hs => ?_, hwaiting, fun p c hc => ?_⟩
  · rw [hchildren] at hz
    rw [hcount]
    exact h.bounded y z hz
  · rw [hflag] at hy
    rw [hchildren]
    exact h.emptied y hy
  · rw [hlinks] at hc
    rw [hcount]
    exact h.linked p c hc
  · rw [hlinks] at hc
    rw [hflag, hchildren]
    exact h.pushed p c hc
  · rw [hscopes] at hs
    exact hproper (h.scopes scope hs)
  · rw [hcross] at hs
    exact ⟨(h.crossed y scope hs).1, hproper (h.crossed y scope hs).2⟩
  · rw [hlinks] at hc
    rw [hknows, hknows]
    exact h.down p c hc

/-! ## The calls keep the invariant -/

theorem newWithParent (h : s.Inv) (strategy : Strategy) {crossParent : Option ScopeRef}
    (hcross : ∀ scope, crossParent = some scope → scope.strategy = .atomic ∧ s.Proper scope) :
    (s.newWithParent strategy crossParent).Inv := by
  generalize hs' : s.newWithParent strategy crossParent = s'
  have hself : s'.token s.count = .new strategy crossParent := by
    rw [← hs']
    exact set_self
  have hother : ∀ y, y ≠ s.count → s'.token y = s.token y := by
    intro y hy
    rw [← hs']
    exact set_of_ne hy
  have hcount : s'.count = s.count + 1 := by rw [← hs']; rfl
  have hlinks : s'.links = s.links := by rw [← hs']; rfl
  have hscopes : s'.scopes = s.scopes := by rw [← hs']; rfl
  have hwaiting : s'.waiting = s.waiting := by rw [← hs']; rfl
  have hflag : ∀ y < s.count, s'.flag y = s.flag y := by
    intro y hy
    unfold TokenTree.flag
    rw [hother y (by omega)]
  have hproper : ∀ {scope}, s.Proper scope → s'.Proper scope := by
    intro scope hp
    refine hp.mono (by omega) (fun y hy => by rw [hother y (by omega)]) fun e he => ?_
    rw [hlinks]
    exact he
  have hnew : ∀ y scope, (s'.token y).crossParent = some scope →
      scope.strategy = .atomic ∧ s.Proper scope := by
    intro y scope hs
    by_cases hy : y = s.count
    · rw [hy, hself] at hs
      exact hcross scope hs
    · rw [hother y hy] at hs
      exact h.crossed y scope hs
  refine ⟨fun y z hz => ?_, fun y hy => ?_, fun p c hc => ?_, fun p c hc => ?_, fun scope hs => ?_,
    fun y scope hs => ?_, fun y waker hw => ?_, fun p c hc => ?_⟩
  · by_cases hy : y = s.count
    · rw [hy, hself] at hz
      exact absurd hz List.not_mem_nil
    · rw [hother y hy] at hz
      have := h.bounded y z hz
      omega
  · by_cases hyc : y = s.count
    · rw [hyc, hself]
      rfl
    · unfold TokenTree.flag at hy
      rw [hother y hyc] at hy ⊢
      exact h.emptied y hy
  · rw [hlinks] at hc
    have := h.linked p c hc
    omega
  · rw [hlinks] at hc
    obtain ⟨hp, hlt⟩ := h.linked p c hc
    rw [hflag c hlt, hflag p hp, hother p (by omega)]
    exact h.pushed p c hc
  · rw [hscopes] at hs
    exact hproper (h.scopes scope hs)
  · exact ⟨(hnew y scope hs).1, hproper (hnew y scope hs).2⟩
  · rw [hwaiting] at hw
    obtain ⟨hlt, hf, hmem, hscope⟩ := h.waiting y waker hw
    refine ⟨by omega, by rw [hflag y hlt]; exact hf, by rw [hother y (by omega)]; exact hmem, ?_⟩
    intro scope hs
    rw [hother y (by omega)] at hs
    have hlt' := (h.crossed y scope hs).2.lt
    rw [hflag _ hlt', hother _ (by omega)]
    exact hscope scope hs
  · rw [hlinks] at hc
    obtain ⟨hp, hlt⟩ := h.linked p c hc
    have hknows : ∀ y < s.count, s'.Knows y ↔ s.Knows y := by
      intro y hy
      unfold Knows
      rw [hflag y hy, hother y (by omega)]
      refine or_congr Iff.rfl (exists_congr fun scope => and_congr_right fun hs => ?_)
      rw [hflag _ (h.crossed y scope hs).2.lt]
    rw [hknows p hp, hknows c hlt]
    exact h.down p c hc

/-- A cancelled token is linked. -/
theorem addLink {p c : Nat} (h : s.Inv) (hp : p < s.count) (hc : c < s.count)
    (hflag : s.flag c = true) : Inv { s with links := (p, c) :: s.links } := by
  have hproper : ∀ {scope}, s.Proper scope → Proper { s with links := (p, c) :: s.links } scope :=
    fun hs => hs.mono (Nat.le_refl _) (fun _ _ => rfl) fun e he => List.mem_cons_of_mem _ he
  refine ⟨h.bounded, h.emptied, fun p' c' hmem => ?_, fun p' c' hmem => ?_,
    fun scope hs => hproper (h.scopes scope hs), fun y scope hs => ?_, h.waiting,
    fun p' c' hmem hknows => ?_⟩
  · rcases List.mem_cons.mp hmem with heq | hmem
    · cases heq
      exact ⟨hp, hc⟩
    · exact h.linked p' c' hmem
  · rcases List.mem_cons.mp hmem with heq | hmem
    · cases heq
      exact Or.inl hflag
    · exact h.pushed p' c' hmem
  · exact ⟨(h.crossed y scope hs).1, hproper (h.crossed y scope hs).2⟩
  · rcases List.mem_cons.mp hmem with heq | hmem
    · cases heq
      exact Or.inl hflag
    · exact h.down p' c' hmem hknows

/-- A token is put into the list of another one that is not cancelled. -/
theorem push {p c : Nat} (h : s.Inv) (hp : p < s.count) (hc : c < s.count) (hnot : ¬ s.Knows p) :
    Inv { s.set p { s.token p with children := (s.token p).children ++ [c] } with
      links := (p, c) :: s.links } := by
  generalize hs' : ({ s.set p { s.token p with children := (s.token p).children ++ [c] } with
      links := (p, c) :: s.links } : TokenTree) = s'
  have hself : s'.token p = { s.token p with children := (s.token p).children ++ [c] } := by
    rw [← hs']
    exact set_self
  have hother : ∀ y, y ≠ p → s'.token y = s.token y := by
    intro y hy
    rw [← hs']
    exact set_of_ne hy
  have hcount : s'.count = s.count := by rw [← hs']; rfl
  have hlinks : s'.links = (p, c) :: s.links := by rw [← hs']
  have hsame : ∀ y, (s'.token y).cancelled = (s.token y).cancelled ∧
      (s'.token y).crossParent = (s.token y).crossParent ∧
      (s'.token y).wakers = (s.token y).wakers ∧
      ∀ z ∈ (s.token y).children, z ∈ (s'.token y).children := by
    intro y
    by_cases hy : y = p
    · rw [hy, hself]
      exact ⟨rfl, rfl, rfl, fun z hz => List.mem_append_left _ hz⟩
    · rw [hother y hy]
      exact ⟨rfl, rfl, rfl, fun z hz => hz⟩
  have hflag : ∀ y, s'.flag y = s.flag y := fun y => (hsame y).1
  have hknows : ∀ y, s'.Knows y ↔ s.Knows y := by
    intro y
    unfold Knows
    rw [hflag, (hsame y).2.1]
    refine or_congr Iff.rfl (exists_congr fun scope => and_congr_right fun _ => ?_)
    rw [hflag]
  have hproper : ∀ {scope}, s.Proper scope → s'.Proper scope := by
    intro scope hs
    refine hs.mono (Nat.le_of_eq hcount.symm) (fun y _ => (hsame y).2.1) fun e he => ?_
    rw [hlinks]
    exact List.mem_cons_of_mem _ he
  refine ⟨fun y z hz => ?_, fun y hy => ?_, fun p' c' hmem => ?_, fun p' c' hmem => ?_,
    fun scope hs => hproper (h.scopes scope (by rw [← hs'] at hs; exact hs)), fun y scope hs => ?_,
    fun y waker hw => ?_, fun p' c' hmem => ?_⟩
  · rw [hcount]
    by_cases hy : y = p
    · rw [hy, hself] at hz
      rcases List.mem_append.mp hz with hz | hz
      · exact h.bounded p z hz
      · rw [List.mem_singleton.mp hz]
        exact hc
    · rw [hother y hy] at hz
      exact h.bounded y z hz
  · rw [hflag] at hy
    by_cases hyp : y = p
    · rw [hyp] at hy
      exact absurd (Or.inl hy) hnot
    · rw [hother y hyp]
      exact h.emptied y hy
  · rw [hlinks] at hmem
    rw [hcount]
    rcases List.mem_cons.mp hmem with heq | hmem
    · cases heq
      exact ⟨hp, hc⟩
    · exact h.linked p' c' hmem
  · rw [hlinks] at hmem
    rw [hflag, hflag]
    rcases List.mem_cons.mp hmem with heq | hmem
    · cases heq
      refine Or.inr ⟨Bool.eq_false_iff.mpr fun hf => hnot (Or.inl hf), ?_⟩
      rw [hself]
      exact List.mem_append_right _ (List.mem_singleton_self _)
    · exact (h.pushed p' c' hmem).imp_right fun hin => ⟨hin.1, (hsame p').2.2.2 c' hin.2⟩
  · rw [(hsame y).2.1] at hs
    exact ⟨(h.crossed y scope hs).1, hproper (h.crossed y scope hs).2⟩
  · obtain ⟨hlt, hf, hw, hscope⟩ := h.waiting y waker (by rw [← hs'] at hw; exact hw)
    refine ⟨by rw [hcount]; exact hlt, by rw [hflag]; exact hf, by rw [(hsame y).2.2.1]; exact hw,
      fun scope hs => ?_⟩
    rw [(hsame y).2.1] at hs
    rw [hflag, (hsame scope.token).2.2.1]
    exact hscope scope hs
  · rw [hlinks] at hmem
    rw [hknows, hknows]
    rcases List.mem_cons.mp hmem with heq | hmem
    · cases heq
      exact fun hk => absurd hk hnot
    · exact h.down p' c' hmem

theorem cancel (h : s.Inv) (ht : t < s.count) (hcare : s.Covers t) : (s.cancel t).Inv := by
  have hv := visits_cancel h.bounded ht h.emptied
  generalize s.cancel t = s' at hv
  have hflag : ∀ y, s'.flag y = true ↔ s.flag y = true ∨ s.Reaches t y := by
    intro y
    rw [hv.flag]
    refine ⟨Or.imp_right And.right, fun hy => ?_⟩
    cases hf : s.flag y with
    | true => exact Or.inl rfl
    | false => exact Or.inr ⟨hf, hy.resolve_left (by simp [hf])⟩
  have hpushed : ∀ p c, (p, c) ∈ s'.links →
      s'.flag c = true ∨ s'.flag p = false ∧ c ∈ (s'.token p).children := by
    intro p c hmem
    rw [hv.links] at hmem
    rcases h.pushed p c hmem with hc | ⟨hp, hin⟩
    · exact Or.inl (hv.flag_mono hc)
    · cases hp' : s'.flag p with
      | false =>
        refine Or.inr ⟨rfl, ?_⟩
        rw [hv.children p fun hd => by rw [(hv.flag p).mpr (Or.inr hd)] at hp'; simp at hp']
        exact hin
      | true =>
        left
        rcases (hflag p).mp hp' with hold | hr
        · rw [hold] at hp
          exact absurd hp (by simp)
        · exact (hflag c).mpr (Or.inr (hr.tail hin))
  have hproper : ∀ {scope}, s.Proper scope → s'.Proper scope := by
    intro scope hs
    exact hs.mono (Nat.le_of_eq hv.count.symm) (fun y _ => hv.crossParent y)
      fun e he => by rw [hv.links]; exact he
  refine ⟨hv.bounded h.bounded, fun y hy => ?_, fun p c hmem => ?_, hpushed, fun scope hs => ?_,
    fun y scope hs => ?_, fun y waker hw => ?_, fun p c hmem hknows => ?_⟩
  · rcases (hv.flag y).mp hy with hold | hd
    · rw [hv.children y fun hd => by rw [hv.fresh y hd] at hold; simp at hold]
      exact h.emptied y hold
    · exact hv.emptied y hd
  · rw [hv.links] at hmem
    rw [hv.count]
    exact h.linked p c hmem
  · rw [hv.scopes] at hs
    exact hproper (h.scopes scope hs)
  · rw [hv.crossParent] at hs
    exact ⟨(h.crossed y scope hs).1, hproper (h.crossed y scope hs).2⟩
  · obtain ⟨hold, hnot⟩ := (hv.waiting _).mp hw
    obtain ⟨hlt, hf, hmem, hscope⟩ := h.waiting y waker hold
    -- whoever was called is not waiting any more
    have hkeep : ∀ z, s.flag z = false → waker ∈ (s.token z).wakers →
        s'.flag z = false ∧ waker ∈ (s'.token z).wakers := by
      intro z hz hwz
      have hd : z ∉ {y | s.flag y = false ∧ s.Reaches t y} := fun hd => hnot z hd hwz
      refine ⟨Bool.eq_false_iff.mpr fun hf' => ?_, by rw [hv.wakers z hd]; exact hwz⟩
      rcases (hv.flag z).mp hf' with hf' | hd'
      · rw [hz] at hf'
        exact absurd hf' (by simp)
      · exact hd hd'
    obtain ⟨hf', hmem'⟩ := hkeep y hf hmem
    refine ⟨by rw [hv.count]; exact hlt, hf', hmem', fun scope hs => ?_⟩
    rw [hv.crossParent] at hs
    exact hkeep _ (hscope scope hs).1 (hscope scope hs).2
  · have hmono : ∀ y, s.Knows y → s'.Knows y := by
      rintro y (hy | ⟨scope, hs, hy⟩)
      · exact Or.inl (hv.flag_mono hy)
      · exact Or.inr ⟨scope, by rw [hv.crossParent]; exact hs, hv.flag_mono hy⟩
    rcases hknows with hp | ⟨scope, hs, hp⟩
    · refine Or.inl ((hpushed p c hmem).resolve_right fun hnot => ?_)
      rw [hp] at hnot
      exact absurd hnot.1 (by simp)
    · rw [hv.links] at hmem
      rw [hv.crossParent] at hs
      rcases (hflag _).mp hp with hold | hr
      · exact hmono c (h.down p c hmem (Or.inr ⟨scope, hs, hold⟩))
      · rcases h.pushed p c hmem with hc | ⟨-, hin⟩
        · exact Or.inl (hv.flag_mono hc)
        · rcases hcare p scope hs hr c hin with hc | hc | ⟨scope', hs', hc⟩
          · exact hmono c (h.isCancelled_iff.mp hc)
          · exact Or.inl ((hflag c).mpr (Or.inr hc))
          · exact Or.inr ⟨scope', by rw [hv.crossParent]; exact hs', (hflag _).mpr (Or.inr hc)⟩

/-- Where a token is linked does not matter here. -/
theorem relink (h : s.Inv) {c : Nat} {parent : Option Nat} {linked : Bool} :
    Inv (s.set c { s.token c with parent := parent, linked := linked }) ∧
      ∀ y, Knows (s.set c { s.token c with parent := parent, linked := linked }) y ↔
        s.Knows y := by
  generalize hs' : s.set c { s.token c with parent := parent, linked := linked } = s'
  have hsame : ∀ y, (s'.token y).cancelled = (s.token y).cancelled ∧
      (s'.token y).children = (s.token y).children ∧
      (s'.token y).crossParent = (s.token y).crossParent ∧
      (s'.token y).wakers = (s.token y).wakers := by
    intro y
    rw [← hs']
    by_cases hy : y = c
    · rw [hy, set_self]
      exact ⟨rfl, rfl, rfl, rfl⟩
    · rw [set_of_ne hy]
      exact ⟨rfl, rfl, rfl, rfl⟩
  have hflag : s'.flag = s.flag := funext fun y => (hsame y).1
  have hcount : s'.count = s.count := by rw [← hs']; rfl
  refine ⟨h.transfer hcount hflag (fun y => (hsame y).2.1) (fun y => (hsame y).2.2.1)
    (by rw [← hs']; rfl) (by rw [← hs']; rfl) fun y waker hw => ?_, fun y => ?_⟩
  · have hold := h.waiting y waker (by rw [← hs'] at hw; exact hw)
    unfold Awaits at hold ⊢
    rw [hcount, hflag, (hsame y).2.2.1, (hsame y).2.2.2]
    refine ⟨hold.1, hold.2.1, hold.2.2.1, fun scope hs => ?_⟩
    rw [(hsame scope.token).2.2.2]
    exact hold.2.2.2 scope hs
  · unfold Knows
    rw [hflag, (hsame y).2.2.1]

theorem linkChild {c : Nat} (h : s.Inv) (ht : t < s.count) (hc : c < s.count)
    (hcare : s.isCancelled t = true → s.Covers c) : (s.linkChild t c).Inv := by
  unfold TokenTree.linkChild
  split
  · rename_i hcancelled
    have hv := visits_cancel h.bounded hc h.emptied
    have hinv := h.cancel hc (hcare hcancelled)
    rw [← hv.links]
    refine hinv.addLink (by rw [hv.count]; exact ht) (by rw [hv.count]; exact hc) ?_
    rw [hv.flag]
    cases hf : s.flag c with
    | true => exact Or.inl rfl
    | false => exact Or.inr ⟨hf, ReflTransGen.refl⟩
  · rename_i hcancelled
    split
    · exact h.relink.1
    · obtain ⟨hinv, hknows⟩ := h.relink (c := c)
      exact hinv.push ht hc fun hk => hcancelled (h.isCancelled_iff.mpr ((hknows t).mp hk))

/-- A token that was just made has nobody below it. -/
theorem covers_new (h : s.Inv) (strategy : Strategy) {crossParent : Option ScopeRef}
    (hcross : ∀ scope, crossParent = some scope → s.Proper scope) :
    (s.newWithParent strategy crossParent).Covers s.count := by
  have hself : (s.newWithParent strategy crossParent).token s.count = .new strategy crossParent :=
    set_self
  intro p scope hs hr
  have hlt : scope.token < s.count := by
    by_cases hp : p = s.count
    · rw [hp, hself] at hs
      exact (hcross scope hs).lt
    · rw [show (s.newWithParent strategy crossParent).token p = s.token p from set_of_ne hp] at hs
      exact (h.crossed p scope hs).2.lt
  rcases hr.cases_head with heq | ⟨b, hb, -⟩
  · omega
  · rw [hself] at hb
    exact absurd hb List.not_mem_nil

theorem child (h : s.Inv) (ht : t < s.count) : (s.child t).Inv := by
  have hnew : (s.newWithParent (s.token t).strategy none).Inv := h.newWithParent _ nofun
  exact hnew.linkChild (Nat.lt_succ_of_lt ht) (Nat.lt_succ_self _) fun _ => h.covers_new _ nofun

/-- What `link_child` leaves alone, for a child that is in no list. -/
theorem linkChild_frame {c : Nat} (h : s.Inv) (hc : c < s.count)
    (hfree : (s.token c).linked = false) :
    (s.linkChild t c).links = (t, c) :: s.links ∧ (s.linkChild t c).scopes = s.scopes ∧
      (s.linkChild t c).count = s.count ∧
      ∀ y, ((s.linkChild t c).token y).crossParent = (s.token y).crossParent := by
  unfold TokenTree.linkChild
  split
  · have hv := visits_cancel h.bounded hc h.emptied
    exact ⟨rfl, hv.scopes, hv.count, hv.crossParent⟩
  · rw [if_neg (by rw [hfree]; simp)]
    refine ⟨rfl, rfl, rfl, fun y => ?_⟩
    simp only [TokenTree.set, Function.update_apply]
    split
    · rename_i hy
      rw [hy]
      split
      · rename_i htc
        rw [htc]
      · rfl
    · split
      · rename_i hy
        rw [hy]
      · rfl

theorem addScope (h : s.Inv) (hs : s.Proper scope) :
    Inv { s with scopes := scope :: s.scopes } := by
  have hproper : ∀ {scope'}, s.Proper scope' → Proper { s with scopes := scope :: s.scopes } scope' :=
    fun hs => hs.mono (Nat.le_refl _) (fun _ _ => rfl) fun e he => he
  refine ⟨h.bounded, h.emptied, h.linked, h.pushed, fun scope' hs' => ?_, fun y scope' hs' => ?_,
    h.waiting, h.down⟩
  · rcases List.mem_cons.mp hs' with rfl | hs'
    · exact hproper hs
    · exact hproper (h.scopes scope' hs')
  · exact ⟨(h.crossed y scope' hs').1, hproper (h.crossed y scope' hs').2⟩

theorem crossParentOf_proper (h : s.Inv) {strategy : Strategy} {parent : Option ScopeRef}
    (hparent : ∀ scope ∈ parent, scope ∈ s.scopes) (hs : ScopeRef.crossParentOf strategy parent = some scope) :
    scope.strategy = .atomic ∧ s.Proper scope := by
  cases parent with
  | none => cases strategy <;> exact absurd hs (by simp [ScopeRef.crossParentOf, ScopeRef.parentOf])
  | some parent =>
    cases strategy with
    | atomic => exact absurd hs (by simp [ScopeRef.crossParentOf])
    | localOnly =>
      have hsend : (if parent.strategy = .atomic then some parent else none) = some scope := hs
      split at hsend
      · rename_i hatomic
        rw [← Option.some.inj hsend]
        exact ⟨hatomic, h.scopes parent (hparent parent rfl)⟩
      · exact absurd hsend (by simp)

theorem newScope (h : s.Inv) (strategy : Strategy) {parent : Option ScopeRef}
    (hparent : ∀ scope ∈ parent, scope ∈ s.scopes) : (s.newScope strategy parent).Inv := by
  have hcross : ∀ scope, ScopeRef.crossParentOf strategy parent = some scope →
      scope.strategy = .atomic ∧ s.Proper scope := fun scope => h.crossParentOf_proper hparent
  have hnew := h.newWithParent strategy hcross
  have hself : ((s.newWithParent strategy (ScopeRef.crossParentOf strategy parent)).token s.count) =
      .new strategy (ScopeRef.crossParentOf strategy parent) := set_self
  have hcovers := h.covers_new strategy fun scope hs => (hcross scope hs).2
  unfold TokenTree.newScope
  generalize hs' : s.newWithParent strategy (ScopeRef.crossParentOf strategy parent) = s' at *
  have hcount : s'.count = s.count + 1 := by rw [← hs']; rfl
  have hscopes : s'.scopes = s.scopes := by rw [← hs']; rfl
  have hlt : s.count < s'.count := by omega
  have hproper : ∀ scope ∈ parent, s'.Proper scope := by
    intro scope hs
    exact hnew.scopes scope (by rw [hscopes]; exact hparent scope hs)
  cases parent with
  | none =>
    rw [← hscopes]
    refine hnew.addScope ?_
    cases strategy <;> exact ⟨hlt, by rw [hself]; rfl⟩
  | some parent =>
    have hp := hproper parent rfl
    simp only
    split
    · rename_i hkind
      obtain ⟨hlinks, hscopes', hcount', hcross'⟩ :=
        hnew.linkChild_frame (t := parent.token) hlt (by rw [hself]; rfl)
      have hinv := hnew.linkChild hp.lt hlt fun _ => hcovers
      rw [← hscopes, ← hscopes']
      refine hinv.addScope ?_
      have hp' : (s'.linkChild parent.token s.count).Proper parent :=
        hp.mono (Nat.le_of_eq hcount'.symm) (fun y _ => hcross' y) fun e he => by
          rw [hlinks]
          exact List.mem_cons_of_mem _ he
      have hlt' : s.count < (s'.linkChild parent.token s.count).count := by rw [hcount']; exact hlt
      cases strategy with
      | localOnly =>
        refine ⟨hlt', ?_, nofun, hp'⟩
        rw [hcross', hself]
        simp [ScopeRef.crossParentOf, ScopeRef.parentOf, ScopeRef.asSend, Token.new, ScopeRef.crosses]
      | atomic =>
        rw [show ScopeRef.new .atomic s.count (some parent) = .under .atomic s.count parent by
          simp [ScopeRef.new, ScopeRef.parentOf, ScopeRef.asSend, hkind]]
        refine ⟨hlt', ?_, fun _ => ⟨hkind, ?_⟩, hp'⟩
        · rw [hcross', hself]
          rfl
        · rw [hlinks]
          exact List.mem_cons_self ..
    · rename_i hkind
      rw [← hscopes]
      refine hnew.addScope ?_
      cases strategy with
      | localOnly =>
        refine ⟨hlt, ?_, nofun, hp⟩
        rw [hself]
        simp [ScopeRef.crossParentOf, ScopeRef.parentOf, ScopeRef.asSend, Token.new, ScopeRef.crosses]
      | atomic =>
        rw [show ScopeRef.new .atomic s.count (some parent) = .root .atomic s.count by
          simp [ScopeRef.new, ScopeRef.parentOf, ScopeRef.asSend, hkind]]
        exact ⟨hlt, by rw [hself]; rfl⟩

/-! ## Waiting -/

end Inv

/-- `s'` is `s` with more wakers in the queues. -/
structure Joins (s s' : TokenTree) : Prop where
  count : s'.count = s.count
  flag : s'.flag = s.flag
  children : ∀ y, (s'.token y).children = (s.token y).children
  crossParent : ∀ y, (s'.token y).crossParent = (s.token y).crossParent
  links : s'.links = s.links
  scopes : s'.scopes = s.scopes
  wakers : ∀ y, ∀ w ∈ (s.token y).wakers, w ∈ (s'.token y).wakers

namespace Joins

theorem refl (s : TokenTree) : Joins s s :=
  ⟨rfl, rfl, fun _ => rfl, fun _ => rfl, rfl, rfl, fun _ _ hw => hw⟩

theorem isCancelled (h : Joins s s') : s'.isCancelled t = s.isCancelled t := by
  unfold TokenTree.isCancelled
  rw [h.flag, h.crossParent]

theorem awaits {waker : Nat} (h : Joins s s') (hw : s.Awaits y waker) : s'.Awaits y waker := by
  obtain ⟨hlt, hflag, hmem, hscope⟩ := hw
  refine ⟨by rw [h.count]; exact hlt, by rw [h.flag]; exact hflag, h.wakers y waker hmem,
    fun scope hs => ?_⟩
  rw [h.crossParent] at hs
  rw [h.flag]
  exact ⟨(hscope scope hs).1, h.wakers _ _ (hscope scope hs).2⟩

theorem enlist (h : Joins s s') (t waker : Nat) :
    Joins s (s'.enlist t waker) ∧ waker ∈ ((s'.enlist t waker).token t).wakers := by
  have hself : (s'.enlist t waker).token t =
      { s'.token t with
        wakers := if waker ∈ (s'.token t).wakers then (s'.token t).wakers
          else (s'.token t).wakers ++ [waker] } := set_self
  have hother : ∀ y, y ≠ t → (s'.enlist t waker).token y = s'.token y := fun y hy => set_of_ne hy
  have hsame : ∀ y, ((s'.enlist t waker).token y).cancelled = (s'.token y).cancelled ∧
      ((s'.enlist t waker).token y).children = (s'.token y).children ∧
      ((s'.enlist t waker).token y).crossParent = (s'.token y).crossParent ∧
      ∀ w ∈ (s'.token y).wakers, w ∈ ((s'.enlist t waker).token y).wakers := by
    intro y
    by_cases hy : y = t
    · rw [hy, hself]
      refine ⟨rfl, rfl, rfl, fun w hw => ?_⟩
      show w ∈ if waker ∈ (s'.token t).wakers then _ else _
      split
      · exact hw
      · exact List.mem_append_left _ hw
    · rw [hother y hy]
      exact ⟨rfl, rfl, rfl, fun w hw => hw⟩
  refine ⟨⟨h.count, ?_, fun y => ?_, fun y => ?_, h.links, h.scopes, fun y w hw => ?_⟩, ?_⟩
  · rw [← h.flag]
    exact funext fun y => (hsame y).1
  · rw [(hsame y).2.1, h.children]
  · rw [(hsame y).2.2.1, h.crossParent]
  · exact (hsame y).2.2.2 w (h.wakers y w hw)
  · rw [hself]
    show waker ∈ if waker ∈ (s'.token t).wakers then _ else _
    split
    · assumption
    · exact List.mem_append_right _ (List.mem_singleton_self _)

end Joins

namespace Inv

theorem joins (h : s.Inv) (hj : Joins s s')
    (hwaiting : ∀ y waker, (y, waker) ∈ s'.waiting → s'.Awaits y waker) : s'.Inv :=
  h.transfer hj.count hj.flag hj.children hj.crossParent hj.links hj.scopes hwaiting

/-- Somebody was called. -/
theorem wake (h : s.Inv) (wakers : List Nat) : (s.wake wakers).Inv :=
  h.joins ⟨rfl, rfl, fun _ => rfl, fun _ => rfl, rfl, rfl, fun _ _ hw => hw⟩
    fun y waker hw => h.waiting y waker (List.mem_of_mem_filter hw)

/-- The second look at the token finds it as the first one has. -/
theorem registerOn_eq {waker : Nat} {onward : TokenTree → TokenTree} (hnot : ¬ s.isCancelled t = true)
    (hj : Joins s (onward (s.enlist t waker))) :
    s.registerOn t waker onward = onward (s.enlist t waker) := by
  unfold TokenTree.registerOn
  rw [if_neg hnot]
  simp only
  rw [if_neg (by rw [hj.isCancelled]; exact hnot)]

theorem registerWaker (h : s.Inv) (ht : t < s.count) (waker : Nat) :
    (s.registerWaker t waker).Inv := by
  unfold TokenTree.registerWaker
  by_cases hcancelled : s.isCancelled t = true
  · unfold TokenTree.registerOn
    rw [if_pos hcancelled]
    exact h.wake [waker]
  · have hknows : ¬ s.Knows t := fun hk => hcancelled (h.isCancelled_iff.mpr hk)
    have hflag : s.flag t = false := Bool.eq_false_iff.mpr fun hf => hknows (Or.inl hf)
    obtain ⟨hj, hmem⟩ := (Joins.refl s).enlist t waker
    cases hc : (s.token t).crossParent with
    | none =>
      have heq : s.registerOn t waker id = s.enlist t waker := registerOn_eq hcancelled hj
      simp only
      rw [heq]
      refine h.joins hj fun y w hw => ?_
      rcases List.mem_cons.mp hw with hnew | hw
      · cases hnew
        refine ⟨ht, by rw [hj.flag]; exact hflag, hmem, fun scope hs => ?_⟩
        rw [hj.crossParent, hc] at hs
        exact absurd hs (by simp)
      · exact hj.awaits (h.waiting y w hw)
    | some scope =>
      obtain ⟨hs, hp⟩ := h.crossed t scope hc
      have hscope : s.flag scope.token = false :=
        Bool.eq_false_iff.mpr fun hf => hknows (Or.inr ⟨scope, hc, hf⟩)
      have hnone := hp.crossParent_eq_none hs
      have hcancelled' : ¬ (s.enlist t waker).isCancelled scope.token = true := by
        rw [hj.isCancelled, h.isCancelled_iff]
        rintro (hf | ⟨scope', hs', -⟩)
        · rw [hscope] at hf
          exact absurd hf (by simp)
        · rw [hnone] at hs'
          exact absurd hs' (by simp)
      -- the scope asks nobody else, so its own queue is the last one
      obtain ⟨hj', hmem'⟩ := hj.enlist scope.token waker
      have honward : TokenTree.registerCancelWaker waker scope (s.enlist t waker) =
          (s.enlist t waker).enlist scope.token waker := by
        have heq : (s.enlist t waker).registerOn scope.token waker id =
            (s.enlist t waker).enlist scope.token waker :=
          registerOn_eq hcancelled' ((Joins.refl _).enlist _ _).1
        rw [← heq]
        cases scope with
        | root strategy token => rfl
        | under strategy token parent =>
          obtain rfl : strategy = .atomic := hs
          rfl
      have heq : s.registerOn t waker (TokenTree.registerCancelWaker waker scope) =
          (s.enlist t waker).enlist scope.token waker := by
        rw [← honward]
        exact registerOn_eq hcancelled (by rw [honward]; exact hj')
      simp only
      rw [heq]
      refine h.joins hj' fun y w hw => ?_
      rcases List.mem_cons.mp hw with hnew | hw
      · cases hnew
        refine ⟨by rw [hj'.count]; exact hp.lt, by rw [hj'.flag]; exact hscope, hmem',
          fun scope' hs' => ?_⟩
        rw [hj'.crossParent, hnone] at hs'
        exact absurd hs' (by simp)
      · rcases List.mem_cons.mp hw with hnew | hw
        · cases hnew
          have hkept := ((Joins.refl (s.enlist t waker)).enlist scope.token waker).1.wakers
          refine ⟨by rw [hj'.count]; exact ht, by rw [hj'.flag]; exact hflag,
            hkept t waker hmem, fun scope' hs' => ?_⟩
          rw [hj'.crossParent, hc] at hs'
          rw [← Option.some.inj hs', hj'.flag]
          exact ⟨hscope, hmem'⟩
        · exact hj'.awaits (h.waiting y w hw)

/-! ## Runs -/

theorem initial : Inv TokenTree.empty := by
  refine ⟨fun y z hz => absurd hz List.not_mem_nil, fun y _ => rfl, nofun, nofun, nofun,
    fun y scope hs => absurd hs (by simp [TokenTree.empty, Token.new]), nofun, nofun⟩

/-- Every careful call keeps the invariant. -/
theorem step (h : s.Inv) {call : TokenCall} (hcare : s.Careful call) (hs : TokenStep s call s') :
    s'.Inv := by
  unfold TokenStep TokenTree.step at hs
  split at hs
  · cases hs
    exact h.newWithParent _ nofun
  all_goals split at hs
  case h_2.isTrue hparent => cases hs; exact h.newScope _ hparent
  case h_3.isTrue ht => cases hs; exact h.child ht
  case h_4.isTrue ht => cases hs; exact h.linkChild ht.1 ht.2.1 hcare
  case h_5.isTrue ht => cases hs; exact h.cancel ht hcare
  case h_6.isTrue ht => cases hs; exact h.registerWaker ht _
  all_goals exact absurd hs (by simp)

theorem of_run (h : Run TokenStep Careful (· = TokenTree.empty) s) : s.Inv :=
  h.invariant (fun _ hs => by rw [hs]; exact initial) fun _ _ _ hinv hcare hs =>
    hinv.step hcare hs

end Inv

end TokenTree

end Veloq.Runtime
