import Veloq.Runtime.TokenLinks
set_option autoImplicit false

/-!
# Runtime: what keeps a linked token alive

A token that is in a list of children, or that a cancellation is visiting, has a handle that
is still going to take it out of the list before it gives its reference up.  A handle that has
found itself to be the last one stays the last one; it cannot take the token out of the list
while a cancellation has the list locked, so it cannot outrun the cancellation either.
-/

namespace Veloq.Runtime

/-! ## Places of handles and calls -/

/-- The handle is going to take its token out of the list before it is gone. -/
def HandleState.keeps : HandleState → Bool
  | live | read | upgrade | unlink _ => true
  | _ => false

/-- The handle has found itself to be the last one. -/
def HandleState.last : HandleState → Bool
  | upgrade | unlink _ | release _ => true
  | _ => false

theorem HandleState.ne_gone_of_keeps {state : HandleState} (hk : state.keeps = true) :
    state ≠ .gone := by
  rintro rfl
  exact absurd hk (by simp [HandleState.keeps])

namespace LinkCall

/-- The handles of the tokens that the call is about to link. -/
def linking : LinkCall → Option (Nat × Nat)
  | linkCheck p c | linkParent p c | linkEnter p c | linkRecheck p c | linkPush p c => some (p, c)
  | _ => none

/-- `link_child` has set the parent. -/
def parented : LinkCall → Bool
  | linkEnter _ _ | linkRecheck _ _ | linkPush _ _ => true
  | _ => false

/-- The handle of the token whose children `link_child` has locked. -/
def pushing : LinkCall → Option Nat
  | linkRecheck p _ | linkPush p _ => some p
  | _ => none

/-- The tokens whose children `cancel_internal` has locked. -/
def stack : LinkCall → List Nat
  | visit _ _ stack | enter _ _ stack | drain _ stack => stack
  | _ => []

/-- The tokens that `cancel_internal` is visiting. -/
def visiting : LinkCall → List Nat
  | visit _ t stack | enter _ t stack => t :: stack
  | drain _ stack => stack
  | _ => []

end LinkCall

namespace TokenForest

variable (s : TokenForest)

/-! ## The invariant -/

/-- The token is in the list of one that is alive, or a cancellation is visiting it. -/
def Exposed (c : Nat) : Prop :=
  (∃ p, 0 < s.strong p ∧ c ∈ (s.node p).children) ∨ ∃ f, c ∈ (s.calls f).visiting

/-- Some handle is going to take the token out of the list before it is gone. -/
def Anchored (c : Nat) : Prop := ∃ h, s.tokenOf h = c ∧ (s.handle h).state.keeps = true

/-- A cancellation has come down from a token whose handle it has borrowed. -/
def Trail (borrowed : List Nat) : List Nat → Prop
  | [] => True
  | [t] => ∃ h ∈ borrowed, s.tokenOf h = t
  | c :: t :: rest => (s.node c).parent = some t ∧ Trail borrowed (t :: rest)

/-- The call has locked the children of the token. -/
def Locks (call : LinkCall) (t : Nat) : Prop :=
  t ∈ call.stack ∨ ∃ p, call.pushing = some p ∧ s.tokenOf p = t

/-- What is true of the token that a call is about to link. -/
def Ready (call : LinkCall) : Prop :=
  ∀ p c, call.linking = some (p, c) →
    (s.node (s.tokenOf c)).placed = true ∧ (s.node (s.tokenOf c)).linked = false ∧
      ((s.node (s.tokenOf c)).parent = some (s.tokenOf p) ∨
        call.parented = false ∧ (s.node (s.tokenOf c)).parent = none)

structure Inv : Prop where
  unborn : ∀ h, s.handles ≤ h → (s.handle h).state = .gone
  born : ∀ h, (s.handle h).state ≠ .gone → s.tokenOf h < s.tokens
  sole : ∀ h, (s.handle h).state.last = true → ∀ h', h' ≠ h → s.tokenOf h' = s.tokenOf h →
    (s.handle h').state = .gone
  unlinking : ∀ h p, (s.handle h).state = .unlink p → (s.node (s.tokenOf h)).parent = some p
  member : ∀ p c, c ∈ (s.node p).children →
    c < s.tokens ∧ (s.node c).parent = some p ∧ (s.node c).linked = true
  nodup : ∀ p, (s.node p).children.Nodup
  unplaced : ∀ t, (s.node t).placed = false → (s.node t).parent = none ∧ (s.node t).linked = false
  borrowed : ∀ f, ∀ h ∈ (s.calls f).borrowed, (s.handle h).state = .live
  ready : ∀ f, s.Ready (s.calls f)
  unique : ∀ f g p c p' c', (s.calls f).linking = some (p, c) →
    (s.calls g).linking = some (p', c') → s.tokenOf c = s.tokenOf c' → f = g
  held : ∀ f t, s.Locks (s.calls f) t → (s.node t).lock = some f
  distinct : ∀ f, (s.calls f).stack.Nodup
  trail : ∀ f, s.Trail (s.calls f).borrowed (s.calls f).visiting
  anchored : ∀ c, s.Exposed c → s.Anchored c

variable {s} {s' : TokenForest} {f g h i p c t : Nat} {call : LinkCall}

theorem setNode_self {node : LinkNode} : (s.setNode t node).node t = node := Function.update_self ..

theorem setNode_of_ne {node : LinkNode} (hne : p ≠ t) : (s.setNode t node).node p = s.node p :=
  Function.update_of_ne hne ..

theorem setState_self {state : HandleState} :
    (s.setState h state).handle h = { s.handle h with state := state } := Function.update_self ..

theorem setState_of_ne {state : HandleState} (hne : i ≠ h) :
    (s.setState h state).handle i = s.handle i := Function.update_of_ne hne ..

theorem goto_self : (s.goto f call).calls f = call := Function.update_self ..

theorem goto_of_ne (hne : g ≠ f) : (s.goto f call).calls g = s.calls g := Function.update_of_ne hne ..

/-- What is written when a token joins or leaves a list. -/
theorem relink_node (s : TokenForest) (p c : Nat) (children : List Nat) (linked : Bool) (y : Nat) :
    ((s.relink p c children linked).node y).parent = (s.node y).parent ∧
      ((s.relink p c children linked).node y).placed = (s.node y).placed ∧
      ((s.relink p c children linked).node y).lock = (s.node y).lock ∧
      ((s.relink p c children linked).node y).linked =
        (if y = c then linked else (s.node y).linked) ∧
      ((s.relink p c children linked).node y).children =
        (if y = p then children else (s.node y).children) := by
  have hchildren : ∀ y, ((s.setNode p { s.node p with children := children }).node y) =
      { s.node y with children := if y = p then children else (s.node y).children } := by
    intro y
    by_cases hy : y = p
    · rw [hy, setNode_self, if_pos rfl]
    · rw [setNode_of_ne hy, if_neg hy]
  unfold relink
  by_cases hy : y = c
  · rw [hy, setNode_self, hchildren, if_pos rfl]
    exact ⟨rfl, rfl, rfl, rfl, rfl⟩
  · rw [setNode_of_ne hy, hchildren, if_neg hy]
    exact ⟨rfl, rfl, rfl, rfl, rfl⟩

/-! ## Trails -/

theorem Trail.mono {borrowed visiting : List Nat} (ht : s.Trail borrowed visiting)
    (htoken : ∀ h ∈ borrowed, s'.tokenOf h = s.tokenOf h)
    (hparent : ∀ c ∈ visiting, ∀ p, (s.node c).parent = some p → (s'.node c).parent = some p) :
    s'.Trail borrowed visiting := by
  induction visiting with
  | nil => trivial
  | cons c rest ih =>
    cases rest with
    | nil =>
      obtain ⟨h, hb, heq⟩ := ht
      exact ⟨h, hb, by rw [htoken h hb]; exact heq⟩
    | cons t rest =>
      exact ⟨hparent c (List.mem_cons_self ..) t ht.1,
        ih ht.2 fun c' hc' => hparent c' (List.mem_cons_of_mem _ hc')⟩

theorem Trail.tail {borrowed rest : List Nat} (ht : s.Trail borrowed (c :: rest)) :
    s.Trail borrowed rest := by
  cases rest with
  | nil => trivial
  | cons t rest => exact ht.2

/-- A token on the way down is where the cancellation began, or the next one is its parent. -/
theorem Trail.cases {borrowed visiting : List Nat} (ht : s.Trail borrowed visiting)
    (hc : c ∈ visiting) :
    (∃ h ∈ borrowed, s.tokenOf h = c) ∨ ∃ t ∈ visiting.tail, (s.node c).parent = some t := by
  induction visiting with
  | nil => exact absurd hc List.not_mem_nil
  | cons a rest ih =>
    cases rest with
    | nil =>
      rw [List.mem_singleton.mp hc]
      exact Or.inl ht
    | cons b rest =>
      rcases List.mem_cons.mp hc with rfl | hc
      · exact Or.inr ⟨b, List.mem_cons_self .., ht.1⟩
      · rcases ih ht.2 hc with hroot | ⟨t, ht', hparent⟩
        · exact Or.inl hroot
        · exact Or.inr ⟨t, List.mem_cons_of_mem _ ht', hparent⟩

theorem visiting_tail (call : LinkCall) : ∀ t ∈ call.visiting.tail, t ∈ call.stack := by
  intro t ht
  cases call with
  | visit borrowed x stack => exact ht
  | enter borrowed x stack => exact ht
  | drain borrowed stack => exact List.mem_of_mem_tail ht
  | _ => exact absurd ht List.not_mem_nil

theorem visiting_of_stack (call : LinkCall) : ∀ t ∈ call.stack, t ∈ call.visiting := by
  intro t ht
  cases call with
  | visit borrowed x stack => exact List.mem_cons_of_mem _ ht
  | enter borrowed x stack => exact List.mem_cons_of_mem _ ht
  | drain borrowed stack => exact ht
  | _ => exact absurd ht List.not_mem_nil

/-! ## Strong references -/

theorem strong_pos_iff (hunborn : ∀ h, s.handles ≤ h → (s.handle h).state = .gone) :
    0 < s.strong t ↔ ∃ h, s.Owns h t ∨ s.Upgraded h t := by
  have hlt : ∀ h, s.Owns h t ∨ s.Upgraded h t → h < s.handles := by
    intro h href
    by_contra hge
    have hgone := hunborn h (Nat.not_lt.mp hge)
    rcases href with ⟨-, hne⟩ | hup | hup
    · exact hne hgone
    · rw [hgone] at hup
      exact absurd hup (by simp)
    · rw [hgone] at hup
      exact absurd hup (by simp)
  constructor
  · intro hpos
    rcases Nat.add_pos_iff_pos_or_pos.mp hpos with hpos | hpos
    · obtain ⟨h, hmem⟩ := Finset.card_pos.mp hpos
      exact ⟨h, Or.inl (Finset.mem_filter.mp hmem).2⟩
    · obtain ⟨h, hmem⟩ := Finset.card_pos.mp hpos
      exact ⟨h, Or.inr (Finset.mem_filter.mp hmem).2⟩
  · rintro ⟨h, href⟩
    have hh := Finset.mem_range.mpr (hlt h href)
    rcases href with hown | hup
    · exact Nat.add_pos_left (Finset.card_pos.mpr ⟨h, Finset.mem_filter.mpr ⟨hh, hown⟩⟩) _
    · exact Nat.add_pos_right _ (Finset.card_pos.mpr ⟨h, Finset.mem_filter.mpr ⟨hh, hup⟩⟩)

theorem strong_congr (hhandles : s'.handles = s.handles) (hhandle : s'.handle = s.handle) (t : Nat) :
    s'.strong t = s.strong t := by
  have howns : ∀ h, s'.Owns h t ↔ s.Owns h t := by
    intro h
    unfold Owns
    rw [hhandle]
  have hupgraded : ∀ h, s'.Upgraded h t ↔ s.Upgraded h t := by
    intro h
    unfold Upgraded
    rw [hhandle]
  unfold strong
  rw [hhandles, Finset.filter_congr fun h _ => howns h, Finset.filter_congr fun h _ => hupgraded h]

namespace Inv

/-- A count of 1 is that of the handle that has read it. -/
theorem sole_of_strong (hi : s.Inv) (hone : s.strong (s.tokenOf h) = 1)
    (hown : (s.handle h).state ≠ .gone) (hne : i ≠ h) (htoken : s.tokenOf i = s.tokenOf h) :
    (s.handle i).state = .gone := by
  by_contra hgone
  have hmem : ∀ j, s.tokenOf j = s.tokenOf h → (s.handle j).state ≠ .gone →
      j ∈ (Finset.range s.handles).filter fun j => s.Owns j (s.tokenOf h) := by
    intro j hj hstate
    refine Finset.mem_filter.mpr ⟨Finset.mem_range.mpr ?_, hj, hstate⟩
    by_contra hge
    exact hstate (hi.unborn j (Nat.not_lt.mp hge))
  have hle : ((Finset.range s.handles).filter fun j => s.Owns j (s.tokenOf h)).card ≤ 1 := by
    unfold strong at hone
    omega
  exact hne (Finset.card_le_one.mp hle i (hmem i htoken hgone) h (hmem h rfl hown))

theorem anchored_pos (hi : s.Inv) (ha : s.Anchored c) : 0 < s.strong c := by
  obtain ⟨h, htoken, hk⟩ := ha
  exact (strong_pos_iff hi.unborn).mpr ⟨h, Or.inl ⟨htoken, HandleState.ne_gone_of_keeps hk⟩⟩

theorem visiting_lt (hi : s.Inv) (hc : c ∈ (s.calls f).visiting) : c < s.tokens := by
  obtain ⟨h, rfl, hk⟩ := hi.anchored c (Or.inr ⟨f, hc⟩)
  exact hi.born h (HandleState.ne_gone_of_keeps hk)

theorem borrowed_lt (hi : s.Inv) (hh : h ∈ (s.calls f).borrowed) :
    s.tokenOf h < s.tokens ∧ h < s.handles := by
  have hlive := hi.borrowed f h hh
  refine ⟨hi.born h (by rw [hlive]; simp), ?_⟩
  by_contra hge
  rw [hi.unborn h (Nat.not_lt.mp hge)] at hlive
  exact absurd hlive (by simp)

/-- A cancellation that visits the token of the last handle has locked the children of its
parent, which is alive. -/
theorem visited_last (hi : s.Inv) (hlast : (s.handle h).state.last = true)
    (hc : s.tokenOf h ∈ (s.calls f).visiting) :
    ∃ p, (s.node (s.tokenOf h)).parent = some p ∧ (s.node p).lock = some f ∧ 0 < s.strong p := by
  rcases (hi.trail f).cases hc with ⟨i, hb, htoken⟩ | ⟨t, ht, hparent⟩
  · have hlive := hi.borrowed f i hb
    have hne : i ≠ h := by
      rintro rfl
      rw [hlive] at hlast
      exact absurd hlast (by simp [HandleState.last])
    rw [hi.sole h hlast i hne htoken] at hlive
    exact absurd hlive (by simp)
  · have hstack := visiting_tail _ t ht
    refine ⟨t, hparent, hi.held f t (Or.inl hstack), hi.anchored_pos (hi.anchored t ?_)⟩
    exact Or.inr ⟨f, visiting_of_stack _ t hstack⟩

end Inv

end TokenForest

end Veloq.Runtime
