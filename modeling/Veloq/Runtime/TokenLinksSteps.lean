import Veloq.Runtime.TokenLinksInvariant
set_option autoImplicit false

/-!
# Runtime: the steps of handles and calls keep linked tokens alive

One lemma for each step, and one for each part of the state that a step changes: the state of a
handle, the links, the locks, and where a call is.  A handle that does not find itself to be
the last one needs care.
-/

namespace Veloq.Runtime

namespace TokenForest

variable {s s' : TokenForest} {f g h i p c t : Nat} {call : LinkCall}

/-- A handle that does not find itself to be the last one leaves behind another one that is
going to take the token out of the list, if it is in one or being visited. -/
def Careful (s : TokenForest) (e : LinkAction) : Prop :=
  ∀ h, e = .advanceDrop h → (s.handle h).state = .read → s.strong (s.tokenOf h) ≠ 1 →
    s.Exposed (s.tokenOf h) →
      ∃ i, i ≠ h ∧ s.tokenOf i = s.tokenOf h ∧ (s.handle i).state.keeps = true

namespace Inv

/-! ## Handles -/

theorem tokenOf_setState {state : HandleState} : (s.setState h state).tokenOf i = s.tokenOf i := by
  unfold tokenOf
  by_cases hne : i = h
  · rw [hne, setState_self]
  · rw [setState_of_ne hne]

/-- A handle goes on with its drop. -/
theorem setState (hi : s.Inv) {state : HandleState} (hold : (s.handle h).state ≠ .gone)
    (hfree : ∀ f, h ∉ (s.calls f).borrowed)
    (hlast : state.last = true → ∀ i, i ≠ h → s.tokenOf i = s.tokenOf h → (s.handle i).state = .gone)
    (hunlink : ∀ p, state = .unlink p → (s.node (s.tokenOf h)).parent = some p)
    (hup : ∀ p, state = .unlink p ∨ state = .release p → 0 < s.strong p)
    (hkeep : state.keeps = true ∨ (s.Exposed (s.tokenOf h) →
      ∃ i, i ≠ h ∧ s.tokenOf i = s.tokenOf h ∧ (s.handle i).state.keeps = true)) :
    (s.setState h state).Inv := by
  have hself : ((s.setState h state).handle h).state = state := by rw [setState_self]
  have hother : ∀ i, i ≠ h → (s.setState h state).handle i = s.handle i :=
    fun i hne => setState_of_ne hne
  have htoken : ∀ i, (s.setState h state).tokenOf i = s.tokenOf i := fun i => tokenOf_setState
  have hgone : ∀ i, ((s.setState h state).handle i).state ≠ .gone → (s.handle i).state ≠ .gone := by
    intro i hne
    by_cases hih : i = h
    · rw [hih]
      exact hold
    · rw [hother i hih] at hne
      exact hne
  have hunborn : ∀ i, s.handles ≤ i → ((s.setState h state).handle i).state = .gone := by
    intro i hle
    by_contra hne
    exact hgone i hne (hi.unborn i hle)
  have hstrong : ∀ p, 0 < (s.setState h state).strong p → 0 < s.strong p := by
    intro p hpos
    obtain ⟨i, ⟨hp, hne⟩ | hupgraded⟩ := (strong_pos_iff hunborn).mp hpos
    · exact (strong_pos_iff hi.unborn).mpr ⟨i, Or.inl ⟨(htoken i).symm.trans hp, hgone i hne⟩⟩
    · unfold Upgraded at hupgraded
      by_cases hih : i = h
      · rw [hih, hself] at hupgraded
        exact hup p hupgraded
      · rw [hother i hih] at hupgraded
        exact (strong_pos_iff hi.unborn).mpr ⟨i, Or.inr hupgraded⟩
  refine ⟨hunborn, fun i hne => ?_, fun i hl j hne hj => ?_, fun i p hs => ?_, hi.member, hi.nodup,
    hi.unplaced, fun f i hb => ?_, fun f p c hl => ?_, fun f g p c p' c' hl hl' heq => ?_,
    fun f t hl => ?_, hi.distinct, fun f => ?_, fun c hx => ?_⟩
  · rw [htoken]
    exact hi.born i (hgone i hne)
  · rw [htoken, htoken] at hj
    by_cases hih : i = h
    · rw [hih, hself] at hl
      rw [hih] at hne hj
      rw [hother j hne]
      exact hlast hl j hne hj
    · rw [hother i hih] at hl
      by_cases hjh : j = h
      · rw [hjh] at hne hj
        exact absurd (hi.sole i hl h hne hj) hold
      · rw [hother j hjh]
        exact hi.sole i hl j hne hj
  · rw [htoken]
    by_cases hih : i = h
    · rw [hih, hself] at hs
      rw [hih]
      exact hunlink p hs
    · rw [hother i hih] at hs
      exact hi.unlinking i p hs
  · have hne : i ≠ h := by
      rintro rfl
      exact hfree f hb
    rw [hother i hne]
    exact hi.borrowed f i hb
  · rw [htoken, htoken]
    exact hi.ready f p c hl
  · rw [htoken, htoken] at heq
    exact hi.unique f g p c p' c' hl hl' heq
  · refine hi.held f t (hl.imp_right ?_)
    rintro ⟨p, hp, ht⟩
    rw [htoken] at ht
    exact ⟨p, hp, ht⟩
  · exact (hi.trail f).mono (fun i _ => htoken i) fun _ _ _ hp => hp
  · have hx' : s.Exposed c := by
      rcases hx with ⟨p, hpos, hc⟩ | hv
      · exact Or.inl ⟨p, hstrong p hpos, hc⟩
      · exact Or.inr hv
    obtain ⟨i, hic, hk⟩ := hi.anchored c hx'
    by_cases hih : i = h
    · rcases hkeep with hk' | hothers
      · exact ⟨h, by rw [htoken, ← hih]; exact hic, by rw [hself]; exact hk'⟩
      · rw [hih] at hic
        obtain ⟨j, hne, hj, hkj⟩ := hothers (by rw [hic]; exact hx')
        exact ⟨j, by rw [htoken, hj]; exact hic, by rw [hother j hne]; exact hkj⟩
    · exact ⟨i, by rw [htoken]; exact hic, by rw [hother i hih]; exact hk⟩

/-- A handle in the middle of its drop is not borrowed. -/
theorem not_borrowed (hi : s.Inv) (hstate : (s.handle h).state ≠ .live) (f : Nat) :
    h ∉ (s.calls f).borrowed :=
  fun hb => hstate (hi.borrowed f h hb)

/-- A handle that does not keep its token alive is not the one that does. -/
theorem other_keeps (hi : s.Inv) (hstate : (s.handle h).state.keeps = false)
    (hx : s.Exposed (s.tokenOf h)) :
    ∃ i, i ≠ h ∧ s.tokenOf i = s.tokenOf h ∧ (s.handle i).state.keeps = true := by
  obtain ⟨i, hic, hk⟩ := hi.anchored _ hx
  refine ⟨i, ?_, hic, hk⟩
  rintro rfl
  rw [hstate] at hk
  exact absurd hk (by simp)

theorem dropRead (hi : s.Inv) (hstate : (s.handle h).state = .read)
    (hcare : s.strong (s.tokenOf h) ≠ 1 → s.Exposed (s.tokenOf h) →
      ∃ i, i ≠ h ∧ s.tokenOf i = s.tokenOf h ∧ (s.handle i).state.keeps = true) :
    (s.dropRead h).Inv := by
  have hgone : (s.handle h).state ≠ .gone := by rw [hstate]; simp
  have hfree := hi.not_borrowed (h := h) (by rw [hstate]; simp)
  unfold TokenForest.dropRead
  split
  · rename_i hone
    exact hi.setState hgone hfree (fun _ i hne hj => hi.sole_of_strong hone hgone hne hj) nofun
      (by rintro p (hp | hp) <;> exact absurd hp (by simp)) (Or.inl rfl)
  · rename_i hmany
    exact hi.setState hgone hfree nofun nofun
      (by rintro p (hp | hp) <;> exact absurd hp (by simp)) (Or.inr (hcare hmany))

/-- The last handle finds no parent to leave: nobody sees the token. -/
theorem not_exposed_of_orphan (hi : s.Inv) (hlast : (s.handle h).state.last = true)
    (horphan : ∀ p, (s.node (s.tokenOf h)).parent = some p → ¬ 0 < s.strong p) :
    ¬ s.Exposed (s.tokenOf h) := by
  rintro (⟨p, hpos, hc⟩ | ⟨f, hv⟩)
  · exact horphan p (hi.member p _ hc).2.1 hpos
  · obtain ⟨p, hp, -, hpos⟩ := hi.visited_last hlast hv
    exact horphan p hp hpos

theorem dropUpgrade (hi : s.Inv) (hstate : (s.handle h).state = .upgrade) :
    (s.dropUpgrade h).Inv := by
  have hgone : (s.handle h).state ≠ .gone := by rw [hstate]; simp
  have hfree := hi.not_borrowed (h := h) (by rw [hstate]; simp)
  have hlast : (s.handle h).state.last = true := by rw [hstate]; rfl
  have horphan : (∀ p, (s.node (s.tokenOf h)).parent = some p → ¬ 0 < s.strong p) →
      (s.setState h .decrement).Inv := by
    intro hnone
    exact hi.setState hgone hfree nofun nofun
      (by rintro p (hp | hp) <;> exact absurd hp (by simp))
      (Or.inr fun hx => absurd hx (hi.not_exposed_of_orphan hlast hnone))
  unfold TokenForest.dropUpgrade
  cases hparent : (s.node (s.handle h).token).parent with
  | none =>
    refine horphan fun p hp => ?_
    rw [show (s.node (s.tokenOf h)).parent = none from hparent] at hp
    exact absurd hp (by simp)
  | some p =>
    simp only
    split
    · rename_i hpos
      refine hi.setState hgone hfree (fun _ => hi.sole h hlast) (fun q hq => ?_) ?_ (Or.inl rfl)
      · cases hq
        exact hparent
      · rintro q (hq | hq)
        · cases hq
          exact hpos
        · exact absurd hq (by simp)
    · rename_i hpos
      refine horphan fun q hq => ?_
      rw [show (s.node (s.tokenOf h)).parent = some p from hparent] at hq
      rw [← Option.some.inj hq]
      exact hpos

/-! ## Links and locks -/

/-- A step that changes only what the tokens hold. -/
theorem renode (hi : s.Inv) (htokens : s'.tokens = s.tokens) (hhandles : s'.handles = s.handles)
    (hhandle : s'.handle = s.handle) (hcalls : s'.calls = s.calls)
    (hparent : ∀ c q, (s.node c).parent = some q → (s'.node c).parent = some q)
    (hmember : ∀ p c, c ∈ (s'.node p).children → c < s.tokens ∧ (s'.node c).parent = some p ∧
      (s'.node c).linked = true ∧ (c ∈ (s.node p).children ∨ s.Anchored c))
    (hnodup : ∀ p, (s'.node p).children.Nodup)
    (hunplaced : ∀ t, (s'.node t).placed = false →
      (s'.node t).parent = none ∧ (s'.node t).linked = false)
    (hready : ∀ f, s'.Ready (s'.calls f))
    (hheld : ∀ f t, s'.Locks (s'.calls f) t → (s'.node t).lock = some f) : s'.Inv := by
  have htoken : ∀ i, s'.tokenOf i = s.tokenOf i := by
    intro i
    unfold tokenOf
    rw [hhandle]
  have hanchored : ∀ c, s.Anchored c → s'.Anchored c := by
    rintro c ⟨i, hic, hk⟩
    exact ⟨i, by rw [htoken]; exact hic, by rw [hhandle]; exact hk⟩
  refine ⟨fun i => ?_, fun i => ?_, fun i hl j hne hj => ?_, fun i p hs => ?_, fun p c hc => ?_,
    hnodup, hunplaced, fun f i hb => ?_, hready, fun f g p c p' c' hl hl' heq => ?_, hheld,
    fun f => ?_, fun f => ?_, fun c hx => hanchored c ?_⟩
  · rw [hhandles, hhandle]
    exact hi.unborn i
  · rw [hhandle, htoken, htokens]
    exact hi.born i
  · rw [hhandle] at hl ⊢
    rw [htoken, htoken] at hj
    exact hi.sole i hl j hne hj
  · rw [hhandle] at hs
    rw [htoken]
    exact hparent _ p (hi.unlinking i p hs)
  · obtain ⟨hlt, hp, hlinked, -⟩ := hmember p c hc
    exact ⟨by rw [htokens]; exact hlt, hp, hlinked⟩
  · rw [hcalls] at hb
    rw [hhandle]
    exact hi.borrowed f i hb
  · rw [hcalls] at hl hl'
    rw [htoken, htoken] at heq
    exact hi.unique f g p c p' c' hl hl' heq
  · rw [hcalls]
    exact hi.distinct f
  · rw [hcalls]
    exact (hi.trail f).mono (fun i _ => htoken i) fun c _ q hq => hparent c q hq
  · rcases hx with ⟨q, hpos, hc⟩ | hv
    · rw [strong_congr hhandles hhandle] at hpos
      exact (hmember q c hc).2.2.2.elim (fun hold => hi.anchored c (Or.inl ⟨q, hpos, hold⟩)) id
    · rw [hcalls] at hv
      exact hi.anchored c (Or.inr hv)

/-- A step that leaves the links alone. -/
theorem retag {node : LinkNode} (hi : s.Inv) (hparent : node.parent = (s.node t).parent)
    (hlinked : node.linked = (s.node t).linked) (hchildren : node.children = (s.node t).children)
    (hplaced : node.placed = false → (s.node t).placed = false)
    (hlock : node.lock = (s.node t).lock ∨ ∀ f, ¬ s.Locks (s.calls f) t) :
    (s.setNode t node).Inv := by
  have hself : (s.setNode t node).node t = node := setNode_self
  have hother : ∀ y, y ≠ t → (s.setNode t node).node y = s.node y := fun y hy => setNode_of_ne hy
  have hnode : ∀ y, ((s.setNode t node).node y).parent = (s.node y).parent ∧
      ((s.setNode t node).node y).linked = (s.node y).linked ∧
      ((s.setNode t node).node y).children = (s.node y).children ∧
      (((s.setNode t node).node y).placed = false → (s.node y).placed = false) := by
    intro y
    by_cases hy : y = t
    · rw [hy, hself]
      exact ⟨hparent, hlinked, hchildren, hplaced⟩
    · rw [hother y hy]
      exact ⟨rfl, rfl, rfl, id⟩
  refine hi.renode rfl rfl rfl rfl (fun c q hq => ?_) (fun p c hc => ?_) (fun p => ?_)
    (fun y hy => ?_) (fun f p c hl => ?_) (fun f y hl => ?_)
  · rw [(hnode c).1]
    exact hq
  · rw [(hnode p).2.2.1] at hc
    rw [(hnode c).1, (hnode c).2.1]
    obtain ⟨hlt, hp, hl⟩ := hi.member p c hc
    exact ⟨hlt, hp, hl, Or.inl hc⟩
  · rw [(hnode p).2.2.1]
    exact hi.nodup p
  · rw [(hnode y).1, (hnode y).2.1]
    exact hi.unplaced y ((hnode y).2.2.2 hy)
  · obtain ⟨hp, hrest⟩ := hi.ready f p c hl
    show ((s.setNode t node).node (s.tokenOf c)).placed = true ∧ _
    rw [(hnode _).1, (hnode _).2.1]
    refine ⟨?_, hrest⟩
    rw [← Bool.not_eq_false]
    intro hfalse
    rw [(hnode _).2.2.2 hfalse] at hp
    exact absurd hp (by simp)
  · by_cases hy : y = t
    · rw [hy] at hl ⊢
      rcases hlock with hsame | hnone
      · rw [hself, hsame]
        exact hi.held f t hl
      · exact absurd hl (hnone f)
    · rw [hother y hy]
      exact hi.held f y hl

/-- Nobody has locked children whose lock is free. -/
theorem not_locks (hi : s.Inv) (hfree : (s.node t).lock = none) (f : Nat) :
    ¬ s.Locks (s.calls f) t := by
  intro hl
  rw [hi.held f t hl] at hfree
  exact absurd hfree (by simp)

/-- A token that a call is about to link is in no list. -/
theorem linking_not_member (hi : s.Inv) (hl : (s.calls f).linking = some (p, c)) (q : Nat) :
    s.tokenOf c ∉ (s.node q).children := by
  intro hmem
  have hlinked := (hi.member q _ hmem).2.2
  rw [(hi.ready f p c hl).2.1] at hlinked
  exact absurd hlinked (by simp)

/-- A token leaves the list of its parent. -/
theorem remove (hi : s.Inv) {rest : List Nat} (hparent : (s.node c).parent = some p)
    (hlinked : (s.node c).linked = true)
    (hrest : ∀ x ∈ rest, x ∈ (s.node p).children ∧ x ≠ c) (hnodup : rest.Nodup) :
    (s.relink p c rest false).Inv ∧ ∀ q, c ∉ ((s.relink p c rest false).node q).children := by
  have hnode := relink_node s p c rest false
  have hmem : ∀ q x, x ∈ ((s.relink p c rest false).node q).children →
      x ∈ (s.node q).children ∧ x ≠ c := by
    intro q x hx
    rw [(hnode q).2.2.2.2] at hx
    by_cases hq : q = p
    · rw [if_pos hq] at hx
      rw [hq]
      exact hrest x hx
    · rw [if_neg hq] at hx
      refine ⟨hx, ?_⟩
      rintro rfl
      have hparent' := (hi.member q x hx).2.1
      rw [hparent] at hparent'
      exact hq (Option.some.inj hparent').symm
  refine ⟨hi.renode rfl rfl rfl rfl (fun x q hq => ?_) (fun q x hx => ?_) (fun q => ?_)
    (fun y => ?_) (fun f q x hl => ?_) (fun f y hl => ?_), fun q hq => (hmem q c hq).2 rfl⟩
  · rw [(hnode x).1]
    exact hq
  · obtain ⟨hx, hne⟩ := hmem q x hx
    obtain ⟨hlt, hp, hl⟩ := hi.member q x hx
    rw [(hnode x).1, (hnode x).2.2.2.1, if_neg hne]
    exact ⟨hlt, hp, hl, Or.inl hx⟩
  · rw [(hnode q).2.2.2.2]
    split
    · exact hnodup
    · exact hi.nodup q
  · rw [(hnode y).2.1, (hnode y).1, (hnode y).2.2.2.1]
    intro hplaced
    obtain ⟨hnone, hfalse⟩ := hi.unplaced y hplaced
    refine ⟨hnone, ?_⟩
    split
    · rfl
    · exact hfalse
  · obtain ⟨hplaced, hfalse, hp⟩ := hi.ready f q x hl
    rw [(hnode _).2.1, (hnode _).1, (hnode _).2.2.2.1]
    refine ⟨hplaced, ?_, hp⟩
    split
    · rfl
    · exact hfalse
  · rw [(hnode y).2.2.1]
    exact hi.held f y hl

/-- The last handle takes its token out of the list of the parent. -/
theorem leave (hi : s.Inv) (hstate : (s.handle h).state = .unlink p)
    (hfree : (s.node p).lock = none) :
    (s.leave (s.tokenOf h) p).Inv ∧ ¬ (s.leave (s.tokenOf h) p).Exposed (s.tokenOf h) ∧
      (s.leave (s.tokenOf h) p).handle = s.handle := by
  have hparent := hi.unlinking h p hstate
  have hlast : (s.handle h).state.last = true := by rw [hstate]; rfl
  have hvisited : ∀ f, s.tokenOf h ∉ (s.calls f).visiting := by
    intro f hv
    obtain ⟨q, hq, hlock, -⟩ := hi.visited_last hlast hv
    rw [hparent] at hq
    rw [← Option.some.inj hq, hfree] at hlock
    exact absurd hlock (by simp)
  unfold TokenForest.leave
  split
  · rename_i hlinked
    obtain ⟨hinv, hnot⟩ := hi.remove hparent hlinked
      (fun x hx => ⟨List.mem_of_mem_erase hx, fun heq => by
        rw [heq] at hx
        exact (hi.nodup p).not_mem_erase hx⟩) ((hi.nodup p).erase _)
    refine ⟨hinv, ?_, rfl⟩
    rintro (⟨q, -, hmem⟩ | ⟨f, hv⟩)
    · exact hnot q hmem
    · exact hvisited f hv
  · rename_i hlinked
    refine ⟨hi, ?_, rfl⟩
    rintro (⟨q, -, hmem⟩ | ⟨f, hv⟩)
    · exact hlinked (hi.member q _ hmem).2.2
    · exact hvisited f hv

/-- The next step of the drop of a handle. -/
theorem advanceDrop (hi : s.Inv)
    (hcare : (s.handle h).state = .read → s.strong (s.tokenOf h) ≠ 1 → s.Exposed (s.tokenOf h) →
      ∃ i, i ≠ h ∧ s.tokenOf i = s.tokenOf h ∧ (s.handle i).state.keeps = true)
    (hs : s.advanceDrop h = some s') : s'.Inv := by
  unfold TokenForest.advanceDrop at hs
  cases hstate : (s.handle h).state <;> simp only [hstate] at hs
  case live => exact absurd hs (by simp)
  case gone => exact absurd hs (by simp)
  case read =>
    cases hs
    exact hi.dropRead hstate (hcare hstate)
  case upgrade =>
    cases hs
    exact hi.dropUpgrade hstate
  case unlink p =>
    split at hs
    · rename_i hfree
      cases hs
      obtain ⟨hinv, hnot, hhandle⟩ := hi.leave hstate hfree
      have hpos : 0 < (s.leave (s.tokenOf h) p).strong p := by
        rw [strong_pos_iff hinv.unborn]
        refine ⟨h, Or.inr (Or.inl ?_)⟩
        rw [hhandle]
        exact hstate
      have hlast : ((s.leave (s.tokenOf h) p).handle h).state.last = true := by
        rw [hhandle, hstate]
        rfl
      have htoken : (s.leave (s.tokenOf h) p).tokenOf h = s.tokenOf h := by
        show ((s.leave (s.tokenOf h) p).handle h).token = _
        rw [hhandle]
        rfl
      refine hinv.setState (by rw [hhandle, hstate]; simp)
        (hinv.not_borrowed (by rw [hhandle, hstate]; simp)) (fun _ => hinv.sole h hlast) nofun ?_
        (Or.inr fun hx => ?_)
      · rintro q (hq | hq)
        · exact absurd hq (by simp)
        · cases hq
          exact hpos
      · rw [htoken] at hx
        exact absurd hx hnot
    · exact absurd hs (by simp)
  case release p =>
    cases hs
    exact hi.setState (by rw [hstate]; simp) (hi.not_borrowed (by rw [hstate]; simp)) nofun nofun
      (by rintro q (hq | hq) <;> exact absurd hq (by simp))
      (Or.inr (hi.other_keeps (by rw [hstate]; rfl)))
  case decrement =>
    cases hs
    exact hi.setState (by rw [hstate]; simp) (hi.not_borrowed (by rw [hstate]; simp)) nofun nofun
      (by rintro q (hq | hq) <;> exact absurd hq (by simp))
      (Or.inr (hi.other_keeps (by rw [hstate]; rfl)))

/-! ## Calls -/

/-- A call goes on, and nothing else changes. -/
theorem goto (hi : s.Inv) (hborrowed : ∀ h ∈ call.borrowed, (s.handle h).state = .live)
    (hready : s.Ready call)
    (hunique : ∀ p c, call.linking = some (p, c) → ∀ g, g ≠ f → ∀ p' c',
      (s.calls g).linking = some (p', c') → s.tokenOf c' ≠ s.tokenOf c)
    (hheld : ∀ t, s.Locks call t → (s.node t).lock = some f) (hdistinct : call.stack.Nodup)
    (htrail : s.Trail call.borrowed call.visiting)
    (hvisiting : ∀ c ∈ call.visiting, c ∈ (s.calls f).visiting ∨ s.Anchored c) :
    (s.goto f call).Inv := by
  have hself : (s.goto f call).calls f = call := goto_self
  have hother : ∀ g, g ≠ f → (s.goto f call).calls g = s.calls g := fun g hne => goto_of_ne hne
  refine ⟨hi.unborn, hi.born, hi.sole, hi.unlinking, hi.member, hi.nodup, hi.unplaced,
    fun g i hb => ?_, fun g => ?_, fun g g' p c p' c' hl hl' heq => ?_, fun g t hl => ?_,
    fun g => ?_, fun g => ?_, fun c hx => ?_⟩
  · by_cases hg : g = f
    · rw [hg, hself] at hb
      exact hborrowed i hb
    · rw [hother g hg] at hb
      exact hi.borrowed g i hb
  · by_cases hg : g = f
    · rw [hg, hself]
      exact hready
    · rw [hother g hg]
      exact hi.ready g
  · by_cases hg : g = f
    · by_cases hg' : g' = f
      · rw [hg, hg']
      · rw [hg, hself] at hl
        rw [hother g' hg'] at hl'
        exact absurd heq.symm (hunique p c hl g' hg' p' c' hl')
    · by_cases hg' : g' = f
      · rw [hg', hself] at hl'
        rw [hother g hg] at hl
        exact absurd heq (hunique p' c' hl' g hg p c hl)
      · rw [hother g hg] at hl
        rw [hother g' hg'] at hl'
        exact hi.unique g g' p c p' c' hl hl' heq
  · by_cases hg : g = f
    · rw [hg, hself] at hl
      rw [hg]
      exact hheld t hl
    · rw [hother g hg] at hl
      exact hi.held g t hl
  · by_cases hg : g = f
    · rw [hg, hself]
      exact hdistinct
    · rw [hother g hg]
      exact hi.distinct g
  · by_cases hg : g = f
    · rw [hg, hself]
      exact htrail.mono (fun _ _ => rfl) fun _ _ _ hq => hq
    · rw [hother g hg]
      exact (hi.trail g).mono (fun _ _ => rfl) fun _ _ _ hq => hq
  · rcases hx with hlist | ⟨g, hv⟩
    · exact hi.anchored c (Or.inl hlist)
    · by_cases hg : g = f
      · rw [hg, hself] at hv
        exact (hvisiting c hv).elim (fun hold => hi.anchored c (Or.inr ⟨f, hold⟩)) id
      · rw [hother g hg] at hv
        exact hi.anchored c (Or.inr ⟨g, hv⟩)

/-- `link_child` goes on to another place. -/
theorem gotoLinking (hi : s.Inv) (hl : (s.calls f).linking = some (p, c))
    (hl' : call.linking = some (p, c)) (hborrowed : call.borrowed = [p, c])
    (hvisiting : call.visiting = []) (hstack : call.stack = [])
    (hparent : call.parented = true → (s.node (s.tokenOf c)).parent = some (s.tokenOf p))
    (hheld : ∀ q, call.pushing = some q → (s.node (s.tokenOf q)).lock = some f) :
    (s.goto f call).Inv := by
  have hmine : (s.calls f).borrowed = [p, c] := by
    revert hl
    cases s.calls f <;> simp [LinkCall.linking, LinkCall.borrowed]
  refine hi.goto (fun h hh => ?_) (fun p' c' heq => ?_) (fun p' c' heq g hg q x hx => ?_)
    (fun t ht => ?_) (by rw [hstack]; exact List.nodup_nil) (by rw [hvisiting]; trivial)
    (by rw [hvisiting]; nofun)
  · rw [hborrowed, ← hmine] at hh
    exact hi.borrowed f h hh
  · rw [hl'] at heq
    cases heq
    obtain ⟨hplaced, hlinked, hold⟩ := hi.ready f p c hl
    refine ⟨hplaced, hlinked, ?_⟩
    cases hp : call.parented with
    | true => exact Or.inl (hparent hp)
    | false => exact hold.imp_right fun hnone => ⟨rfl, hnone.2⟩
  · rw [hl'] at heq
    cases heq
    exact fun htoken => hg (hi.unique g f q x p c hx hl htoken)
  · rcases ht with ht | ⟨q, hq, rfl⟩
    · rw [hstack] at ht
      exact absurd ht List.not_mem_nil
    · exact hheld q hq

/-- A cancellation begins with a token whose handle is borrowed. -/
theorem gotoVisit (hi : s.Inv) {borrowed : List Nat} (hh : h ∈ borrowed)
    (hlive : ∀ i ∈ borrowed, (s.handle i).state = .live) :
    (s.goto f (.visit borrowed (s.tokenOf h) [])).Inv := by
  refine hi.goto hlive nofun nofun ?_ List.nodup_nil ⟨h, hh, rfl⟩ fun c hc => Or.inr ?_
  · rintro t (ht | ⟨q, hq, -⟩)
    · exact absurd ht List.not_mem_nil
    · exact absurd hq (by simp [LinkCall.pushing])
  · rw [List.mem_singleton.mp hc]
    exact ⟨h, rfl, by rw [hlive h hh]; rfl⟩

theorem gotoIdle (hi : s.Inv) : (s.goto f .idle).Inv := by
  refine hi.goto nofun nofun nofun ?_ List.nodup_nil trivial nofun
  rintro t (ht | ⟨q, hq, -⟩)
  · exact absurd ht List.not_mem_nil
  · exact absurd hq (by simp [LinkCall.pushing])

/-- A cancellation goes on among the tokens that it has been visiting. -/
theorem gotoCancel (hi : s.Inv) (hborrowed : call.borrowed = (s.calls f).borrowed)
    (hlinking : call.linking = none) (hpushing : call.pushing = none)
    (hheld : ∀ t ∈ call.stack, (s.node t).lock = some f) (hdistinct : call.stack.Nodup)
    (htrail : s.Trail (s.calls f).borrowed call.visiting)
    (hvisiting : ∀ c ∈ call.visiting, c ∈ (s.calls f).visiting ∨ s.Anchored c) :
    (s.goto f call).Inv := by
  refine hi.goto (by rw [hborrowed]; exact hi.borrowed f) (fun p c hl => ?_) (fun p c hl => ?_) ?_
    hdistinct (by rw [hborrowed]; exact htrail) hvisiting
  · rw [hlinking] at hl
    exact absurd hl (by simp)
  · rw [hlinking] at hl
    exact absurd hl (by simp)
  · rintro t (ht | ⟨q, hq, -⟩)
    · exact hheld t ht
    · rw [hpushing] at hq
      exact absurd hq (by simp)

/-- `link_child` sets the parent of the token. -/
theorem setParent (hi : s.Inv) (hl : (s.calls f).linking = some (p, c)) :
    (s.setNode (s.tokenOf c) { s.node (s.tokenOf c) with parent := some (s.tokenOf p) }).Inv := by
  obtain ⟨hplaced, hlinked, hparent⟩ := hi.ready f p c hl
  have hmem := hi.linking_not_member hl
  have hunique : ∀ g q x, (s.calls g).linking = some (q, x) → s.tokenOf x = s.tokenOf c →
      s.tokenOf q = s.tokenOf p := by
    intro g q x hx htoken
    obtain rfl := hi.unique g f q x p c hx hl htoken
    rw [hx] at hl
    cases hl
    rfl
  generalize hy : s.tokenOf p = y at *
  generalize hx : s.tokenOf c = x at *
  have hself : (s.setNode x { s.node x with parent := some y }).node x =
      { s.node x with parent := some y } := setNode_self
  have hother : ∀ z, z ≠ x → (s.setNode x { s.node x with parent := some y }).node z = s.node z :=
    fun z hz => setNode_of_ne hz
  refine hi.renode rfl rfl rfl rfl (fun z q hq => ?_) (fun q z hz => ?_) (fun q => ?_)
    (fun z hz => ?_) (fun g q z hz => ?_) (fun g z hz => ?_)
  · by_cases hzx : z = x
    · rw [hzx] at hq ⊢
      rw [hself]
      rcases hparent with hsome | ⟨-, hnone⟩
      · rw [← hsome]
        exact hq
      · rw [hnone] at hq
        exact absurd hq (by simp)
    · rw [hother z hzx]
      exact hq
  · have hz' : z ∈ (s.node q).children := by
      by_cases hqx : q = x
      · rw [hqx, hself] at hz
        rw [hqx]
        exact hz
      · rw [hother q hqx] at hz
        exact hz
    have hzx : z ≠ x := by
      rintro rfl
      exact hmem q hz'
    rw [hother z hzx]
    obtain ⟨hlt, hp, hlinked⟩ := hi.member q z hz'
    exact ⟨hlt, hp, hlinked, Or.inl hz'⟩
  · by_cases hqx : q = x
    · rw [hqx, hself]
      exact hi.nodup x
    · rw [hother q hqx]
      exact hi.nodup q
  · by_cases hzx : z = x
    · rw [hzx, hself] at hz
      rw [show (s.node x).placed = true from hplaced] at hz
      exact absurd hz (by simp)
    · rw [hother z hzx] at hz ⊢
      exact hi.unplaced z hz
  · by_cases hzx : s.tokenOf z = x
    · rw [show (s.setNode x { s.node x with parent := some y }).tokenOf z = x from hzx, hself]
      exact ⟨hplaced, hlinked, Or.inl (congrArg some (hunique g q z hz hzx).symm)⟩
    · have hsame : (s.setNode x { s.node x with parent := some y }).node
          ((s.setNode x { s.node x with parent := some y }).tokenOf z) = s.node (s.tokenOf z) :=
        setNode_of_ne hzx
      rw [hsame]
      exact hi.ready g q z hz
  · by_cases hzx : z = x
    · rw [hzx] at hz ⊢
      rw [hself]
      exact hi.held g x hz
    · rw [hother z hzx]
      exact hi.held g z hz

/-- A live handle is put under a parent. -/
theorem add (hi : s.Inv) (hlive : (s.handle c).state = .live)
    (hparent : (s.node (s.tokenOf c)).parent = some p)
    (hlinked : (s.node (s.tokenOf c)).linked = false)
    (hplaced : (s.node (s.tokenOf c)).placed = true)
    (hnone : ∀ g q x, (s.calls g).linking = some (q, x) → s.tokenOf x ≠ s.tokenOf c) :
    (s.relink p (s.tokenOf c) ((s.node p).children ++ [s.tokenOf c]) true).Inv := by
  have hnode := relink_node s p (s.tokenOf c) ((s.node p).children ++ [s.tokenOf c]) true
  have hfree : ∀ q, s.tokenOf c ∉ (s.node q).children := by
    intro q hq
    have htrue := (hi.member q _ hq).2.2
    rw [hlinked] at htrue
    exact absurd htrue (by simp)
  have hmem : ∀ q x,
      x ∈ ((s.relink p (s.tokenOf c) ((s.node p).children ++ [s.tokenOf c]) true).node q).children →
        x ∈ (s.node q).children ∨ x = s.tokenOf c ∧ q = p := by
    intro q x hx
    rw [(hnode q).2.2.2.2] at hx
    by_cases hq : q = p
    · rw [if_pos hq] at hx
      rcases List.mem_append.mp hx with hx | hx
      · rw [hq]
        exact Or.inl hx
      · exact Or.inr ⟨List.mem_singleton.mp hx, hq⟩
    · rw [if_neg hq] at hx
      exact Or.inl hx
  refine hi.renode rfl rfl rfl rfl (fun x q hq => ?_) (fun q x hx => ?_) (fun q => ?_)
    (fun y hy => ?_) (fun f q x hl => ?_) (fun f y hl => ?_)
  · rw [(hnode x).1]
    exact hq
  · rw [(hnode x).1, (hnode x).2.2.2.1]
    rcases hmem q x hx with hold | ⟨rfl, rfl⟩
    · obtain ⟨hlt, hp, htrue⟩ := hi.member q x hold
      refine ⟨hlt, hp, ?_, Or.inl hold⟩
      split
      · rfl
      · exact htrue
    · exact ⟨hi.born c (by rw [hlive]; simp), hparent, if_pos rfl,
        Or.inr ⟨c, rfl, by rw [hlive]; rfl⟩⟩
  · rw [(hnode q).2.2.2.2]
    split
    · refine List.Nodup.append (hi.nodup p) (List.nodup_singleton _) ?_
      rw [List.disjoint_singleton]
      exact hfree p
    · exact hi.nodup q
  · rw [(hnode y).2.1] at hy
    have hne : y ≠ s.tokenOf c := by
      rintro rfl
      rw [hplaced] at hy
      exact absurd hy (by simp)
    rw [(hnode y).1, (hnode y).2.2.2.1, if_neg hne]
    exact hi.unplaced y hy
  · have hready := hi.ready f q x hl
    rw [(hnode _).2.1, (hnode _).1, (hnode _).2.2.2.1]
    exact ⟨hready.1, (if_neg (hnone f q x hl)).trans hready.2.1, hready.2.2⟩
  · rw [(hnode y).2.2.1]
    exact hi.held f y hl

theorem linkPush (hi : s.Inv) (hcall : s.calls f = .linkPush p c) : (s.linkPush f p c).Inv := by
  have hl : (s.calls f).linking = some (p, c) := by rw [hcall]; rfl
  obtain ⟨hplaced, hlinked, hparent⟩ := hi.ready f p c hl
  have hsome : (s.node (s.tokenOf c)).parent = some (s.tokenOf p) := by
    refine hparent.resolve_right fun hnone => ?_
    rw [hcall] at hnone
    exact absurd hnone.1 (by simp [LinkCall.parented])
  have hlive : (s.handle c).state = .live := hi.borrowed f c (by rw [hcall]; simp [LinkCall.borrowed])
  have hlock := hi.held f (s.tokenOf p) (Or.inr ⟨p, by rw [hcall]; rfl, rfl⟩)
  unfold TokenForest.linkPush
  rw [if_neg (by rw [hlinked]; simp)]
  have hidle : (s.goto f .idle).Inv := hi.gotoIdle
  have hadd : ((s.goto f .idle).relink (s.tokenOf p) (s.tokenOf c)
      ((s.node (s.tokenOf p)).children ++ [s.tokenOf c]) true).Inv := by
    refine hidle.add hlive hsome hlinked hplaced fun g q x hx => ?_
    by_cases hg : g = f
    · rw [hg, goto_self] at hx
      exact absurd hx (by simp [LinkCall.linking])
    · rw [goto_of_ne hg] at hx
      exact fun htoken => hg (hi.unique g f q x p c hx hl htoken)
  refine hadd.retag rfl rfl rfl id (Or.inr fun g hg => ?_)
  have hgf : g ≠ f := by
    rintro rfl
    rw [show ((s.goto g .idle).relink (s.tokenOf p) (s.tokenOf c)
      ((s.node (s.tokenOf p)).children ++ [s.tokenOf c]) true).calls g = .idle from goto_self] at hg
    rcases hg with ht | ⟨q, hq, -⟩
    · exact absurd ht List.not_mem_nil
    · exact absurd hq (by simp [LinkCall.pushing])
  rw [show ((s.goto f .idle).relink (s.tokenOf p) (s.tokenOf c)
      ((s.node (s.tokenOf p)).children ++ [s.tokenOf c]) true).calls g = s.calls g from
      goto_of_ne hgf] at hg
  have hlock' := hi.held g _ hg
  rw [hlock] at hlock'
  exact hgf (Option.some.inj hlock').symm

theorem linkRecheck (hi : s.Inv) (hcall : s.calls f = .linkRecheck p c) :
    (s.linkRecheck f p c).Inv := by
  have hl : (s.calls f).linking = some (p, c) := by rw [hcall]; rfl
  have hlock := hi.held f (s.tokenOf p) (Or.inr ⟨p, by rw [hcall]; rfl, rfl⟩)
  have hborrowed : ∀ h ∈ [p, c], (s.handle h).state = .live := by
    have hlive := hi.borrowed f
    rw [hcall] at hlive
    exact hlive
  unfold TokenForest.linkRecheck
  split
  · have hvisit : (s.goto f (.visit [p, c] (s.tokenOf c) [])).Inv :=
      hi.gotoVisit (List.mem_cons_of_mem _ (List.mem_singleton_self c)) hborrowed
    refine hvisit.retag rfl rfl rfl id (Or.inr fun g hg => ?_)
    have hgf : g ≠ f := by
      rintro rfl
      rw [goto_self] at hg
      rcases hg with ht | ⟨q, hq, -⟩
      · exact absurd ht List.not_mem_nil
      · exact absurd hq (by simp [LinkCall.pushing])
    rw [goto_of_ne hgf] at hg
    have hlock' := hi.held g _ hg
    rw [hlock] at hlock'
    exact hgf (Option.some.inj hlock').symm
  · refine hi.gotoLinking hl rfl rfl rfl rfl (fun _ => ?_) fun q hq => ?_
    · refine (hi.ready f p c hl).2.2.resolve_right fun hnone => ?_
      rw [hcall] at hnone
      exact absurd hnone.1 (by simp [LinkCall.parented])
    · cases hq
      exact hlock

theorem linkParent (hi : s.Inv) (hcall : s.calls f = .linkParent p c) :
    (s.linkParent f p c).Inv := by
  have hl : (s.calls f).linking = some (p, c) := by rw [hcall]; rfl
  refine (hi.setParent hl).gotoLinking hl rfl rfl rfl rfl (fun _ => ?_) nofun
  show ((s.setNode (s.tokenOf c) _).node (s.tokenOf c)).parent = _
  rw [setNode_self]
  rfl

theorem visit (hi : s.Inv) {borrowed stack : List Nat} (hcall : s.calls f = .visit borrowed t stack) :
    (s.visit f borrowed t stack).Inv := by
  have htrail := hi.trail f
  have hdistinct := hi.distinct f
  have hheld : ∀ x ∈ stack, (s.node x).lock = some f :=
    fun x hx => hi.held f x (Or.inl (by rw [hcall]; exact hx))
  rw [hcall] at htrail hdistinct
  unfold TokenForest.visit
  split
  · refine hi.gotoCancel (by rw [hcall]; rfl) rfl rfl hheld hdistinct
      (by rw [hcall]; exact htrail.tail) fun x hx => Or.inl ?_
    rw [hcall]
    exact List.mem_cons_of_mem _ hx
  · have hmark : (s.setNode t { s.node t with cancelled := true }).Inv :=
      hi.retag rfl rfl rfl id (Or.inl rfl)
    have hmark' := hmark.trail f
    have hheld' : ∀ x ∈ stack, ((s.setNode t { s.node t with cancelled := true }).node x).lock = some f :=
      fun x hx => hmark.held f x (Or.inl (by
        show x ∈ (s.calls f).stack
        rw [hcall]
        exact hx))
    have hcall' : (s.setNode t { s.node t with cancelled := true }).calls f =
        .visit borrowed t stack := hcall
    rw [hcall'] at hmark'
    exact hmark.gotoCancel (by rw [hcall']; rfl) rfl rfl hheld' hdistinct (by rw [hcall']; exact hmark')
      fun x hx => Or.inl (by rw [hcall']; exact hx)

theorem enter (hi : s.Inv) {borrowed stack : List Nat} (hcall : s.calls f = .enter borrowed t stack)
    (hfree : (s.node t).lock = none) :
    ((s.setLock t (some f)).goto f (.drain borrowed (t :: stack))).Inv := by
  have hlocked : (s.setLock t (some f)).Inv :=
    hi.retag rfl rfl rfl id (Or.inr (hi.not_locks hfree))
  have hself : ((s.setLock t (some f)).node t).lock = some f := by
    unfold TokenForest.setLock
    rw [setNode_self]
  have hcall' : (s.setLock t (some f)).calls f = .enter borrowed t stack := hcall
  have hdistinct := hi.distinct f
  have htrail := hlocked.trail f
  rw [hcall] at hdistinct
  rw [hcall'] at htrail
  refine hlocked.gotoCancel (by rw [hcall']; rfl) rfl rfl (fun x hx => ?_) ?_
    (by rw [hcall']; exact htrail) fun x hx => Or.inl (by rw [hcall']; exact hx)
  · rcases List.mem_cons.mp hx with rfl | hx
    · exact hself
    · exact hlocked.held f x (Or.inl (by rw [hcall']; exact hx))
  · refine List.nodup_cons.mpr ⟨fun hmem => ?_, hdistinct⟩
    exact hi.not_locks hfree f (Or.inl (by rw [hcall]; exact hmem))

theorem drain (hi : s.Inv) {borrowed stack : List Nat}
    (hcall : s.calls f = .drain borrowed (t :: stack)) : (s.drain f borrowed t stack).Inv := by
  have htrail := hi.trail f
  have hdistinct := hi.distinct f
  have hheld : ∀ x ∈ t :: stack, (s.node x).lock = some f :=
    fun x hx => hi.held f x (Or.inl (by rw [hcall]; exact hx))
  rw [hcall] at htrail hdistinct
  unfold TokenForest.drain
  cases hchildren : (s.node t).children with
  | nil =>
    have hnext : (s.goto f (.drain borrowed stack)).Inv :=
      hi.gotoCancel (by rw [hcall]; rfl) rfl rfl (fun x hx => hheld x (List.mem_cons_of_mem _ hx))
        (List.nodup_cons.mp hdistinct).2 (by rw [hcall]; exact htrail.tail)
        fun x hx => Or.inl (by rw [hcall]; exact List.mem_cons_of_mem _ hx)
    refine hnext.retag rfl rfl rfl id (Or.inr fun g hg => ?_)
    by_cases hgf : g = f
    · rw [hgf, goto_self] at hg
      rcases hg with ht | ⟨q, hq, -⟩
      · exact (List.nodup_cons.mp hdistinct).1 ht
      · exact absurd hq (by simp [LinkCall.pushing])
    · rw [goto_of_ne hgf] at hg
      have hlock' := hi.held g _ hg
      rw [hheld t (List.mem_cons_self ..)] at hlock'
      exact hgf (Option.some.inj hlock').symm
  | cons c rest =>
    have hmem : c ∈ (s.node t).children := by
      rw [hchildren]
      exact List.mem_cons_self ..
    have hnodup := hi.nodup t
    rw [hchildren] at hnodup
    obtain ⟨hnot, hrest⟩ := List.nodup_cons.mp hnodup
    obtain ⟨-, hparent, hlinked⟩ := hi.member t c hmem
    have hpos : 0 < s.strong t := by
      refine hi.anchored_pos (hi.anchored t (Or.inr ⟨f, ?_⟩))
      rw [hcall]
      exact List.mem_cons_self ..
    have hanchored := hi.anchored c (Or.inl ⟨t, hpos, hmem⟩)
    have hpopped : (s.relink t c rest false).Inv := by
      refine (hi.remove hparent hlinked (fun x hx => ?_) hrest).1
      rw [hchildren]
      refine ⟨List.mem_cons_of_mem _ hx, ?_⟩
      rintro rfl
      exact hnot hx
    have hnode := relink_node s t c rest false
    have hcall' : (s.relink t c rest false).calls f = .drain borrowed (t :: stack) := hcall
    have htrail' := hpopped.trail f
    rw [hcall'] at htrail'
    refine hpopped.gotoCancel (by rw [hcall']; rfl) rfl rfl (fun x hx => ?_) hdistinct ?_
      fun x hx => ?_
    · rw [(hnode x).2.2.1]
      exact hheld x hx
    · rw [hcall']
      refine ⟨?_, htrail'⟩
      rw [(hnode c).1]
      exact hparent
    · rcases List.mem_cons.mp hx with rfl | hx
      · exact Or.inr hanchored
      · exact Or.inl (by rw [hcall']; exact hx)

theorem advance (hi : s.Inv) (hs : s.advance f = some s') : s'.Inv := by
  unfold TokenForest.advance at hs
  cases hcall : s.calls f with
  | idle =>
    simp only [hcall] at hs
    exact absurd hs (by simp)
  | linkCheck p c =>
    have hborrowed : ∀ h ∈ [p, c], (s.handle h).state = .live := by
      have hlive := hi.borrowed f
      rw [hcall] at hlive
      exact hlive
    simp only [hcall] at hs
    split at hs
    · cases hs
      exact hi.gotoVisit (List.mem_cons_of_mem _ (List.mem_singleton_self c)) hborrowed
    · cases hs
      exact hi.gotoLinking (by rw [hcall]; rfl) rfl rfl rfl rfl nofun nofun
  | linkParent p c =>
    simp only [hcall] at hs
    cases hs
    exact hi.linkParent hcall
  | linkEnter p c =>
    simp only [hcall] at hs
    split at hs
    · rename_i hfree
      cases hs
      have hl : (s.calls f).linking = some (p, c) := by rw [hcall]; rfl
      have hlocked : (s.setLock (s.tokenOf p) (some f)).Inv :=
        hi.retag rfl rfl rfl id (Or.inr (hi.not_locks hfree))
      have hready := hlocked.ready f p c hl
      refine hlocked.gotoLinking hl rfl rfl rfl rfl (fun _ => ?_) fun q hq => ?_
      · refine hready.2.2.resolve_right fun hnone => ?_
        rw [show (s.setLock (s.tokenOf p) (some f)).calls f = _ from hcall] at hnone
        exact absurd hnone.1 (by simp [LinkCall.parented])
      · cases hq
        show ((s.setNode (s.tokenOf p) _).node (s.tokenOf p)).lock = some f
        rw [setNode_self]
    · exact absurd hs (by simp)
  | linkRecheck p c =>
    simp only [hcall] at hs
    cases hs
    exact hi.linkRecheck hcall
  | linkPush p c =>
    simp only [hcall] at hs
    cases hs
    exact hi.linkPush hcall
  | visit borrowed t stack =>
    simp only [hcall] at hs
    cases hs
    exact hi.visit hcall
  | enter borrowed t stack =>
    simp only [hcall] at hs
    split at hs
    · rename_i hfree
      cases hs
      exact hi.enter hcall hfree
    · exact absurd hs (by simp)
  | drain borrowed stack =>
    cases stack with
    | nil =>
      simp only [hcall] at hs
      cases hs
      exact hi.gotoIdle
    | cons t stack =>
      simp only [hcall] at hs
      cases hs
      exact hi.drain hcall

/-! ## New tokens and handles -/

/-- The handles that a call is going to look at are borrowed. -/
theorem borrowed_of_linking (hl : call.linking = some (p, c)) :
    p ∈ call.borrowed ∧ c ∈ call.borrowed := by
  cases call <;> simp_all [LinkCall.linking, LinkCall.borrowed]

theorem borrowed_of_pushing (hl : call.pushing = some p) : p ∈ call.borrowed := by
  cases call <;> simp_all [LinkCall.pushing, LinkCall.borrowed]

/-- A new handle on a token that is alive, or has no children. -/
theorem addHandle (hi : s.Inv) (ht : t < s.tokens)
    (hlast : ∀ h, (s.handle h).state.last = true → s.tokenOf h ≠ t)
    (hnew : 0 < s.strong t ∨ (s.node t).children = []) : (s.addHandle t).Inv := by
  have hself : (s.addHandle t).handle s.handles = { token := t, state := .live } :=
    Function.update_self ..
  have hother : ∀ i, i ≠ s.handles → (s.addHandle t).handle i = s.handle i :=
    fun i hne => Function.update_of_ne hne ..
  have htoken : ∀ i, i ≠ s.handles → (s.addHandle t).tokenOf i = s.tokenOf i := by
    intro i hne
    unfold tokenOf
    rw [hother i hne]
  have htokenSelf : (s.addHandle t).tokenOf s.handles = t := by
    unfold tokenOf
    rw [hself]
  have hborrowed : ∀ f, ∀ i ∈ (s.calls f).borrowed, i ≠ s.handles :=
    fun f i hb => Nat.ne_of_lt (hi.borrowed_lt hb).2
  have hunborn : ∀ i, (s.addHandle t).handles ≤ i → ((s.addHandle t).handle i).state = .gone := by
    intro i hle
    have hlt : s.handles < i := hle
    rw [hother i (by omega)]
    exact hi.unborn i (by omega)
  have hanchored : ∀ c, s.Anchored c → (s.addHandle t).Anchored c := by
    rintro c ⟨i, hic, hk⟩
    have hne : i ≠ s.handles := by
      rintro rfl
      rw [hi.unborn _ (Nat.le_refl _)] at hk
      exact absurd hk (by simp [HandleState.keeps])
    exact ⟨i, by rw [htoken i hne]; exact hic, by rw [hother i hne]; exact hk⟩
  refine ⟨hunborn, fun i hne => ?_, fun i hl j hne hj => ?_, fun i p hs => ?_, hi.member, hi.nodup,
    hi.unplaced, fun f i hb => ?_, fun f p c hl => ?_, fun f g p c p' c' hl hl' heq => ?_,
    fun f x hl => ?_, hi.distinct, fun f => ?_, fun c hx => hanchored c ?_⟩
  · by_cases hin : i = s.handles
    · rw [hin, htokenSelf]
      exact ht
    · rw [hother i hin] at hne
      rw [htoken i hin]
      exact hi.born i hne
  · have hin : i ≠ s.handles := by
      rintro rfl
      rw [hself] at hl
      exact absurd hl (by simp [HandleState.last])
    rw [hother i hin] at hl
    rw [htoken i hin] at hj
    by_cases hjn : j = s.handles
    · rw [hjn, htokenSelf] at hj
      exact absurd hj.symm (hlast i hl)
    · rw [htoken j hjn] at hj
      rw [hother j hjn]
      exact hi.sole i hl j hne hj
  · by_cases hin : i = s.handles
    · rw [hin, hself] at hs
      exact absurd hs (by simp)
    · rw [hother i hin] at hs
      rw [htoken i hin]
      exact hi.unlinking i p hs
  · rw [hother i (hborrowed f i hb)]
    exact hi.borrowed f i hb
  · obtain ⟨hp, hc⟩ := borrowed_of_linking hl
    rw [htoken p (hborrowed f p hp), htoken c (hborrowed f c hc)]
    exact hi.ready f p c hl
  · rw [htoken c (hborrowed f c (borrowed_of_linking hl).2),
      htoken c' (hborrowed g c' (borrowed_of_linking hl').2)] at heq
    exact hi.unique f g p c p' c' hl hl' heq
  · refine hi.held f x (hl.imp_right ?_)
    rintro ⟨q, hq, hx⟩
    rw [htoken q (hborrowed f q (borrowed_of_pushing hq))] at hx
    exact ⟨q, hq, hx⟩
  · exact (hi.trail f).mono (fun i hb => htoken i (hborrowed f i hb)) fun _ _ _ hp => hp
  · rcases hx with ⟨p, hpos, hc⟩ | hv
    · refine hi.anchored c (Or.inl ⟨p, ?_, hc⟩)
      obtain ⟨i, hrefers⟩ := (strong_pos_iff hunborn).mp hpos
      by_cases hin : i = s.handles
      · unfold Owns Upgraded at hrefers
        rw [hin, hself] at hrefers
        rcases hrefers with ⟨hp, -⟩ | hup | hup
        · obtain rfl : t = p := hp
          refine hnew.resolve_right fun hnil => ?_
          rw [show ((s.addHandle t).node t).children = _ from hnil] at hc
          exact absurd hc List.not_mem_nil
        · exact absurd hup (by simp)
        · exact absurd hup (by simp)
      · refine (strong_pos_iff hi.unborn).mpr ⟨i, ?_⟩
        unfold Owns Upgraded at hrefers ⊢
        rw [hother i hin] at hrefers
        exact hrefers
    · exact hi.anchored c (Or.inr hv)

theorem addToken (hi : s.Inv) (placed : Bool) : (s.addToken placed).Inv := by
  have hself : (s.addToken placed).node s.tokens = { LinkNode.new with placed := placed } :=
    setNode_self
  have hother : ∀ y, y ≠ s.tokens → (s.addToken placed).node y = s.node y :=
    fun y hy => setNode_of_ne hy
  have hlt : ∀ y < s.tokens, (s.addToken placed).node y = s.node y :=
    fun y hy => hother y (Nat.ne_of_lt hy)
  have hold : ∀ p c, c ∈ ((s.addToken placed).node p).children → c ∈ (s.node p).children := by
    intro p c hc
    by_cases hp : p = s.tokens
    · rw [hp, hself] at hc
      exact absurd hc List.not_mem_nil
    · rw [hother p hp] at hc
      exact hc
  have hborrowed : ∀ f, ∀ i ∈ (s.calls f).borrowed, s.tokenOf i < s.tokens :=
    fun f i hb => (hi.borrowed_lt hb).1
  refine ⟨hi.unborn, fun i hne => Nat.lt_succ_of_lt (hi.born i hne), hi.sole, fun i p hs => ?_,
    fun p c hc => ?_, fun p => ?_, fun y hy => ?_, hi.borrowed, fun f p c hl => ?_, hi.unique,
    fun f y hl => ?_, hi.distinct, fun f => ?_, fun c hx => ?_⟩
  · have hlt' := hi.born i (by rw [show (s.handle i).state = _ from hs]; simp)
    show ((s.addToken placed).node (s.tokenOf i)).parent = some p
    rw [hlt _ hlt']
    exact hi.unlinking i p hs
  · obtain ⟨hc', hp, hlinked⟩ := hi.member p c (hold p c hc)
    rw [hlt c hc']
    exact ⟨Nat.lt_succ_of_lt hc', hp, hlinked⟩
  · by_cases hp : p = s.tokens
    · rw [hp, hself]
      exact List.nodup_nil
    · rw [hother p hp]
      exact hi.nodup p
  · by_cases hyt : y = s.tokens
    · rw [hyt, hself]
      exact ⟨rfl, rfl⟩
    · rw [hother y hyt] at hy ⊢
      exact hi.unplaced y hy
  · have hc := hborrowed f c (borrowed_of_linking hl).2
    show ((s.addToken placed).node (s.tokenOf c)).placed = true ∧
      ((s.addToken placed).node (s.tokenOf c)).linked = false ∧
      (((s.addToken placed).node (s.tokenOf c)).parent = some (s.tokenOf p) ∨
        _ ∧ ((s.addToken placed).node (s.tokenOf c)).parent = none)
    rw [hlt _ hc]
    exact hi.ready f p c hl
  · have hy : y < s.tokens := by
      rcases hl with hstack | ⟨q, hq, rfl⟩
      · exact hi.visiting_lt (visiting_of_stack _ y hstack)
      · exact hborrowed f q (borrowed_of_pushing hq)
    rw [hlt y hy]
    exact hi.held f y hl
  · refine (hi.trail f).mono (fun _ _ => rfl) fun c hc p hp => ?_
    rw [hlt c (hi.visiting_lt hc)]
    exact hp
  · rcases hx with ⟨p, hpos, hc⟩ | hv
    · have hsame : (s.addToken placed).strong p = s.strong p := strong_congr rfl rfl p
      rw [hsame] at hpos
      exact hi.anchored c (Or.inl ⟨p, hpos, hold p c hc⟩)
    · exact hi.anchored c (Or.inr hv)

/-- A new token, with a handle. -/
theorem addNew (hi : s.Inv) (placed : Bool) : ((s.addToken placed).addHandle s.tokens).Inv := by
  refine (hi.addToken placed).addHandle (Nat.lt_succ_self _) (fun h hlast heq => ?_) (Or.inr ?_)
  · have hne : (s.handle h).state ≠ .gone := by
      intro hgone
      rw [show ((s.addToken placed).handle h).state = .gone from hgone] at hlast
      exact absurd hlast (by simp [HandleState.last])
    have := hi.born h hne
    rw [show s.tokenOf h = s.tokens from heq] at this
    omega
  · show ((s.addToken placed).node s.tokens).children = []
    rw [show (s.addToken placed).node s.tokens = { LinkNode.new with placed := placed } from
      setNode_self]
    rfl

theorem clone (hi : s.Inv) (hlive : (s.handle h).state = .live) : (s.clone h).Inv := by
  have hgone : (s.handle h).state ≠ .gone := by rw [hlive]; simp
  refine hi.addHandle (hi.born h hgone) (fun i hlast heq => ?_)
    (Or.inl ((strong_pos_iff hi.unborn).mpr ⟨h, Or.inl ⟨rfl, hgone⟩⟩))
  have hne : h ≠ i := by
    rintro rfl
    rw [hlive] at hlast
    exact absurd hlast (by simp [HandleState.last])
  rw [hi.sole i hlast h hne heq.symm] at hlive
  exact absurd hlive (by simp)

theorem child (hi : s.Inv) (hlive : (s.handle h).state = .live) : (s.child f h).Inv := by
  have hnew := hi.addNew true
  have hlt : h < s.handles := by
    by_contra hge
    rw [hi.unborn h (Nat.not_lt.mp hge)] at hlive
    exact absurd hlive (by simp)
  unfold TokenForest.child
  generalize hs₁ : (s.addToken true).addHandle s.tokens = s₁ at hnew
  have hhandle : s₁.handle s.handles = { token := s.tokens, state := .live } := by
    rw [← hs₁]
    exact Function.update_self ..
  have hother : ∀ i, i ≠ s.handles → s₁.handle i = s.handle i := by
    intro i hne
    rw [← hs₁]
    exact Function.update_of_ne hne ..
  have hnode : s₁.node s.tokens = { LinkNode.new with placed := true } := by
    rw [← hs₁]
    exact setNode_self
  have htoken : s₁.tokenOf s.handles = s.tokens := by
    unfold tokenOf
    rw [hhandle]
  refine hnew.goto (fun i hb => ?_) (fun p c hl => ?_) (fun p c hl g hg p' c' hl' => ?_) ?_
    List.nodup_nil trivial nofun
  · rcases List.mem_cons.mp hb with rfl | hb
    · rw [hother i (Nat.ne_of_lt hlt)]
      exact hlive
    · rw [List.mem_singleton.mp hb, hhandle]
  · cases hl
    rw [htoken, hnode]
    exact ⟨rfl, rfl, Or.inr ⟨rfl, rfl⟩⟩
  · cases hl
    have hcalls : s₁.calls = s.calls := by rw [← hs₁]; rfl
    rw [hcalls] at hl'
    have hb := hi.borrowed_lt (borrowed_of_linking hl').2
    rw [htoken]
    unfold tokenOf
    rw [hother c' (Nat.ne_of_lt hb.2)]
    exact Nat.ne_of_lt hb.1
  · rintro x (hx | ⟨q, hq, -⟩)
    · exact absurd hx List.not_mem_nil
    · exact absurd hq (by simp [LinkCall.pushing])

theorem linkChild (hi : s.Inv) (hp : (s.handle p).state = .live) (hc : (s.handle c).state = .live)
    (hnew : (s.node (s.tokenOf c)).placed = false) : (s.linkChild f p c).Inv := by
  have hplaced : (s.setNode (s.tokenOf c) { s.node (s.tokenOf c) with placed := true }).Inv :=
    hi.retag rfl rfl rfl nofun (Or.inl rfl)
  obtain ⟨hparent, hlinked⟩ := hi.unplaced _ hnew
  have hself : (s.setNode (s.tokenOf c) { s.node (s.tokenOf c) with placed := true }).node
      (s.tokenOf c) = { s.node (s.tokenOf c) with placed := true } := setNode_self
  refine hplaced.goto (fun i hb => ?_) (fun p' c' hl => ?_) (fun p' c' hl g hg q x hx => ?_) ?_
    List.nodup_nil trivial nofun
  · rcases List.mem_cons.mp hb with rfl | hb
    · exact hp
    · rw [List.mem_singleton.mp hb]
      exact hc
  · cases hl
    show ((s.setNode (s.tokenOf c) { s.node (s.tokenOf c) with placed := true }).node
      (s.tokenOf c)).placed = true ∧ ((s.setNode (s.tokenOf c) { s.node (s.tokenOf c) with
      placed := true }).node (s.tokenOf c)).linked = false ∧ (_ ∨ _ ∧ ((s.setNode (s.tokenOf c)
      { s.node (s.tokenOf c) with placed := true }).node (s.tokenOf c)).parent = none)
    rw [hself]
    exact ⟨rfl, hlinked, Or.inr ⟨rfl, hparent⟩⟩
  · cases hl
    intro heq
    have htrue := (hi.ready g q x hx).1
    rw [show s.tokenOf x = s.tokenOf c from heq, hnew] at htrue
    exact absurd htrue (by simp)
  · rintro x (hx | ⟨q, hq, -⟩)
    · exact absurd hx List.not_mem_nil
    · exact absurd hq (by simp [LinkCall.pushing])

end Inv

end TokenForest

end Veloq.Runtime
