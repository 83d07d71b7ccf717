import Mathlib.Data.List.Nodup
import Mathlib.Data.List.Range
import Veloq.Runtime.Idle
set_option autoImplicit false

/-!
# Runtime: runs of the idle protocol

While no worker pushes itself over an entry of its own, every group's stack is a finite
list of distinct workers of the group.
-/

namespace Veloq.Runtime.Idle

open Foundation

/-! ## Words -/

namespace AtomicBitset

variable (bits : AtomicBitset) (i j : Nat)

theorem isSet_eq : bits.isSet i = (bits (i / 64)).getLsbD (i % 64) := by
  unfold isSet
  rw [BitVec.and_twoPow]
  have hlt : i % 64 < 64 := Nat.mod_lt i (by decide)
  have hne : BitVec.twoPow 64 (i % 64) ≠ 0#64 := by
    intro h
    have hbit := congrArg (fun x : BitVec 64 => x.getLsbD (i % 64)) h
    simp [hlt] at hbit
  cases (bits (i / 64)).getLsbD (i % 64) <;> simp [hne]

theorem trySet_fst : (bits.trySet i).1 = !bits.isSet i := by
  simp only [trySet, isSet, bne, Bool.not_not]

/-- Two numbers are the same bit of the same word only when they are equal. -/
theorem index_ext (hword : i / 64 = j / 64) (hbit : i % 64 = j % 64) : i = j := by
  omega

theorem isSet_trySet : (bits.trySet i).2.isSet j = (decide (j = i) || bits.isSet j) := by
  rw [isSet_eq, isSet_eq]
  have hlt : i % 64 < 64 := Nat.mod_lt i (by decide)
  have hlt' : j % 64 < 64 := Nat.mod_lt j (by decide)
  simp only [trySet]
  by_cases hword : j / 64 = i / 64
  · rw [hword, Function.update_self, BitVec.getLsbD_or, BitVec.getLsbD_twoPow]
    by_cases hbit : i % 64 = j % 64
    · simp [index_ext j i hword hbit.symm, hlt]
    · have hne : j ≠ i := by omega
      simp [hbit, hne]
  · have hne : j ≠ i := by rintro rfl; exact hword rfl
    rw [Function.update_of_ne hword]
    simp [hne]

theorem isSet_clear : (bits.clear i).isSet j = (!decide (j = i) && bits.isSet j) := by
  rw [isSet_eq, isSet_eq]
  have hlt : i % 64 < 64 := Nat.mod_lt i (by decide)
  have hlt' : j % 64 < 64 := Nat.mod_lt j (by decide)
  simp only [clear]
  by_cases hword : j / 64 = i / 64
  · rw [hword, Function.update_self, BitVec.getLsbD_and, BitVec.getLsbD_not,
      BitVec.getLsbD_twoPow]
    by_cases hbit : i % 64 = j % 64
    · simp [index_ext j i hword hbit.symm]
    · have hne : j ≠ i := by omega
      simp [hbit, hne, hlt']
  · have hne : j ≠ i := by rintro rfl; exact hword rfl
    rw [Function.update_of_ne hword]
    simp [hne]

end AtomicBitset

theorem packHead_eq {generation id : Nat} (hid : id < 2 ^ 32) :
    packHead generation id = (generation % 2 ^ 32) * 2 ^ 32 + id := by
  have hword : asU64 (generation <<< 32) = (generation % 2 ^ 32) <<< 32 := by
    unfold asU64
    rw [Nat.shiftLeft_eq, Nat.shiftLeft_eq]
    omega
  unfold packHead
  rw [hword, ← Nat.shiftLeft_add_eq_or_of_lt hid, Nat.shiftLeft_eq]

theorem headId_packHead {generation id : Nat} (hid : id < 2 ^ 32) :
    headId (packHead generation id) = id := by
  unfold headId
  rw [packHead_eq hid, show (0xFFFFFFFF : Nat) = 2 ^ 32 - 1 from rfl,
    Nat.and_two_pow_sub_one_eq_mod]
  omega

theorem packHead_ne_emptyHead {generation id : Nat} (hid : id < 2 ^ 32 - 1) :
    packHead generation id ≠ emptyHead := by
  unfold emptyHead
  rw [packHead_eq (by omega)]
  omega

theorem headId_lt (head : Nat) : headId head < 2 ^ 32 := by
  unfold headId
  rw [show (0xFFFFFFFF : Nat) = 2 ^ 32 - 1 from rfl, Nat.and_two_pow_sub_one_eq_mod]
  exact Nat.mod_lt _ (by decide)

/-! ## What the operations do to a stack -/

namespace IdleState

variable {s s' : IdleState} {g w : Nat}

theorem link_congr (h : s'.nextIdle = s.nextIdle) : s'.link = s.link := by
  funext v
  unfold link
  rw [h]

/-- After a push the pushed worker is on top. -/
theorem top_push (hw : w < 2 ^ 32 - 1) : (s.push g w).top g = some w := by
  simp only [top, push, pushHead, Function.update_self]
  rw [if_neg (packHead_ne_emptyHead hw), headId_packHead (by omega)]

theorem top_push_of_ne {h : Nat} (hne : h ≠ g) : (s.push g w).top h = s.top h := by
  simp only [top, push, Function.update_of_ne hne]

/-- The pushed worker leads to the old top. -/
theorem link_push : (s.push g w).link w = some (s.top g) := by
  unfold link top push
  simp only [Function.update_self]
  split
  · rw [if_pos rfl]
  · have hlt := headId_lt (s.head g)
    rw [if_neg (by unfold endId; omega)]

theorem link_push_of_ne {v : Nat} (hne : v ≠ w) : (s.push g w).link v = s.link v := by
  unfold link push
  simp only [Function.update_of_ne hne]

/-- Taking the top off leaves what it leads to on top. -/
theorem top_popHead {nextId : Nat} {rest : Option Nat}
    (hhead : s'.head g = popHead (s.head g) nextId)
    (hrest : (if nextId = endId then none else some nextId) = rest)
    (hlt : ∀ v ∈ rest, v < 2 ^ 32 - 1) : s'.top g = rest := by
  unfold top
  rw [hhead]
  unfold popHead
  by_cases hend : nextId = endId
  · rw [if_pos hend, if_pos rfl]
    rw [if_pos hend] at hrest
    exact hrest
  · rw [if_neg hend] at hrest ⊢
    have hid : nextId < 2 ^ 32 - 1 := hlt nextId (by rw [← hrest]; exact rfl)
    rw [if_neg (packHead_ne_emptyHead hid), headId_packHead (by omega)]
    exact hrest

/-- An empty stack is left as it is. -/
theorem pop_of_top_none (h : s.top g = none) : s.pop g = (none, s) := by
  unfold top at h
  split at h
  · rename_i hempty
    unfold pop
    rw [if_pos hempty]
  · exact absurd h (by simp)

/-- A non-empty stack loses its top. -/
theorem pop_of_top_some (h : s.top g = some w) :
    s.pop g = (some w, { s with
      head := Function.update s.head g (popHead (s.head g) (s.nextIdle w))
      found := Function.update s.found w true }) := by
  unfold top at h
  split at h
  · exact absurd h (by simp)
  · rename_i hempty
    obtain rfl := Option.some.inj h
    unfold pop
    rw [if_neg hempty]

/-- A worker that is not on top leaves the stack as it is. -/
theorem tryPopSelf_of_top_ne (h : s.top g ≠ some w) : s.tryPopSelf g w = (false, s) := by
  unfold top at h
  unfold tryPopSelf
  by_cases hempty : s.head g = emptyHead
  · rw [if_pos hempty]
  · rw [if_neg hempty] at h ⊢
    rw [if_pos fun hid => h (by rw [hid])]

/-- A worker on top takes itself off. -/
theorem tryPopSelf_of_top (h : s.top g = some w) :
    s.tryPopSelf g w = (true, { s with
      head := Function.update s.head g (popHead (s.head g) (s.nextIdle w)) }) := by
  unfold top at h
  unfold tryPopSelf
  by_cases hempty : s.head g = emptyHead
  · rw [if_pos hempty] at h
    exact absurd h (by simp)
  · rw [if_neg hempty] at h ⊢
    rw [if_neg fun hne => hne (Option.some.inj h)]

end IdleState

/-! ## The invariant -/

/-- Every group's stack is the list `stackOf` gives it, of distinct workers of the group. -/
structure Stacked (topo : Topology) (s : IdleState) (stackOf : Nat → List Nat) : Prop where
  chain : ∀ g, Chain s.link (s.top g) (stackOf g)
  nodup : ∀ g, (stackOf g).Nodup
  member : ∀ g, ∀ w ∈ stackOf g, w < topo.workerCount ∧ topo.workerToGroup w = g

namespace Stacked

variable {topo : Topology} {s t : IdleState} {stackOf : Nat → List Nat} {g w : Nat}

theorem congr (h : Stacked topo s stackOf) (hhead : t.head = s.head)
    (hnext : t.nextIdle = s.nextIdle) : Stacked topo t stackOf where
  chain g := by
    rw [IdleState.link_congr hnext]
    unfold IdleState.top
    rw [hhead]
    exact h.chain g
  nodup := h.nodup
  member := h.member

/-- A stack has no more entries than there are workers. -/
theorem length_le (h : Stacked topo s stackOf) (g : Nat) : (stackOf g).length ≤ topo.workerCount := by
  have hsub : stackOf g ⊆ List.range topo.workerCount := fun w hw =>
    List.mem_range.mpr (h.member g w hw).1
  have hle := ((h.nodup g).subperm hsub).length_le
  rwa [List.length_range] at hle

theorem entries_eq (h : Stacked topo s stackOf) (g : Nat) : s.entries topo g = stackOf g :=
  (h.chain g).follow_eq (h.length_le g)

/-- Taking the top off shortens one stack. -/
theorem pop (h : Stacked topo s stackOf) (hn : topo.workerCount < 2 ^ 32) (htop : s.top g = some w)
    (hhead : t.head = Function.update s.head g (popHead (s.head g) (s.nextIdle w)))
    (hnext : t.nextIdle = s.nextIdle) :
    ∃ tail, stackOf g = w :: tail ∧ Stacked topo t (Function.update stackOf g tail) := by
  have hchain := h.chain g
  rw [htop] at hchain
  obtain ⟨rest, tail, heq, hlink, htail⟩ := hchain.exists_of_some
  have hsub : ∀ v ∈ tail, v ∈ stackOf g := fun v hv => by
    rw [heq]
    exact List.mem_cons_of_mem w hv
  have hrest : t.top g = rest := by
    have hhead' : t.head g = popHead (s.head g) (s.nextIdle w) := by
      rw [hhead]
      exact Function.update_self ..
    refine IdleState.top_popHead hhead' (Option.some.inj hlink) ?_
    intro v hv
    rw [Option.mem_def] at hv
    rw [hv] at htail
    obtain ⟨_, tail', rfl, _⟩ := htail.exists_of_some
    have hlt := (h.member g v (hsub v (List.mem_cons_self ..))).1
    omega
  refine ⟨tail, heq, ⟨fun k => ?_, fun k => ?_, fun k => ?_⟩⟩
  · rw [IdleState.link_congr hnext]
    by_cases hk : k = g
    · subst hk
      rw [Function.update_self, hrest]
      exact htail
    · rw [Function.update_of_ne hk]
      have hsame : t.top k = s.top k := by
        unfold IdleState.top
        rw [hhead, Function.update_of_ne hk]
      rw [hsame]
      exact h.chain k
  · by_cases hk : k = g
    · subst hk
      rw [Function.update_self]
      have hnodup := h.nodup k
      rw [heq] at hnodup
      exact hnodup.of_cons
    · rw [Function.update_of_ne hk]
      exact h.nodup k
  · by_cases hk : k = g
    · subst hk
      rw [Function.update_self]
      exact fun v hv => h.member k v (hsub v hv)
    · rw [Function.update_of_ne hk]
      exact h.member k

/-- A worker that is on no stack goes on top of its own. -/
theorem push (h : Stacked topo s stackOf) (hn : topo.workerCount < 2 ^ 32)
    (hw : w < topo.workerCount) (hout : w ∉ stackOf (topo.workerToGroup w)) :
    Stacked topo (s.push (topo.workerToGroup w) w)
      (Function.update stackOf (topo.workerToGroup w) (w :: stackOf (topo.workerToGroup w))) := by
  generalize hg : topo.workerToGroup w = g at hout
  have hother : ∀ k, w ∉ stackOf k := by
    intro k hk
    have hgroup := (h.member k w hk).2
    rw [hg] at hgroup
    subst hgroup
    exact hout hk
  have hlinks : ∀ k, ∀ v ∈ stackOf k, (s.push g w).link v = s.link v := fun k v hv =>
    IdleState.link_push_of_ne (by rintro rfl; exact hother k hv)
  refine ⟨fun k => ?_, fun k => ?_, fun k => ?_⟩
  · by_cases hk : k = g
    · subst hk
      rw [Function.update_self, IdleState.top_push (by omega)]
      exact Chain.cons IdleState.link_push ((h.chain k).congr (hlinks k))
    · rw [Function.update_of_ne hk, IdleState.top_push_of_ne hk]
      exact (h.chain k).congr (hlinks k)
  · by_cases hk : k = g
    · subst hk
      rw [Function.update_self]
      exact List.nodup_cons.mpr ⟨hout, h.nodup k⟩
    · rw [Function.update_of_ne hk]
      exact h.nodup k
  · by_cases hk : k = g
    · subst hk
      rw [Function.update_self]
      intro v hv
      rcases List.mem_cons.mp hv with rfl | hv
      · exact ⟨hw, hg⟩
      · exact h.member k v hv
    · rw [Function.update_of_ne hk]
      exact h.member k

end Stacked

/-- `pop_idle` returns the first entry whose bit is set, and leaves the mask alone. -/
theorem popIdle_of_stacked {topo : Topology} (hn : topo.workerCount < 2 ^ 32) {g : Nat}
    {l : List Nat} {s : IdleState} {stackOf : Nat → List Nat} (h : Stacked topo s stackOf)
    (hl : stackOf g = l) :
    ∃ s', s.popIdle (l.length + 1) g = some (l.find? s.mask.isSet, s') ∧ s'.mask = s.mask := by
  induction l generalizing s stackOf with
  | nil =>
    have hchain := h.chain g
    rw [hl] at hchain
    have htop : s.top g = none := by
      cases htop : s.top g with
      | none => rfl
      | some w =>
        rw [htop] at hchain
        exact absurd hchain id
    exact ⟨s, by simp only [IdleState.popIdle, IdleState.pop_of_top_none htop]; rfl, rfl⟩
  | cons w tail ih =>
    have hchain := h.chain g
    rw [hl] at hchain
    have htop : s.top g = some w := by
      cases htop : s.top g with
      | none =>
        rw [htop] at hchain
        exact absurd hchain id
      | some v =>
        rw [htop] at hchain
        obtain ⟨rfl, _⟩ := hchain
        rfl
    have hpop := IdleState.pop_of_top_some htop
    generalize hs' : ({ s with
      head := Function.update s.head g (popHead (s.head g) (s.nextIdle w))
      found := Function.update s.found w true } : IdleState) = s' at hpop
    have hmask : s'.mask = s.mask := by rw [← hs']
    obtain ⟨tail', heq, hstacked⟩ :=
      h.pop (t := s') hn htop (by rw [← hs']) (by rw [← hs'])
    have htail : Function.update stackOf g tail' g = tail := by
      rw [hl] at heq
      rw [Function.update_self]
      exact (List.cons.inj heq).2.symm
    unfold IdleState.popIdle
    rw [hpop]
    simp only [hmask]
    by_cases hset : s.mask.isSet w = true
    · rw [if_pos hset, List.find?_cons_of_pos hset]
      exact ⟨s', rfl, hmask⟩
    · rw [if_neg hset, List.find?_cons_of_neg hset]
      obtain ⟨s'', hrun, hmask'⟩ := ih hstacked htail
      rw [hmask] at hrun
      exact ⟨s'', hrun, hmask'.trans hmask⟩

/-- What holds between any two steps. -/
structure Inv (topo : Topology) (s : IdleState) : Prop where
  worker : ∀ w, s.stage w ≠ .awake → w < topo.workerCount
  leaving : ∀ w, s.stage w = .leaving → s.mask.isSet w = false
  stacked : ∃ stackOf, Stacked topo s stackOf ∧
    ∀ w, s.mask.isSet w = true → s.stage w ≠ .entering →
      w ∈ stackOf (topo.workerToGroup w) ∨ s.found w = true

theorem Inv.init (topo : Topology) : Inv topo IdleState.init where
  worker _ h := absurd rfl h
  leaving _ h := by cases h
  stacked := by
    refine ⟨fun _ => [], ⟨fun g => ?_, fun _ => List.nodup_nil, fun _ _ hw => ?_⟩, ?_⟩
    · exact Chain.nil
    · exact absurd hw List.not_mem_nil
    · intro w hw
      rw [AtomicBitset.isSet_eq] at hw
      simp [IdleState.init] at hw

/-! ## The steps keep the invariant -/

section Steps

variable {topo : Topology} {s : IdleState} {w : Nat}

theorem Inv.trySet (h : Inv topo s) (hw : w < topo.workerCount) (hstage : s.stage w = .awake) :
    Inv topo { s with
      mask := (s.mask.trySet w).2
      stage := Function.update s.stage w (if (s.mask.trySet w).1 then .entering else .waiting)
      found := Function.update s.found w (!(s.mask.trySet w).1 && s.found w) } := by
  obtain ⟨stackOf, hstacked, hcovered⟩ := h.stacked
  refine ⟨fun v hv => ?_, fun v hv => ?_, stackOf, hstacked.congr rfl rfl, fun v hv hstage' => ?_⟩
  · by_cases hvw : v = w
    · rw [hvw]
      exact hw
    · simp only [Function.update_of_ne hvw] at hv
      exact h.worker v hv
  · by_cases hvw : v = w
    · subst hvw
      simp only [Function.update_self] at hv
      split at hv <;> cases hv
    · simp only [Function.update_of_ne hvw] at hv
      simp only [AtomicBitset.isSet_trySet, hvw, decide_false, Bool.false_or]
      exact h.leaving v hv
  · by_cases hvw : v = w
    · -- a worker that is not left entering had its bit set before
      subst hvw
      simp only [Function.update_self, AtomicBitset.trySet_fst, Bool.not_not] at hstage' ⊢
      have hset : s.mask.isSet v = true := by
        cases hset : s.mask.isSet v with
        | true => rfl
        | false =>
          rw [hset] at hstage'
          exact absurd rfl hstage'
      rw [hset, Bool.true_and]
      exact hcovered v hset (by rw [hstage]; nofun)
    · simp only [Function.update_of_ne hvw] at hstage' ⊢
      simp only [AtomicBitset.isSet_trySet, hvw, decide_false, Bool.false_or] at hv
      exact hcovered v hv hstage'

theorem Inv.push (h : Inv topo s) (hn : topo.workerCount < 2 ^ 32)
    (hstage : s.stage w = .entering) (hout : w ∉ s.entries topo (topo.workerToGroup w)) :
    Inv topo { s.push (topo.workerToGroup w) w with
      stage := Function.update s.stage w .waiting } := by
  obtain ⟨stackOf, hstacked, hcovered⟩ := h.stacked
  have hw : w < topo.workerCount := h.worker w (by rw [hstage]; nofun)
  rw [hstacked.entries_eq] at hout
  refine ⟨fun v hv => ?_, fun v hv => ?_, _, (hstacked.push hn hw hout).congr rfl rfl,
    fun v hv hstage' => ?_⟩
  · by_cases hvw : v = w
    · rw [hvw]
      exact hw
    · simp only [Function.update_of_ne hvw] at hv
      exact h.worker v hv
  · by_cases hvw : v = w
    · subst hvw
      simp only [Function.update_self] at hv
      cases hv
    · simp only [Function.update_of_ne hvw] at hv
      exact h.leaving v hv
  · by_cases hvw : v = w
    · subst hvw
      rw [Function.update_self]
      exact Or.inl (List.mem_cons_self ..)
    · simp only [Function.update_of_ne hvw] at hstage'
      rcases hcovered v hv hstage' with hin | hfound
      · refine Or.inl ?_
        by_cases hg : topo.workerToGroup v = topo.workerToGroup w
        · rw [hg, Function.update_self]
          rw [hg] at hin
          exact List.mem_cons_of_mem w hin
        · rw [Function.update_of_ne hg]
          exact hin
      · exact Or.inr hfound

theorem Inv.parkFails (h : Inv topo s) (hstage : s.stage w = .waiting) :
    Inv topo { s with stage := Function.update s.stage w .awake } := by
  obtain ⟨stackOf, hstacked, hcovered⟩ := h.stacked
  refine ⟨fun v hv => ?_, fun v hv => ?_, stackOf, hstacked.congr rfl rfl, fun v hv hstage' => ?_⟩
  · by_cases hvw : v = w
    · subst hvw
      exact h.worker v (by rw [hstage]; nofun)
    · simp only [Function.update_of_ne hvw] at hv
      exact h.worker v hv
  · by_cases hvw : v = w
    · subst hvw
      simp only [Function.update_self] at hv
      cases hv
    · simp only [Function.update_of_ne hvw] at hv
      exact h.leaving v hv
  · by_cases hvw : v = w
    · subst hvw
      exact hcovered v hv (by rw [hstage]; nofun)
    · simp only [Function.update_of_ne hvw] at hstage'
      exact hcovered v hv hstage'

theorem Inv.clear (h : Inv topo s) (hstage : s.stage w = .waiting) :
    Inv topo { s with
      mask := s.mask.clear w
      stage := Function.update s.stage w .leaving } := by
  obtain ⟨stackOf, hstacked, hcovered⟩ := h.stacked
  refine ⟨fun v hv => ?_, fun v hv => ?_, stackOf, hstacked.congr rfl rfl, fun v hv hstage' => ?_⟩
  · by_cases hvw : v = w
    · subst hvw
      exact h.worker v (by rw [hstage]; nofun)
    · simp only [Function.update_of_ne hvw] at hv
      exact h.worker v hv
  · rw [AtomicBitset.isSet_clear]
    by_cases hvw : v = w
    · simp [hvw]
    · simp only [Function.update_of_ne hvw] at hv
      rw [h.leaving v hv, Bool.and_false]
  · rw [AtomicBitset.isSet_clear, Bool.and_eq_true] at hv
    have hvw : v ≠ w := by simpa using hv.1
    simp only [Function.update_of_ne hvw] at hstage'
    exact hcovered v hv.2 hstage'

/-- Only `w` is missing from the stacks once its entry has been taken off. -/
theorem mem_of_pop {stackOf : Nat → List Nat} {g v : Nat} {tail : List Nat}
    (heq : stackOf g = w :: tail) (hvw : v ≠ w) {k : Nat} (hin : v ∈ stackOf k) :
    v ∈ Function.update stackOf g tail k := by
  by_cases hk : k = g
  · subst hk
    rw [Function.update_self]
    rw [heq] at hin
    exact (List.mem_cons.mp hin).resolve_left hvw
  · rw [Function.update_of_ne hk]
    exact hin

theorem Inv.tryPopSelf (h : Inv topo s) (hn : topo.workerCount < 2 ^ 32)
    (hstage : s.stage w = .leaving) :
    Inv topo { (s.tryPopSelf (topo.workerToGroup w) w).2 with
      stage := Function.update s.stage w .awake } := by
  obtain ⟨stackOf, hstacked, hcovered⟩ := h.stacked
  have hworker : ∀ v, Function.update s.stage w .awake v ≠ .awake → v < topo.workerCount := by
    intro v hv
    by_cases hvw : v = w
    · subst hvw
      exact h.worker v (by rw [hstage]; nofun)
    · rw [Function.update_of_ne hvw] at hv
      exact h.worker v hv
  have hleaving : ∀ v, Function.update s.stage w .awake v = .leaving →
      s.mask.isSet v = false := by
    intro v hv
    by_cases hvw : v = w
    · subst hvw
      rw [Function.update_self] at hv
      cases hv
    · rw [Function.update_of_ne hvw] at hv
      exact h.leaving v hv
  -- the bit of `w` is clear, so what `w` is on does not matter
  have hother : ∀ v, s.mask.isSet v = true → v ≠ w := by
    rintro v hv rfl
    rw [h.leaving v hstage] at hv
    cases hv
  have hstage' : ∀ v, s.mask.isSet v = true → Function.update s.stage w .awake v ≠ .entering →
      s.stage v ≠ .entering := by
    intro v hv hne
    rw [Function.update_of_ne (hother v hv)] at hne
    exact hne
  by_cases htop : s.top (topo.workerToGroup w) = some w
  · rw [IdleState.tryPopSelf_of_top htop]
    obtain ⟨tail, heq, hstacked'⟩ := hstacked.pop (t := { s with
      head := Function.update s.head (topo.workerToGroup w)
        (popHead (s.head (topo.workerToGroup w)) (s.nextIdle w)) }) hn htop rfl rfl
    refine ⟨hworker, hleaving, _, hstacked'.congr rfl rfl, fun v hv hne => ?_⟩
    exact (hcovered v hv (hstage' v hv hne)).imp (mem_of_pop heq (hother v hv)) id
  · rw [IdleState.tryPopSelf_of_top_ne htop]
    exact ⟨hworker, hleaving, stackOf, hstacked.congr rfl rfl, fun v hv hne =>
      hcovered v hv (hstage' v hv hne)⟩

theorem Inv.pop (h : Inv topo s) (hn : topo.workerCount < 2 ^ 32) (g : Nat) :
    Inv topo (s.pop g).2 := by
  obtain ⟨stackOf, hstacked, hcovered⟩ := h.stacked
  cases htop : s.top g with
  | none =>
    rw [IdleState.pop_of_top_none htop]
    exact h
  | some w =>
    rw [IdleState.pop_of_top_some htop]
    obtain ⟨tail, heq, hstacked'⟩ := hstacked.pop (t := { s with
      head := Function.update s.head g (popHead (s.head g) (s.nextIdle w))
      found := Function.update s.found w true }) hn htop rfl rfl
    refine ⟨h.worker, h.leaving, _, hstacked', fun v hv hstage => ?_⟩
    by_cases hvw : v = w
    · subst hvw
      exact Or.inr (Function.update_self ..)
    · simp only [Function.update_of_ne hvw]
      exact (hcovered v hv hstage).imp (mem_of_pop heq hvw) id

theorem Inv.step (hn : topo.workerCount < 2 ^ 32) {e : IdleEvent} {s' : IdleState}
    (h : Inv topo s) (hcareful : Careful topo s e) (hstep : IdleStep topo s e s') :
    Inv topo s' := by
  unfold IdleStep at hstep
  cases e with
  | trySet w =>
    simp only [idleStep] at hstep
    split at hstep
    · rename_i hguard
      obtain rfl := Option.some.inj hstep
      exact h.trySet hguard.1 hguard.2
    · cases hstep
  | push w =>
    simp only [idleStep] at hstep
    split at hstep
    · rename_i hguard
      obtain rfl := Option.some.inj hstep
      exact h.push hn hguard hcareful
    · cases hstep
  | parkFails w =>
    simp only [idleStep] at hstep
    split at hstep
    · rename_i hguard
      obtain rfl := Option.some.inj hstep
      exact h.parkFails hguard
    · cases hstep
  | clear w =>
    simp only [idleStep] at hstep
    split at hstep
    · rename_i hguard
      obtain rfl := Option.some.inj hstep
      exact h.clear hguard
    · cases hstep
  | tryPopSelf w =>
    simp only [idleStep] at hstep
    split at hstep
    · rename_i hguard
      obtain rfl := Option.some.inj hstep
      exact h.tryPopSelf hn hguard
    · cases hstep
  | pop g =>
    obtain rfl := Option.some.inj hstep
    exact h.pop hn g

end Steps

/-! ## Runs -/

/-- The states that are reached by steps all allowed where they are taken. -/
abbrev Reached (topo : Topology) (allowed : IdleState → IdleEvent → Prop) : IdleState → Prop :=
  Run (IdleStep topo) allowed (· = IdleState.init)

theorem Inv.of_run {topo : Topology} (hn : topo.workerCount < 2 ^ 32) {s : IdleState}
    (h : Reached topo (Careful topo) s) : Inv topo s := by
  refine Run.invariant ?_ (fun s e s' => Inv.step hn) h
  rintro s rfl
  exact Inv.init topo

/-- The stacks are finite and free of duplicates, `pop_idle` returns, and a worker whose bit
is set is not overlooked: waking its group unparks a worker of the group whose bit is set,
and once it has pushed itself it is on the stack or a wake has popped it. -/
structure IdleSound (topo : Topology) (s : IdleState) : Prop where
  list : ∀ g, ∃ l, Chain s.link (s.top g) l ∧ l.Nodup
  returns : ∀ g, ∃ fuel, (s.popIdle fuel g).isSome = true
  woken : ∀ w < topo.workerCount, s.mask.isSet w = true →
    ∃ fuel v s', s.wakeIdleInGroup topo fuel (topo.workerToGroup w) = some (some v, s') ∧
      s.mask.isSet v = true ∧ v ∈ topo.workerIds (topo.workerToGroup w)
  listed : ∀ w < topo.workerCount, s.mask.isSet w = true → s.stage w ≠ .entering →
    s.found w = true ∨ ∃ l, Chain s.link (s.top (topo.workerToGroup w)) l ∧ w ∈ l

theorem Inv.wakes {topo : Topology} {s : IdleState} (h : Inv topo s)
    (hn : topo.workerCount < 2 ^ 32) {w : Nat} (hw : w < topo.workerCount)
    (hset : s.mask.isSet w = true) :
    ∃ fuel v s', s.wakeIdleInGroup topo fuel (topo.workerToGroup w) = some (some v, s') ∧
      s.mask.isSet v = true ∧ v ∈ topo.workerIds (topo.workerToGroup w) := by
  obtain ⟨stackOf, hstacked, _⟩ := h.stacked
  have hmem : w ∈ topo.workerIds (topo.workerToGroup w) := by
    simp [Topology.workerIds, hw]
  generalize topo.workerToGroup w = g at hmem
  obtain ⟨s', hpop, hmask⟩ := popIdle_of_stacked hn hstacked (rfl : stackOf g = _)
  refine ⟨(stackOf g).length + 1, ?_⟩
  unfold IdleState.wakeIdleInGroup
  rw [hpop]
  cases hfind : (stackOf g).find? s.mask.isSet with
  | some v =>
    have hin := hstacked.member g v (List.mem_of_find?_eq_some hfind)
    refine ⟨v, s', rfl, List.find?_some hfind, ?_⟩
    simp [Topology.workerIds, hin.1, hin.2]
  | none =>
    -- no entry is idle: the scan over the group finds one
    simp only [hmask]
    cases hscan : (topo.workerIds g).find? s.mask.isSet with
    | some v =>
      exact ⟨v, s', rfl, List.find?_some hscan, List.mem_of_find?_eq_some hscan⟩
    | none => exact absurd hset (List.find?_eq_none.mp hscan w hmem)

/-- While no worker pushes itself over an entry of its own, the idle stacks are sound. -/
theorem idle_stack_sound (topo : Topology) (hn : topo.workerCount < 2 ^ 32) (s : IdleState)
    (h : Reached topo (Careful topo) s) : IdleSound topo s := by
  have hinv := Inv.of_run hn h
  obtain ⟨stackOf, hstacked, hcovered⟩ := hinv.stacked
  refine ⟨fun g => ⟨_, hstacked.chain g, hstacked.nodup g⟩, fun g => ?_,
    fun w hw hset => hinv.wakes hn hw hset, fun w _ hset hstage => ?_⟩
  · obtain ⟨s', hpop, _⟩ := popIdle_of_stacked hn hstacked (rfl : stackOf g = _)
    exact ⟨_, by rw [hpop]; rfl⟩
  · rcases hcovered w hset hstage with hin | hfound
    · exact Or.inr ⟨_, hstacked.chain _, hin⟩
    · exact Or.inl hfound

/-- Two workers on one node. -/
def pair : Topology := ⟨2, 1⟩

/-- Worker 0 leaves below worker 1; two wakes empty the stack before it comes back. -/
def cleared : List IdleEvent :=
  [.trySet 0, .push 0, .trySet 1, .push 1, .clear 0, .tryPopSelf 0, .pop 0, .pop 0, .trySet 0,
    .push 0]

def clearedState : IdleState :=
  (replay (idleStep pair) (fun s e => decide (Careful pair s e)) .init cleared).get
    (by decide +kernel)

/-- Worker 1 is idle and off the stack, worker 0 is back on it. -/
theorem idle_stack_sound_cleared :
    clearedState.entries pair 0 = [0] ∧ clearedState.mask.isSet 1 = true ∧
      IdleSound pair clearedState := by
  have hreplay : replay (idleStep pair) (fun s e => decide (Careful pair s e)) .init cleared =
      some clearedState := (Option.some_get _).symm
  have hstart : Reached pair (Careful pair) .init := .start rfl
  have hrun : Reached pair (Careful pair) clearedState :=
    hstart.replay (fun _ _ _ h => h) (fun _ _ h => of_decide_eq_true h) hreplay
  exact ⟨by decide +kernel, by decide +kernel,
    idle_stack_sound pair (by decide) clearedState hrun⟩

/-- Worker 0 leaves below worker 1 and comes back at once. -/
def reentered : List IdleEvent :=
  [.trySet 0, .push 0, .trySet 1, .push 1, .clear 0, .tryPopSelf 0, .trySet 0, .push 0]

def reenteredState : IdleState :=
  (replay (idleStep pair) (fun _ _ => true) .init reentered).get (by decide +kernel)

/-- The two entries lead to each other. -/
theorem idle_stack_cycle :
    ¬ ∀ (topo : Topology) (s : IdleState), topo.workerCount < 2 ^ 32 → Reached topo Always s →
      IdleSound topo s := by
  intro hsound
  have hreplay : replay (idleStep pair) (fun _ _ => true) .init reentered =
      some reenteredState := (Option.some_get _).symm
  have hstart : Reached pair Always .init := .start rfl
  have hrun : Reached pair Always reenteredState :=
    hstart.replay (fun _ _ _ h => h) (fun _ _ _ => trivial) hreplay
  obtain ⟨l, hchain, _⟩ := (hsound pair reenteredState (by decide) hrun).list 0
  have htop : reenteredState.top 0 = some 0 := by decide +kernel
  rw [htop] at hchain
  exact Chain.false_of_cycle (j := 1) (by decide +kernel) (by decide +kernel) hchain

end Veloq.Runtime.Idle
