import Veloq.Foundation.Bits
import Veloq.Foundation.Census
import Veloq.Runtime.WakeToken
set_option autoImplicit false

/-!
# Runtime: a deactivated wake token leaves its task alone

The word is twice the number of guards, and one more while the flag is set.  Guards are only
taken while it is, so the owner that sees the word 0 sees the last of them.  It falls asleep
on a word above 0; whoever brings the word down to 0 then is on its way to `wake_all`.
-/

namespace Veloq.Runtime

open Veloq.Foundation

namespace HeaderPc

/-- The flag has not been cleared. -/
def alive : HeaderPc → Bool
  | live | clearAlive => true
  | _ => false

/-- The owner has seen that no guard is left. -/
def ended : HeaderPc → Bool
  | clearHeader | returned => true
  | _ => false

end HeaderPc

namespace WakeToken

variable {s s' : WakeToken} {i : Nat} {pc : WakerPc}

structure Inv (s : WakeToken) : Prop where
  count : ∃ n, Census (fun i => (s.wakers i).guarded = true) n ∧
    s.state = s.owner.alive.toNat + 2 * n
  bound : s.state < 2 ^ 32
  parked : ∀ curr, s.owner = .wait curr → curr ≠ 0
  asleep : s.owner = .asleep → s.state = 0 → ∃ i, s.wakers i = .wakeAll
  ended : s.owner.ended = true → s.state = 0

theorem Inv.new : Inv new := by
  refine ⟨⟨0, Census.zero fun i => Bool.false_ne_true, rfl⟩, by decide, ?_, ?_, ?_⟩
  · exact fun _ heq => HeaderPc.noConfusion heq
  · exact fun heq => HeaderPc.noConfusion heq
  · exact fun hover => absurd hover Bool.false_ne_true

theorem and_alive (n : Nat) : n &&& wakeTokenAlive = n % 2 := Nat.and_one_is_mod n

/-- The flag is set exactly while the owner has not cleared it. -/
theorem Inv.alive_iff (h : s.Inv) : s.state % 2 = s.owner.alive.toNat := by
  obtain ⟨n, -, hstate⟩ := h.count
  have hle : s.owner.alive.toNat ≤ 1 := Bool.toNat_le _
  omega

/-- A guard keeps the word above 0. -/
theorem Inv.state_of_guarded (h : s.Inv) (hi : (s.wakers i).guarded = true) : 2 ≤ s.state := by
  obtain ⟨n, hcensus, hstate⟩ := h.count
  have := hcensus.pos hi
  omega

/-! ## The wakers -/

/-- A waker moves, and keeps its guard if it has one. -/
theorem Inv.goto (h : s.Inv) (hguard : pc.guarded = (s.wakers i).guarded)
    (hpc : s.wakers i ≠ .wakeAll) : (s.goto i pc).Inv := by
  obtain ⟨n, hcensus, hstate⟩ := h.count
  obtain ⟨m, hcensus', hsum⟩ := hcensus.update i pc
  rw [hguard] at hsum
  refine ⟨⟨m, hcensus', ?_⟩, h.bound, h.parked, fun hasleep hzero => ?_, h.ended⟩
  · show s.state = s.owner.alive.toNat + 2 * m
    omega
  · obtain ⟨j, hj⟩ := h.asleep hasleep hzero
    refine ⟨j, ?_⟩
    have hne : j ≠ i := fun heq => hpc (heq ▸ hj)
    exact (Function.update_of_ne hne ..).trans hj

/-- A guard is taken while the flag is set. -/
theorem Inv.acquired (h : s.Inv) (hguard : (s.wakers i).guarded = false)
    (hodd : s.state % 2 = 1) (hfits : s.state + 2 < 2 ^ 32) :
    Inv { s.goto i .headerAlive with state := s.state + 2 } := by
  obtain ⟨n, hcensus, hstate⟩ := h.count
  obtain ⟨m, hcensus', hsum⟩ := hcensus.update i .headerAlive
  rw [hguard] at hsum
  have halive := h.alive_iff
  have howner : s.owner.alive = true := by
    cases halive' : s.owner.alive with
    | true => rfl
    | false =>
      rw [halive', hodd] at halive
      exact absurd halive (by decide)
  refine ⟨⟨m, hcensus', ?_⟩, hfits, h.parked, fun hasleep => ?_, fun hover => ?_⟩
  · show s.state + 2 = s.owner.alive.toNat + 2 * m
    have hone : WakerPc.headerAlive.guarded.toNat = 1 := rfl
    have hzero : false.toNat = 0 := rfl
    omega
  · rw [show s.owner = .asleep from hasleep] at howner
    exact absurd howner Bool.false_ne_true
  · have hzero := h.ended hover
    omega

theorem Inv.acquire (h : s.Inv) {state : Nat} (hpc : s.wakers i = .acquire state) :
    (s.acquire i state).Inv := by
  have hguard : (s.wakers i).guarded = false := by rw [hpc]; rfl
  have hne : s.wakers i ≠ .wakeAll := by rw [hpc]; exact fun heq => WakerPc.noConfusion heq
  unfold WakeToken.acquire
  rw [and_alive]
  by_cases heven : state % 2 = 0
  · rw [if_pos heven]
    exact h.goto hguard.symm hne
  rw [if_neg heven]
  by_cases hfits : state + wakeTokenActiveUnit < 2 ^ 32
  · rw [if_pos hfits]
    by_cases hsame : s.state = state
    · rw [if_pos hsame]
      subst hsame
      exact h.acquired hguard (by omega) hfits
    · rw [if_neg hsame]
      exact h.goto hguard.symm hne
  · rw [if_neg hfits]
    exact h.goto hguard.symm hne

/-- A guard is given back; with the last one after the flag comes a wake-up. -/
theorem Inv.release (h : s.Inv) (hpc : s.wakers i = .release) : (s.release i).Inv := by
  obtain ⟨n, hcensus, hstate⟩ := h.count
  set pc := if s.state = wakeTokenActiveUnit then WakerPc.wakeAll else .idle with hpc'
  have hguard : pc.guarded = false := by
    rw [hpc']
    split <;> rfl
  obtain ⟨m, hcensus', hsum⟩ := hcensus.update i pc
  have hbefore : (s.wakers i).guarded = true := by rw [hpc]; rfl
  rw [hbefore, hguard] at hsum
  have hle : s.state - wakeTokenActiveUnit ≤ s.state := Nat.sub_le ..
  refine ⟨⟨m, hcensus', ?_⟩, Nat.lt_of_le_of_lt hle h.bound, h.parked, fun hasleep hzero => ?_,
    fun hover => ?_⟩
  · show s.state - 2 = s.owner.alive.toNat + 2 * m
    have hone : true.toNat = 1 := rfl
    have hzero : false.toNat = 0 := rfl
    omega
  · -- the word has come down to 0
    have hlast : s.state = wakeTokenActiveUnit := by
      have := h.state_of_guarded hbefore
      have hsub : s.state - 2 = 0 := hzero
      show s.state = 2
      omega
    refine ⟨i, ?_⟩
    show Function.update s.wakers i pc i = .wakeAll
    rw [Function.update_self, hpc', if_pos hlast]
  · have hzero := h.ended hover
    show s.state - 2 = 0
    omega

/-- `wake_all` leaves nobody asleep. -/
theorem Inv.wakeAll (h : s.Inv) (hpc : s.wakers i = .wakeAll) : (s.wakeAll i).Inv := by
  have hguard : (s.wakers i).guarded = false := by rw [hpc]; rfl
  obtain ⟨n, hcensus, hstate⟩ := h.count
  obtain ⟨m, hcensus', hsum⟩ := hcensus.update i .idle
  rw [hguard] at hsum
  obtain rfl : m = n := by simpa [WakerPc.guarded] using hsum
  by_cases hasleep : s.owner = .asleep
  · have heq : s.wakeAll i = { s.goto i .idle with owner := .look 0 } := by
      unfold WakeToken.wakeAll
      rw [if_pos hasleep]
    rw [heq]
    refine ⟨⟨m, hcensus', ?_⟩, h.bound, ?_, ?_, ?_⟩
    · rw [hasleep] at hstate
      exact hstate
    · exact fun _ hwait => HeaderPc.noConfusion hwait
    · exact fun hasleep' => HeaderPc.noConfusion hasleep'
    · exact fun hover => absurd hover Bool.false_ne_true
  · have heq : s.wakeAll i = s.goto i .idle := by
      unfold WakeToken.wakeAll
      rw [if_neg hasleep]
      rfl
    rw [heq]
    exact ⟨⟨m, hcensus', hstate⟩, h.bound, h.parked, fun hasleep' => absurd hasleep' hasleep,
      h.ended⟩

theorem Inv.wakerStep (h : s.Inv) (hstep : s.wakerStep i = some s') : s'.Inv := by
  unfold WakeToken.wakerStep at hstep
  cases hpc : s.wakers i with
  | idle =>
    rw [hpc] at hstep
    exact absurd hstep (by simp)
  | acquireLoad =>
    rw [hpc] at hstep
    cases hstep
    exact h.goto (by rw [hpc]; rfl) (by simp [hpc])
  | acquire state =>
    rw [hpc] at hstep
    cases hstep
    exact h.acquire hpc
  | headerAlive =>
    rw [hpc] at hstep
    cases hstep
    refine h.goto ?_ (by simp [hpc])
    rw [hpc]
    split <;> rfl
  | headerLoad =>
    rw [hpc] at hstep
    cases hstep
    refine h.goto ?_ (by simp [hpc])
    rw [hpc]
    cases s.header <;> rfl
  | touching header =>
    rw [hpc] at hstep
    cases hstep
    exact h.goto (by rw [hpc]; rfl) (by simp [hpc])
  | release =>
    rw [hpc] at hstep
    cases hstep
    exact h.release hpc
  | wakeAll =>
    rw [hpc] at hstep
    cases hstep
    exact h.wakeAll hpc

/-! ## The owner -/

/-- The owner moves on with the flag as it is. -/
theorem Inv.ownerTo (h : s.Inv) (pc : HeaderPc) (halive : pc.alive = s.owner.alive)
    (hparked : ∀ curr, pc = .wait curr → curr ≠ 0) (hasleep : pc = .asleep → s.state ≠ 0)
    (hover : pc.ended = true → s.state = 0) (header : Option Nat) :
    Inv { s with
      header := header
      owner := pc } := by
  obtain ⟨n, hcensus, hstate⟩ := h.count
  refine ⟨⟨n, hcensus, ?_⟩, h.bound, hparked, fun heq hzero => absurd hzero (hasleep heq), hover⟩
  show s.state = pc.alive.toNat + 2 * n
  rw [halive]
  exact hstate

/-- The owner goes back to the top of its loop. -/
theorem Inv.ownerLook (h : s.Inv) (hdead : s.owner.alive = false) :
    Inv { s with owner := .look 0 } :=
  h.ownerTo (.look 0) hdead.symm (fun _ heq => HeaderPc.noConfusion heq)
    (fun heq => HeaderPc.noConfusion heq) (fun hover => absurd hover Bool.false_ne_true) s.header

/-- The flag is cleared, the count stays. -/
theorem Inv.clearAlive (h : s.Inv) (howner : s.owner = .clearAlive) :
    Inv { s with
      state := s.state &&& (2 ^ 32 - 1 - wakeTokenAlive)
      owner := .look 0 } := by
  obtain ⟨n, hcensus, hstate⟩ := h.count
  have hbound := h.bound
  have hmask : s.state &&& (2 ^ 32 - 1 - wakeTokenAlive) = 2 * n := by
    have hfield := Bits.land_field s.state 1 31
    rw [show 2 ^ 1 * (2 ^ 31 - 1) = 2 ^ 32 - 1 - wakeTokenAlive from rfl] at hfield
    rw [hfield]
    rw [howner] at hstate
    have hone : HeaderPc.clearAlive.alive.toNat = 1 := rfl
    omega
  refine ⟨⟨n, hcensus, ?_⟩, ?_, ?_, ?_, ?_⟩
  · show s.state &&& (2 ^ 32 - 1 - wakeTokenAlive) = 0 + 2 * n
    rw [hmask, Nat.zero_add]
  · show s.state &&& (2 ^ 32 - 1 - wakeTokenAlive) < 2 ^ 32
    exact Nat.lt_of_le_of_lt Nat.and_le_left hbound
  · exact fun _ heq => HeaderPc.noConfusion heq
  · exact fun heq => HeaderPc.noConfusion heq
  · exact fun hover => absurd hover Bool.false_ne_true

/-- One turn of the loop ends it on the word 0 only, and waits on no other. -/
theorem turn_spec (s : WakeToken) (spinCount : Nat) :
    (s.turn spinCount).alive = false ∧ (∀ curr, s.turn spinCount = .wait curr → curr ≠ 0) ∧
      s.turn spinCount ≠ .asleep ∧ ((s.turn spinCount).ended = true → s.state = 0) := by
  unfold turn
  by_cases hzero : s.state = 0
  · rw [if_pos hzero]
    exact ⟨rfl, fun _ heq => HeaderPc.noConfusion heq, fun heq => HeaderPc.noConfusion heq,
      fun _ => hzero⟩
  rw [if_neg hzero]
  by_cases hspin : spinCount < spinLimit
  · rw [if_pos hspin]
    exact ⟨rfl, fun _ heq => HeaderPc.noConfusion heq, fun heq => HeaderPc.noConfusion heq,
      fun hover => absurd hover Bool.false_ne_true⟩
  rw [if_neg hspin]
  by_cases hyield : spinCount = spinLimit
  · rw [if_pos hyield]
    exact ⟨rfl, fun _ heq => HeaderPc.noConfusion heq, fun heq => HeaderPc.noConfusion heq,
      fun hover => absurd hover Bool.false_ne_true⟩
  · rw [if_neg hyield]
    refine ⟨rfl, ?_, fun heq => HeaderPc.noConfusion heq,
      fun hover => absurd hover Bool.false_ne_true⟩
    rintro curr heq
    cases heq
    exact hzero

theorem Inv.ownerStep (h : s.Inv) (hstep : s.ownerStep = some s') : s'.Inv := by
  unfold WakeToken.ownerStep at hstep
  cases howner : s.owner with
  | live =>
    rw [howner] at hstep
    exact absurd hstep (by simp)
  | clearAlive =>
    rw [howner] at hstep
    cases hstep
    exact h.clearAlive howner
  | look spinCount =>
    rw [howner] at hstep
    cases hstep
    obtain ⟨halive, hparked, hasleep, hover⟩ := turn_spec s spinCount
    exact h.ownerTo _ (by rw [halive, howner]; rfl) hparked (fun heq => absurd heq hasleep) hover
      s.header
  | wait curr =>
    rw [howner] at hstep
    cases hstep
    by_cases hsame : s.state = curr
    · rw [if_pos hsame]
      refine h.ownerTo .asleep (by rw [howner]; rfl) (fun _ heq => HeaderPc.noConfusion heq)
        (fun _ => ?_) (fun hover => absurd hover Bool.false_ne_true) s.header
      rw [hsame]
      exact h.parked curr howner
    · rw [if_neg hsame]
      exact h.ownerLook (by rw [howner]; rfl)
  | asleep =>
    rw [howner] at hstep
    exact absurd hstep (by simp)
  | clearHeader =>
    rw [howner] at hstep
    cases hstep
    exact h.ownerTo .returned (by rw [howner]; rfl) (fun _ heq => HeaderPc.noConfusion heq)
      (fun heq => HeaderPc.noConfusion heq) (fun _ => h.ended (by rw [howner]; rfl)) none
  | returned =>
    rw [howner] at hstep
    exact absurd hstep (by simp)

/-! ## Runs -/

theorem Inv.step {e : WakeTokenAction} (h : s.Inv) (hstep : WakeTokenStep s e s') : s'.Inv := by
  unfold WakeTokenStep WakeToken.step at hstep
  cases e with
  | bind header =>
    simp only at hstep
    split at hstep
    · rename_i howner
      cases hstep
      exact ⟨h.count, h.bound, h.parked, h.asleep, h.ended⟩
    · exact absurd hstep (by simp)
  | deactivate =>
    simp only at hstep
    split at hstep
    · rename_i howner
      cases hstep
      exact h.ownerTo .clearAlive (by rw [howner]; rfl) (fun _ heq => HeaderPc.noConfusion heq)
        (fun heq => HeaderPc.noConfusion heq) (fun hover => absurd hover Bool.false_ne_true)
        s.header
    · exact absurd hstep (by simp)
  | owner => exact h.ownerStep hstep
  | interrupt =>
    simp only at hstep
    split at hstep
    · rename_i curr howner
      cases hstep
      exact h.ownerLook (by rw [howner]; rfl)
    · rename_i howner
      cases hstep
      exact h.ownerLook (by rw [howner]; rfl)
    · exact absurd hstep (by simp)
  | wake i =>
    simp only at hstep
    split at hstep
    · rename_i hidle
      cases hstep
      exact h.goto (by rw [hidle]; rfl) (by simp [hidle])
    · exact absurd hstep (by simp)
  | waker i => exact h.wakerStep hstep
  | fail i =>
    simp only at hstep
    split at hstep
    · rename_i state hpc
      split at hstep
      · exact absurd hstep (by simp)
      · cases hstep
        exact h.goto (by rw [hpc]; rfl) (by simp [hpc])
    · exact absurd hstep (by simp)

theorem inv_of_run (hrun : Run WakeTokenStep Always (fun t => t = WakeToken.new) s) : s.Inv := by
  refine hrun.invariant ?_ fun _ _ _ hinv _ hs => hinv.step hs
  rintro t rfl
  exact Inv.new

/-- A waker goes on with the guard it has. -/
def Releasing (s : WakeToken) (e : WakeTokenAction) : Prop :=
  ∃ i, e = .waker i ∧ (s.wakers i).outstanding = true

theorem outstanding_of_guarded (h : pc.guarded = true) : pc.outstanding = true := by
  unfold WakerPc.outstanding
  rw [h]
  rfl

/-- Nothing keeps a waker from the drop of its guard. -/
theorem exists_release (h : s.Inv) (hdead : s.owner.alive = false)
    (hi : (s.wakers i).guarded = true) :
    ∃ s', Run WakeTokenStep Releasing (fun t => t = s) s' ∧ s'.wakers i = .release ∧
      s'.owner = s.owner ∧ s'.state = s.state := by
  have hstart : Run WakeTokenStep Releasing (fun t => t = s) s := Run.start rfl
  have hmay : Releasing s (.waker i) := ⟨i, rfl, outstanding_of_guarded hi⟩
  have hself : ∀ pc, (s.goto i pc).wakers i = pc := fun pc => Function.update_self ..
  have hstep : ∀ s', s.wakerStep i = some s' → WakeTokenStep s (.waker i) s' := fun _ heq => heq
  unfold wakerStep at hstep
  cases hpc : s.wakers i with
  | idle => rw [hpc] at hi; exact absurd hi Bool.false_ne_true
  | acquireLoad => rw [hpc] at hi; exact absurd hi Bool.false_ne_true
  | acquire state => rw [hpc] at hi; exact absurd hi Bool.false_ne_true
  | wakeAll => rw [hpc] at hi; exact absurd hi Bool.false_ne_true
  | release => exact ⟨s, hstart, hpc, rfl, rfl⟩
  | touching header =>
    rw [hpc] at hstep
    exact ⟨_, hstart.next _ hmay (hstep _ rfl), hself _, rfl, rfl⟩
  | headerAlive =>
    have heven : s.state &&& wakeTokenAlive = 0 := by
      rw [and_alive, h.alive_iff, hdead]
      rfl
    rw [hpc] at hstep
    refine ⟨_, hstart.next _ hmay (hstep _ rfl), ?_, rfl, rfl⟩
    rw [hself, if_pos heven]
  | headerLoad =>
    rw [hpc] at hstep
    cases hheader : s.header with
    | none =>
      refine ⟨_, hstart.next _ hmay (hstep _ rfl), ?_, rfl, rfl⟩
      rw [hself, hheader]
    | some header =>
      have hfirst := hstart.next _ hmay (hstep _ rfl)
      rw [hheader] at hfirst
      have hmay' : Releasing (s.goto i (.touching header)) (.waker i) := by
        refine ⟨i, rfl, outstanding_of_guarded ?_⟩
        rw [hself]
        rfl
      refine ⟨(s.goto i (.touching header)).goto i .release, hfirst.next _ hmay' ?_,
        Function.update_self .., rfl, rfl⟩
      show (s.goto i (.touching header)).wakerStep i = _
      unfold wakerStep
      rw [hself]

/-- Once the guards are dropped the owner is awake. -/
theorem exists_awake (h : s.Inv) (hasleep : s.owner = .asleep) :
    ∃ s', Run WakeTokenStep Releasing (fun t => t = s) s' ∧ s'.owner ≠ .asleep := by
  -- on the word: every drop lowers it, and the one that brings it to 0 is followed by a wake-up
  induction hn : s.state using Nat.strong_induction_on generalizing s with
  | _ n ih =>
    by_cases hzero : s.state = 0
    · obtain ⟨i, hi⟩ := h.asleep hasleep hzero
      have hstart : Run WakeTokenStep Releasing (fun t => t = s) s := Run.start rfl
      refine ⟨s.wakeAll i, hstart.next (.waker i) ⟨i, rfl, by rw [hi]; rfl⟩ ?_, ?_⟩
      · show s.wakerStep i = _
        unfold wakerStep
        rw [hi]
      · show (if s.owner = .asleep then HeaderPc.look 0 else s.owner) ≠ .asleep
        rw [if_pos hasleep]
        exact fun heq => HeaderPc.noConfusion heq
    · obtain ⟨m, hcensus, hstate⟩ := h.count
      rw [hasleep] at hstate
      have hm : 0 < m := by
        have hdead : HeaderPc.asleep.alive.toNat = 0 := rfl
        omega
      obtain ⟨i, hi⟩ := hcensus.exists_of_pos hm
      obtain ⟨s₁, hrun₁, hpc₁, howner₁, hstate₁⟩ := exists_release h (by rw [hasleep]; rfl) hi
      have hinv₁ : s₁.Inv := by
        refine hrun₁.invariant ?_ fun _ _ _ hinv _ hs => hinv.step hs
        rintro t rfl
        exact h
      have hstep : WakeTokenStep s₁ (.waker i) (s₁.release i) := by
        show s₁.wakerStep i = _
        unfold wakerStep
        rw [hpc₁]
      have hrun₂ := hrun₁.next (.waker i) ⟨i, rfl, by rw [hpc₁]; rfl⟩ hstep
      have hlower : (s₁.release i).state < n := by
        show s₁.state - 2 < n
        omega
      obtain ⟨s', hrun', hawake⟩ := ih _ hlower (hinv₁.step hstep) (howner₁.trans hasleep) rfl
      exact ⟨s', hrun₂.trans hrun', hawake⟩

/-- The header is gone for good: no waker has a guard, and none uses the header. -/
structure Deactivated (s : WakeToken) : Prop where
  returned : s.owner = .returned
  guarded : ∀ i, (s.wakers i).guarded = false
  touches : ∀ i, (s.wakers i).touches = false

/-- The guards that are out will wake the owner. -/
structure Wakeable (s : WakeToken) : Prop where
  outstanding : ∃ i, (s.wakers i).outstanding = true
  awake : ∀ s', Run WakeTokenStep Releasing (fun t => t = s) s' →
    (∀ i, (s'.wakers i).outstanding = false) → s'.owner ≠ .asleep
  drains : ∃ s', Run WakeTokenStep Releasing (fun t => t = s) s' ∧ s'.owner ≠ .asleep

theorem Inv.outstanding (h : s.Inv) (hasleep : s.owner = .asleep) :
    ∃ i, (s.wakers i).outstanding = true := by
  by_cases hzero : s.state = 0
  · obtain ⟨i, hi⟩ := h.asleep hasleep hzero
    exact ⟨i, by rw [hi]; rfl⟩
  · obtain ⟨n, hcensus, hstate⟩ := h.count
    rw [hasleep] at hstate
    have hn : 0 < n := by
      have hdead : HeaderPc.asleep.alive.toNat = 0 := rfl
      omega
    obtain ⟨i, hi⟩ := hcensus.exists_of_pos hn
    exact ⟨i, outstanding_of_guarded hi⟩

theorem Inv.deactivated (h : s.Inv) (howner : s.owner = .returned) : Deactivated s := by
  have hzero := h.ended (by rw [howner]; rfl)
  have hguarded : ∀ i, (s.wakers i).guarded = false := by
    intro i
    rw [Bool.eq_false_iff]
    intro hi
    have := h.state_of_guarded hi
    omega
  refine ⟨howner, hguarded, fun i => ?_⟩
  have hi := hguarded i
  cases hpc : s.wakers i with
  | touching header =>
    rw [hpc] at hi
    exact Bool.noConfusion hi
  | idle | acquireLoad | acquire | headerAlive | headerLoad | release | wakeAll => rfl

/-- A waker changes what the owner does next only by waking it. -/
theorem owner_of_wakerStep (hawake : s.owner ≠ .asleep) (hstep : s.wakerStep i = some s') :
    s'.owner = s.owner := by
  unfold wakerStep at hstep
  split at hstep
  · exact absurd hstep (by simp)
  · cases hstep
    rfl
  · cases hstep
    unfold acquire
    split_ifs <;> rfl
  · cases hstep
    rfl
  · cases hstep
    rfl
  · cases hstep
    rfl
  · cases hstep
    rfl
  · cases hstep
    exact if_neg hawake

/-- `deactivate_and_wait` returns once. -/
theorem returned_of_step {e : WakeTokenAction} (howner : s.owner = .returned)
    (hstep : WakeTokenStep s e s') : s'.owner = .returned := by
  have hlive : s.owner ≠ .live := by rw [howner]; exact fun heq => HeaderPc.noConfusion heq
  have hawake : s.owner ≠ .asleep := by rw [howner]; exact fun heq => HeaderPc.noConfusion heq
  unfold WakeTokenStep WakeToken.step at hstep
  cases e with
  | bind header =>
    simp only [if_neg hlive] at hstep
    exact absurd hstep (by simp)
  | deactivate =>
    simp only [if_neg hlive] at hstep
    exact absurd hstep (by simp)
  | owner =>
    simp only [ownerStep, howner] at hstep
    exact absurd hstep (by simp)
  | interrupt =>
    simp only [howner] at hstep
    exact absurd hstep (by simp)
  | wake i =>
    simp only at hstep
    split at hstep
    · cases hstep
      exact howner
    · exact absurd hstep (by simp)
  | waker i => exact (owner_of_wakerStep hawake hstep).trans howner
  | fail i =>
    simp only at hstep
    split at hstep
    · split at hstep
      · exact absurd hstep (by simp)
      · cases hstep
        exact howner
    · exact absurd hstep (by simp)

/-- **A deactivated wake token never touches the task.**  In every interleaving of any
number of wakers with `deactivate_and_wait`: from its return on no guard is held and no
waker uses the header; and while the owner is asleep there is a guard whose drop will wake
it. -/
theorem wake_token_deactivates (hrun : Run WakeTokenStep Always (fun s => s = WakeToken.new) s) :
    (s.owner = .returned → ∀ s', Run WakeTokenStep Always (fun t => t = s) s' → Deactivated s') ∧
      (s.owner = .asleep → Wakeable s) := by
  have h := inv_of_run hrun
  refine ⟨fun howner s' hrun' => ?_, fun hasleep => ⟨h.outstanding hasleep, ?_, ?_⟩⟩
  · have howner' : s'.owner = .returned := by
      induction hrun' with
      | start heq => exact heq ▸ howner
      | next e _ _ hstep ih => exact returned_of_step ih hstep
    exact (inv_of_run (hrun.trans hrun')).deactivated howner'
  · intro s' hrun' hnone hasleep'
    have h' := inv_of_run (hrun.trans (hrun'.mono fun _ _ _ => trivial))
    obtain ⟨i, hi⟩ := h'.outstanding hasleep'
    rw [hnone i] at hi
    exact Bool.false_ne_true hi
  · exact exists_awake h hasleep

/-- The owner falls asleep while waker 0 has a guard. -/
def sleepEvents : List WakeTokenAction :=
  ([.bind 5, .wake 0, .waker 0, .waker 0, .deactivate] : List WakeTokenAction) ++
    List.replicate 10 .owner

def sleeping : WakeToken :=
  (replay step (fun _ _ => true) WakeToken.new sleepEvents).get (by decide +kernel)

/-- Waker 0 drops its guard, and the owner returns. -/
def wakeEvents : List WakeTokenAction := [.waker 0, .waker 0, .waker 0, .owner, .owner]

def woken : WakeToken :=
  (replay step (fun _ _ => true) sleeping wakeEvents).get (by decide +kernel)

theorem wake_token_deactivates_woken : Wakeable sleeping ∧ Deactivated woken := by
  have hstart : Run WakeTokenStep Always (fun s => s = WakeToken.new) WakeToken.new :=
    Run.start rfl
  have hsleep : replay step (fun _ _ => true) WakeToken.new sleepEvents = some sleeping :=
    (Option.some_get _).symm
  have hwake : replay step (fun _ _ => true) sleeping wakeEvents = some woken :=
    (Option.some_get _).symm
  have hrun := hstart.replay (fun _ _ _ hs => hs) (fun _ _ _ => trivial) hsleep
  have hrun' := hrun.replay (fun _ _ _ hs => hs) (fun _ _ _ => trivial) hwake
  exact ⟨(wake_token_deactivates hrun).2 (by decide +kernel),
    (wake_token_deactivates hrun').1 (by decide +kernel) woken (Run.start rfl)⟩

end WakeToken

end Veloq.Runtime
