import Mathlib.Data.Nat.Bitwise
set_option autoImplicit false

/-!
# Foundation: tilings by dyadic blocks

The block of order `k` at `i` covers the `2 ^ k` positions from `i` on.  A tiling of
`[0, total)` is a family of blocks, each aligned to its own size, of which exactly one
covers any position.  Blocks carry a tag (who holds them), so that moving a block from
one holder to another is a change of the family too.  Every change replaces some blocks
by others that cover the same positions (`Tiling.replace`).

The blocks of one holder are coalesced when no two buddies are among them.  Then they
are as large as the positions they cover allow, which makes them unique.
-/

namespace Veloq.Foundation.Dyadic

/-- The block of order `k` at `i` covers `p`. -/
def Covers (i k p : Nat) : Prop := i ≤ p ∧ p < i + 2 ^ k

theorem covers_self (i k : Nat) : Covers i k i :=
  ⟨Nat.le_refl i, Nat.lt_add_of_pos_right (Nat.two_pow_pos k)⟩

/-- A block is the union of its halves. -/
theorem covers_succ_iff (i k p : Nat) :
    Covers i (k + 1) p ↔ Covers i k p ∨ Covers (i + 2 ^ k) k p := by
  unfold Covers
  rw [Nat.pow_succ]
  omega

/-- The positions of an aligned block agree on their quotient by its size. -/
theorem covers_iff_div {i k : Nat} (h : 2 ^ k ∣ i) (p : Nat) :
    Covers i k p ↔ p / 2 ^ k = i / 2 ^ k := by
  obtain ⟨m, rfl⟩ := h
  have hpos := Nat.two_pow_pos k
  rw [Nat.mul_div_cancel_left m hpos, Nat.div_eq_iff hpos]
  unfold Covers
  rw [Nat.mul_comm m]
  omega

/-- The buddy of an aligned block is the other half of the next larger one. -/
theorem buddy_cases {i k : Nat} (h : 2 ^ k ∣ i) :
    (2 ^ (k + 1) ∣ i ∧ i ^^^ 2 ^ k = i + 2 ^ k) ∨
    (2 ^ k ≤ i ∧ 2 ^ (k + 1) ∣ i - 2 ^ k ∧ i ^^^ 2 ^ k = i - 2 ^ k) := by
  obtain ⟨m, rfl⟩ := h
  have hxor : 2 ^ k * m ^^^ 2 ^ k = 2 ^ k * (m ^^^ 1) := by
    have hshift := Nat.shiftLeft_xor_distrib (i := k) (a := m) (b := 1)
    rw [Nat.shiftLeft_eq, Nat.shiftLeft_eq, Nat.shiftLeft_eq, Nat.one_mul] at hshift
    rw [Nat.mul_comm, ← hshift, Nat.mul_comm]
  rw [hxor, Nat.pow_succ]
  rcases Nat.even_or_odd' m with ⟨n, rfl | rfl⟩
  · refine Or.inl ⟨⟨n, (Nat.mul_assoc ..).symm⟩, ?_⟩
    rw [Nat.xor_one_of_even (even_two_mul n), Nat.mul_succ]
  · refine Or.inr ⟨Nat.le_mul_of_pos_right _ (Nat.succ_pos _), ?_, ?_⟩
    · rw [Nat.mul_succ (2 ^ k) (2 * n), Nat.add_sub_cancel]
      exact ⟨n, (Nat.mul_assoc ..).symm⟩
    · rw [Nat.xor_one_of_odd (odd_two_mul_add_one n), Nat.mul_succ]
      simp

theorem xor_two_pow_ne (i k : Nat) : i ^^^ 2 ^ k ≠ i := by
  intro h
  have hzero : 2 ^ k = 0 := by
    calc 2 ^ k = i ^^^ (i ^^^ 2 ^ k) := by rw [← Nat.xor_assoc, Nat.xor_self, Nat.zero_xor]
      _ = 0 := by rw [h, Nat.xor_self]
  exact absurd hzero (Nat.two_pow_pos k).ne'

/-- The buddy of a lower half is the upper half. -/
theorem xor_two_pow_of_dvd {i k : Nat} (h : 2 ^ (k + 1) ∣ i) : i ^^^ 2 ^ k = i + 2 ^ k := by
  rcases buddy_cases (Nat.dvd_trans (Nat.pow_dvd_pow 2 (Nat.le_succ k)) h) with
    ⟨-, hxor⟩ | ⟨hle, hdvd, -⟩
  · exact hxor
  · have hhalf : 2 ^ (k + 1) ∣ 2 ^ k := by
      have := Nat.dvd_sub h hdvd
      rwa [Nat.sub_sub_self hle] at this
    have := Nat.le_of_dvd (Nat.two_pow_pos k) hhalf
    have := Nat.two_pow_pos k
    rw [Nat.pow_succ] at *
    omega

/-- A block that reaches into an aligned block of at most its own size contains it. -/
theorem covers_of_le {i k j m p q : Nat} (hi : 2 ^ k ∣ i) (hj : 2 ^ m ∣ j) (hle : k ≤ m)
    (hp : Covers i k p) (hq : Covers i k q) (h : Covers j m p) : Covers j m q := by
  rw [covers_iff_div hi] at hp hq
  rw [covers_iff_div hj] at h ⊢
  obtain ⟨d, rfl⟩ : ∃ d, m = k + d := ⟨m - k, by omega⟩
  rw [Nat.pow_add, ← Nat.div_div_eq_div_mul] at h ⊢
  rw [hq, ← hp]
  exact h

/-- Two aligned blocks of one size that share a position are the same. -/
theorem head_eq {i j k p : Nat} (hi : 2 ^ k ∣ i) (hj : 2 ^ k ∣ j) (hp : Covers i k p)
    (hp' : Covers j k p) : i = j := by
  rw [covers_iff_div hi] at hp
  rw [covers_iff_div hj] at hp'
  rw [← Nat.div_mul_cancel hi, ← Nat.div_mul_cancel hj, ← hp, hp']

/-- A tiling of `[0, total)` by tagged blocks: `B t i k` says that `t` holds the block of
order `k` at `i`. -/
structure Tiling {ι : Type} (total : Nat) (B : ι → Nat → Nat → Prop) : Prop where
  aligned : ∀ t i k, B t i k → 2 ^ k ∣ i
  inside : ∀ t i k, B t i k → i + 2 ^ k ≤ total
  cover : ∀ p < total, ∃ t i k, B t i k ∧ Covers i k p
  unique : ∀ t i k t' i' k' p, B t i k → B t' i' k' → Covers i k p → Covers i' k' p →
    t = t' ∧ i = i' ∧ k = k'

namespace Tiling

variable {ι : Type} {total i k : Nat} {B B' : ι → Nat → Nat → Prop}

/-- Some blocks are replaced by others that cover the same positions. -/
theorem replace (h : Tiling total B) (Old New : ι → Nat → Nat → Prop)
    (hB' : ∀ t i k, B' t i k ↔ (B t i k ∧ ¬ Old t i k) ∨ New t i k)
    (hold : ∀ t i k, Old t i k → B t i k) (haligned : ∀ t i k, New t i k → 2 ^ k ∣ i)
    (hsame : ∀ p, (∃ t i k, Old t i k ∧ Covers i k p) ↔ ∃ t i k, New t i k ∧ Covers i k p)
    (hunique : ∀ t i k t' i' k' p, New t i k → New t' i' k' → Covers i k p → Covers i' k' p →
      t = t' ∧ i = i' ∧ k = k') : Tiling total B' := by
  -- a kept block shares no position with a new one
  have hapart : ∀ t i k t' i' k' p, B t i k → ¬ Old t i k → New t' i' k' → Covers i k p →
      ¬ Covers i' k' p := by
    intro t i k t' i' k' p hkept hnot hnew hp hp'
    obtain ⟨s, j, m, hj, hcovers⟩ := (hsame p).mpr ⟨t', i', k', hnew, hp'⟩
    obtain ⟨rfl, rfl, rfl⟩ := h.unique _ _ _ _ _ _ p hkept (hold s j m hj) hp hcovers
    exact hnot hj
  refine ⟨?_, ?_, ?_, ?_⟩
  · intro t i k hblock
    rcases (hB' t i k).mp hblock with hkept | hnew
    · exact h.aligned t i k hkept.1
    · exact haligned t i k hnew
  · intro t i k hblock
    rcases (hB' t i k).mp hblock with hkept | hnew
    · exact h.inside t i k hkept.1
    · have hpos := Nat.two_pow_pos k
      have hlast : Covers i k (i + 2 ^ k - 1) := ⟨by omega, by omega⟩
      obtain ⟨s, j, m, hj, hcovers⟩ := (hsame _).mpr ⟨t, i, k, hnew, hlast⟩
      have hinside := h.inside s j m (hold s j m hj)
      have := hcovers.2
      omega
  · intro p hp
    obtain ⟨t, i, k, hblock, hcovers⟩ := h.cover p hp
    by_cases hin : Old t i k
    · obtain ⟨s, j, m, hj, hcovers'⟩ := (hsame p).mp ⟨t, i, k, hin, hcovers⟩
      exact ⟨s, j, m, (hB' s j m).mpr (Or.inr hj), hcovers'⟩
    · exact ⟨t, i, k, (hB' t i k).mpr (Or.inl ⟨hblock, hin⟩), hcovers⟩
  · intro t i k t' i' k' p hblock hblock' hp hp'
    rcases (hB' t i k).mp hblock with hkept | hnew <;>
      rcases (hB' t' i' k').mp hblock' with hkept' | hnew'
    · exact h.unique t i k t' i' k' p hkept.1 hkept'.1 hp hp'
    · exact absurd hp' (hapart _ _ _ _ _ _ p hkept.1 hkept.2 hnew' hp)
    · exact absurd hp (hapart _ _ _ _ _ _ p hkept'.1 hkept'.2 hnew hp')
    · exact hunique t i k t' i' k' p hnew hnew' hp hp'

/-- The same blocks, described differently. -/
theorem congr (h : Tiling total B) (hB' : ∀ t i k, B' t i k ↔ B t i k) : Tiling total B' := by
  have heq : B' = B := by
    funext t i k
    exact propext (hB' t i k)
  rw [heq]
  exact h

/-- A block changes hands. -/
theorem move (h : Tiling total B) (t t₁ : ι) (hblock : B t i k)
    (hB' : ∀ s j m, B' s j m ↔ (B s j m ∧ ¬ (s = t ∧ j = i ∧ m = k)) ∨
      (s = t₁ ∧ j = i ∧ m = k)) : Tiling total B' := by
  refine h.replace (fun s j m => s = t ∧ j = i ∧ m = k) (fun s j m => s = t₁ ∧ j = i ∧ m = k) hB'
    ?_ ?_ ?_ ?_
  · rintro s j m ⟨rfl, rfl, rfl⟩
    exact hblock
  · rintro s j m ⟨rfl, rfl, rfl⟩
    exact h.aligned t j m hblock
  · intro p
    constructor
    · rintro ⟨_, _, _, ⟨rfl, rfl, rfl⟩, hp⟩
      exact ⟨_, _, _, ⟨rfl, rfl, rfl⟩, hp⟩
    · rintro ⟨_, _, _, ⟨rfl, rfl, rfl⟩, hp⟩
      exact ⟨_, _, _, ⟨rfl, rfl, rfl⟩, hp⟩
  · rintro _ _ _ _ _ _ p ⟨rfl, rfl, rfl⟩ ⟨rfl, rfl, rfl⟩ _ _
    exact ⟨rfl, rfl, rfl⟩

/-- A block is cut into its halves. -/
theorem split (h : Tiling total B) (t t₁ t₂ : ι) (hblock : B t i (k + 1))
    (hB' : ∀ s j m, B' s j m ↔ (B s j m ∧ ¬ (s = t ∧ j = i ∧ m = k + 1)) ∨
      ((s = t₁ ∧ j = i ∧ m = k) ∨ (s = t₂ ∧ j = i + 2 ^ k ∧ m = k))) : Tiling total B' := by
  have haligned := h.aligned t i (k + 1) hblock
  have hdvd : 2 ^ k ∣ i := Nat.dvd_trans (Nat.pow_dvd_pow 2 (Nat.le_succ k)) haligned
  refine h.replace (fun s j m => s = t ∧ j = i ∧ m = k + 1)
    (fun s j m => (s = t₁ ∧ j = i ∧ m = k) ∨ (s = t₂ ∧ j = i + 2 ^ k ∧ m = k)) hB' ?_ ?_ ?_ ?_
  · rintro s j m ⟨rfl, rfl, rfl⟩
    exact hblock
  · rintro s j m (⟨rfl, rfl, rfl⟩ | ⟨rfl, rfl, rfl⟩)
    · exact hdvd
    · exact Nat.dvd_add hdvd (Nat.dvd_refl _)
  · intro p
    constructor
    · rintro ⟨_, _, _, ⟨rfl, rfl, rfl⟩, hp⟩
      rcases (covers_succ_iff _ _ p).mp hp with hp | hp
      · exact ⟨_, _, _, Or.inl ⟨rfl, rfl, rfl⟩, hp⟩
      · exact ⟨_, _, _, Or.inr ⟨rfl, rfl, rfl⟩, hp⟩
    · rintro ⟨_, _, _, ⟨rfl, rfl, rfl⟩ | ⟨rfl, rfl, rfl⟩, hp⟩
      · exact ⟨_, _, _, ⟨rfl, rfl, rfl⟩, (covers_succ_iff _ _ p).mpr (Or.inl hp)⟩
      · exact ⟨_, _, _, ⟨rfl, rfl, rfl⟩, (covers_succ_iff _ _ p).mpr (Or.inr hp)⟩
  · rintro _ _ _ _ _ _ p (⟨rfl, rfl, rfl⟩ | ⟨rfl, rfl, rfl⟩) (⟨rfl, rfl, rfl⟩ | ⟨rfl, rfl, rfl⟩)
      hp hp'
    · exact ⟨rfl, rfl, rfl⟩
    · exact absurd hp'.1 (Nat.not_le.mpr hp.2)
    · exact absurd hp.1 (Nat.not_le.mpr hp'.2)
    · exact ⟨rfl, rfl, rfl⟩

/-- A block is joined with its buddy. -/
theorem merge (h : Tiling total B) (t₁ t₂ t : ι) (hblock : B t₁ i k) (hbuddy : B t₂ (i ^^^ 2 ^ k) k)
    (hB' : ∀ s j m, B' s j m ↔ (B s j m ∧ ¬ ((s = t₁ ∧ j = i ∧ m = k) ∨
      (s = t₂ ∧ j = i ^^^ 2 ^ k ∧ m = k))) ∨
      (s = t ∧ j = min i (i ^^^ 2 ^ k) ∧ m = k + 1)) : Tiling total B' := by
  have hmin : 2 ^ (k + 1) ∣ min i (i ^^^ 2 ^ k) ∧ ∀ p, Covers (min i (i ^^^ 2 ^ k)) (k + 1) p ↔
      Covers i k p ∨ Covers (i ^^^ 2 ^ k) k p := by
    rcases buddy_cases (h.aligned t₁ i k hblock) with ⟨hdvd, hxor⟩ | ⟨hle, hdvd, hxor⟩
    · rw [hxor, Nat.min_eq_left (Nat.le_add_right ..)]
      exact ⟨hdvd, covers_succ_iff i k⟩
    · rw [hxor, Nat.min_eq_right (Nat.sub_le ..)]
      refine ⟨hdvd, fun p => ?_⟩
      rw [covers_succ_iff, Nat.sub_add_cancel hle, Or.comm]
  refine h.replace
    (fun s j m => (s = t₁ ∧ j = i ∧ m = k) ∨ (s = t₂ ∧ j = i ^^^ 2 ^ k ∧ m = k))
    (fun s j m => s = t ∧ j = min i (i ^^^ 2 ^ k) ∧ m = k + 1) hB' ?_ ?_ ?_ ?_
  · rintro s j m (⟨rfl, rfl, rfl⟩ | ⟨rfl, rfl, rfl⟩)
    · exact hblock
    · exact hbuddy
  · rintro s j m ⟨rfl, rfl, rfl⟩
    exact hmin.1
  · intro p
    constructor
    · rintro ⟨_, _, _, ⟨rfl, rfl, rfl⟩ | ⟨rfl, rfl, rfl⟩, hp⟩
      · exact ⟨_, _, _, ⟨rfl, rfl, rfl⟩, (hmin.2 p).mpr (Or.inl hp)⟩
      · exact ⟨_, _, _, ⟨rfl, rfl, rfl⟩, (hmin.2 p).mpr (Or.inr hp)⟩
    · rintro ⟨_, _, _, ⟨rfl, rfl, rfl⟩, hp⟩
      rcases (hmin.2 p).mp hp with hp | hp
      · exact ⟨_, _, _, Or.inl ⟨rfl, rfl, rfl⟩, hp⟩
      · exact ⟨_, _, _, Or.inr ⟨rfl, rfl, rfl⟩, hp⟩
  · rintro _ _ _ _ _ _ p ⟨rfl, rfl, rfl⟩ ⟨rfl, rfl, rfl⟩ _ _
    exact ⟨rfl, rfl, rfl⟩

/-- A block is put at the end. -/
theorem extend (h : Tiling total B) (t : ι) (hdvd : 2 ^ k ∣ total)
    (hB' : ∀ s j m, B' s j m ↔ B s j m ∨ (s = t ∧ j = total ∧ m = k)) :
    Tiling (total + 2 ^ k) B' := by
  have hbelow : ∀ s j m p, B s j m → Covers j m p → p < total := by
    intro s j m p hblock hp
    have := h.inside s j m hblock
    have := hp.2
    omega
  refine ⟨?_, ?_, ?_, ?_⟩
  · intro s j m hblock
    rcases (hB' s j m).mp hblock with hold | ⟨rfl, rfl, rfl⟩
    · exact h.aligned s j m hold
    · exact hdvd
  · intro s j m hblock
    rcases (hB' s j m).mp hblock with hold | ⟨rfl, rfl, rfl⟩
    · exact Nat.le_trans (h.inside s j m hold) (Nat.le_add_right ..)
    · exact Nat.le_refl _
  · intro p hp
    by_cases hlt : p < total
    · obtain ⟨s, j, m, hblock, hcovers⟩ := h.cover p hlt
      exact ⟨s, j, m, (hB' s j m).mpr (Or.inl hblock), hcovers⟩
    · exact ⟨t, total, k, (hB' t total k).mpr (Or.inr ⟨rfl, rfl, rfl⟩), Nat.le_of_not_lt hlt, hp⟩
  · intro s j m s' j' m' p hblock hblock' hp hp'
    rcases (hB' s j m).mp hblock with hold | ⟨rfl, rfl, rfl⟩ <;>
      rcases (hB' s' j' m').mp hblock' with hold' | ⟨rfl, rfl, rfl⟩
    · exact h.unique s j m s' j' m' p hold hold' hp hp'
    · exact absurd hp'.1 (Nat.not_le.mpr (hbelow s j m p hold hp))
    · exact absurd hp.1 (Nat.not_le.mpr (hbelow s' j' m' p hold' hp'))
    · exact ⟨rfl, rfl, rfl⟩

/-- The buddy of a block lies at the head of a block that is not larger, unless it
lies behind the end. -/
theorem buddy_head (h : Tiling total B) {t : ι} (hblock : B t i k) (hlt : i ^^^ 2 ^ k < total) :
    ∃ t' k', B t' (i ^^^ 2 ^ k) k' ∧ k' ≤ k := by
  obtain ⟨t', i', k', hblock', hcovers⟩ := h.cover _ hlt
  have haligned := h.aligned t i k hblock
  have haligned' := h.aligned t' i' k' hblock'
  have hpair : (i ^^^ 2 ^ k) / 2 ^ (k + 1) = i / 2 ^ (k + 1) ∧ 2 ^ k ∣ i ^^^ 2 ^ k := by
    rcases buddy_cases haligned with ⟨hdvd, hxor⟩ | ⟨hle, hdvd, hxor⟩
    · rw [hxor]
      refine ⟨(covers_iff_div hdvd _).mp ?_, Nat.dvd_add haligned (Nat.dvd_refl _)⟩
      exact (covers_succ_iff ..).mpr (Or.inr (covers_self ..))
    · rw [hxor]
      refine ⟨((covers_iff_div hdvd i).mp ?_).symm, Nat.dvd_sub haligned (Nat.dvd_refl _)⟩
      refine (covers_succ_iff ..).mpr (Or.inr ?_)
      rw [Nat.sub_add_cancel hle]
      exact covers_self i k
  by_cases hk : k' ≤ k
  · -- the buddy is aligned to the smaller block that covers it, so it is its head
    have hdvd : 2 ^ k' ∣ i ^^^ 2 ^ k := Nat.dvd_trans (Nat.pow_dvd_pow 2 hk) hpair.2
    rw [head_eq hdvd haligned' (covers_self ..) hcovers]
    exact ⟨t', k', hblock', hk⟩
  · -- a larger block that covers the buddy covers the block itself
    have hcovers' : Covers i' k' i := by
      rw [covers_iff_div haligned'] at hcovers ⊢
      obtain ⟨d, rfl⟩ : ∃ d, k' = k + 1 + d := ⟨k' - (k + 1), by omega⟩
      rw [Nat.pow_add, ← Nat.div_div_eq_div_mul, ← hpair.1, Nat.div_div_eq_div_mul, ← Nat.pow_add]
      exact hcovers
    obtain ⟨-, -, rfl⟩ := h.unique _ _ _ _ _ _ i hblock hblock' (covers_self i k) hcovers'
    exact absurd (Nat.le_refl k) hk

end Tiling

/-! ## Coalescing -/

/-- No two buddies of an order below `top` are among the blocks `F`. -/
def Coalesced (top : Nat) (F : Nat → Nat → Prop) : Prop :=
  ∀ i k, k < top → F i k → ¬ F (i ^^^ 2 ^ k) k

namespace Coalesced

variable {top i k : Nat} {F F' : Nat → Nat → Prop}

/-- Fewer blocks. -/
theorem anti (h : Coalesced top F) (hF' : ∀ j m, F' j m → F j m) : Coalesced top F' :=
  fun j m hm hblock hbuddy => h j m hm (hF' j m hblock) (hF' _ m hbuddy)

/-- One more block, whose buddy is not there. -/
theorem insert (h : Coalesced top F) (hbuddy : k < top → ¬ F (i ^^^ 2 ^ k) k)
    (hF' : ∀ j m, F' j m → F j m ∨ (j = i ∧ m = k)) : Coalesced top F' := by
  intro j m hm hblock hother
  rcases hF' j m hblock with hold | ⟨rfl, rfl⟩ <;> rcases hF' _ m hother with hold' | ⟨hj, hm'⟩
  · exact h j m hm hold hold'
  · subst hm'
    refine hbuddy hm ?_
    rw [← hj, Nat.xor_assoc, Nat.xor_self, Nat.xor_zero]
    exact hold
  · exact hbuddy hm hold'
  · exact xor_two_pow_ne j m hj

end Coalesced

namespace Tiling

variable {ι : Type} {total top i k : Nat} {B B' : ι → Nat → Nat → Prop} {t t' : ι}

/-- Where coalesced blocks cover an aligned range of at most the top size, one of them
covers all of it. -/
theorem exists_large (h : Tiling total B) (hcoalesced : Coalesced top (B t)) (hk : k ≤ top)
    (hdvd : 2 ^ k ∣ i) (hcover : ∀ p, Covers i k p → ∃ j m, B t j m ∧ Covers j m p) :
    ∃ j m, B t j m ∧ k ≤ m ∧ Covers j m i := by
  induction k generalizing i with
  | zero =>
    obtain ⟨j, m, hblock, hcovers⟩ := hcover i (covers_self i 0)
    exact ⟨j, m, hblock, Nat.zero_le m, hcovers⟩
  | succ k ih =>
    have hlower : 2 ^ k ∣ i := Nat.dvd_trans (Nat.pow_dvd_pow 2 (Nat.le_succ k)) hdvd
    have hupper : 2 ^ k ∣ i + 2 ^ k := Nat.dvd_add hlower (Nat.dvd_refl _)
    have hhalves := covers_succ_iff i k
    obtain ⟨j, m, hblock, hm, hcovers⟩ := ih (Nat.le_of_succ_le hk) hlower
      fun p hp => hcover p ((hhalves p).mpr (Or.inl hp))
    obtain ⟨j', m', hblock', hm', hcovers'⟩ := ih (Nat.le_of_succ_le hk) hupper
      fun p hp => hcover p ((hhalves p).mpr (Or.inr hp))
    by_cases hlarge : k + 1 ≤ m
    · exact ⟨j, m, hblock, hlarge, hcovers⟩
    by_cases hlarge' : k + 1 ≤ m'
    · refine ⟨j', m', hblock', hlarge', ?_⟩
      exact covers_of_le hdvd (h.aligned t j' m' hblock') hlarge'
        ((hhalves _).mpr (Or.inr (covers_self ..))) (covers_self ..) hcovers'
    -- two blocks of half the size are the two halves, which are buddies
    obtain rfl : m = k := by omega
    obtain rfl : m' = m := by omega
    obtain rfl := head_eq hlower (h.aligned t j m' hblock) (covers_self ..) hcovers
    obtain rfl := head_eq hupper (h.aligned t j' m' hblock') (covers_self ..) hcovers'
    rw [← xor_two_pow_of_dvd hdvd] at hblock'
    exact absurd hblock' (hcoalesced i m' hk hblock)

/-- Coalesced blocks of one holder that cover everything are the only such blocks. -/
theorem block_of_coalesced (h : Tiling total B) (h' : Tiling total B')
    (hcoalesced : Coalesced top (B t)) (hcoalesced' : Coalesced top (B' t'))
    (hbound : ∀ j m, B t j m → m ≤ top) (hbound' : ∀ j m, B' t' j m → m ≤ top)
    (hcover : ∀ p < total, ∃ j m, B t j m ∧ Covers j m p)
    (hcover' : ∀ p < total, ∃ j m, B' t' j m ∧ Covers j m p) (hblock : B t i k) : B' t' i k := by
  have haligned := h.aligned t i k hblock
  have hinside := h.inside t i k hblock
  obtain ⟨j, m, hlarge, hle, hcovers⟩ := h'.exists_large hcoalesced' (hbound i k hblock) haligned
    fun p hp => hcover' p (Nat.lt_of_lt_of_le hp.2 hinside)
  have haligned' := h'.aligned t' j m hlarge
  have hinside' := h'.inside t' j m hlarge
  obtain ⟨j', m', hlarger, hle', hcovers'⟩ := h.exists_large hcoalesced (hbound' j m hlarge)
    haligned' fun p hp => hcover p (Nat.lt_of_lt_of_le hp.2 hinside')
  -- the block found on the way back covers the one at the start, so all three are one
  have hback := covers_of_le haligned' (h.aligned t j' m' hlarger) hle' (covers_self j m) hcovers
    hcovers'
  obtain ⟨-, rfl, rfl⟩ := h.unique _ _ _ _ _ _ i hblock hlarger (covers_self i k) hback
  obtain rfl : k = m := Nat.le_antisymm hle hle'
  rw [head_eq haligned haligned' (covers_self i k) hcovers]
  exact hlarge

end Tiling

end Veloq.Foundation.Dyadic
