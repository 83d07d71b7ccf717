import Mathlib.Data.Finset.Card
set_option autoImplicit false

/-!
# Foundation: counting the members of a family

A counter that is raised when a member of a family begins to have some property and
lowered when one ceases to.  `Census p n`: exactly `n` members have the property `p`.
`Backed debit credit n m`: `n` and the debtors together are at most `m` and the creditors.
-/

namespace Veloq.Foundation

variable {ι : Type}

/-- Exactly `n` members satisfy `p`. -/
def Census (p : ι → Prop) (n : Nat) : Prop :=
  ∃ members : Finset ι, (∀ i, i ∈ members ↔ p i) ∧ members.card = n

namespace Census

variable {p q : ι → Prop} {n : Nat} {i : ι}

theorem zero (h : ∀ i, ¬ p i) : Census p 0 :=
  ⟨∅, fun i => ⟨fun hi => absurd hi (by simp), fun hi => absurd hi (h i)⟩, rfl⟩

theorem congr (h : Census p n) (hiff : ∀ i, q i ↔ p i) : Census q n := by
  obtain ⟨members, hmem, hcard⟩ := h
  exact ⟨members, fun i => (hmem i).trans (hiff i).symm, hcard⟩

/-- A counter above zero has a member behind it. -/
theorem exists_of_pos (h : Census p n) (hpos : 0 < n) : ∃ i, p i := by
  obtain ⟨members, hmem, hcard⟩ := h
  obtain ⟨i, hi⟩ := Finset.card_pos.mp (hcard ▸ hpos)
  exact ⟨i, (hmem i).mp hi⟩

theorem pos (h : Census p n) (hi : p i) : 0 < n := by
  obtain ⟨members, hmem, hcard⟩ := h
  rw [← hcard]
  exact Finset.card_pos.mpr ⟨i, (hmem i).mpr hi⟩

theorem eq_of_le_one {j : ι} (h : Census p n) (hn : n ≤ 1) (hi : p i) (hj : p j) : i = j := by
  obtain ⟨members, hmem, hcard⟩ := h
  exact Finset.card_le_one.mp (hcard ▸ hn) i ((hmem i).mpr hi) j ((hmem j).mpr hj)

variable [DecidableEq ι]

/-- One more member. -/
theorem join (h : Census p n) (hnot : ¬ p i) (hiff : ∀ j, q j ↔ j = i ∨ p j) :
    Census q (n + 1) := by
  obtain ⟨members, hmem, hcard⟩ := h
  refine ⟨insert i members, fun j => ?_, ?_⟩
  · rw [Finset.mem_insert, hmem, hiff]
  · rw [Finset.card_insert_of_notMem fun hi => hnot ((hmem i).mp hi), hcard]

/-- One member less. -/
theorem leave (h : Census p n) (hi : p i) (hiff : ∀ j, q j ↔ j ≠ i ∧ p j) :
    Census q (n - 1) := by
  obtain ⟨members, hmem, hcard⟩ := h
  refine ⟨members.erase i, fun j => ?_, ?_⟩
  · rw [Finset.mem_erase, hmem, hiff]
  · rw [Finset.card_erase_of_mem ((hmem i).mpr hi), hcard]

end Census

/-- One member changes, and the number with it. -/
theorem Census.update [DecidableEq ι] {σ : Type} {state : ι → σ} {p : σ → Bool} {n : Nat}
    (h : Census (fun i => p (state i) = true) n) (i : ι) (a : σ) :
    ∃ m, Census (fun j => p (Function.update state i a j) = true) m ∧
      m + (p (state i)).toNat = n + (p a).toNat := by
  have hself : Function.update state i a i = a := Function.update_self ..
  have hother : ∀ j, j ≠ i → Function.update state i a j = state j :=
    fun j hj => Function.update_of_ne hj ..
  cases hp : p (state i) with
  | true =>
    have hpos := h.pos hp
    cases ha : p a with
    | true =>
      refine ⟨n, h.congr fun j => ?_, rfl⟩
      by_cases hj : j = i
      · rw [hj, hself, ha, hp]
      · rw [hother j hj]
    | false =>
      refine ⟨n - 1, h.leave hp fun j => ?_, Nat.sub_add_cancel hpos⟩
      by_cases hj : j = i
      · rw [hj, hself, ha]
        exact ⟨fun hf => absurd hf Bool.false_ne_true, fun hf => absurd rfl hf.1⟩
      · rw [hother j hj]
        exact ⟨fun hpj => ⟨hj, hpj⟩, And.right⟩
  | false =>
    cases ha : p a with
    | true =>
      refine ⟨n + 1, h.join (by rw [hp]; exact Bool.false_ne_true) fun j => ?_, rfl⟩
      by_cases hj : j = i
      · rw [hj, hself, ha]
        exact ⟨fun _ => .inl rfl, fun _ => rfl⟩
      · rw [hother j hj]
        exact ⟨.inr, fun hor => hor.resolve_left hj⟩
    | false =>
      refine ⟨n, h.congr fun j => ?_, rfl⟩
      by_cases hj : j = i
      · rw [hj, hself, ha, hp]
      · rw [hother j hj]

/-- Where only the first `k` can be members there are at most `k`. -/
theorem Census.le {p : Nat → Prop} {n k : Nat} (h : Census p n) (hlt : ∀ i, p i → i < k) :
    n ≤ k := by
  obtain ⟨members, hmem, hcard⟩ := h
  rw [← hcard, ← Finset.card_range k]
  exact Finset.card_le_card fun i hi => Finset.mem_range.mpr (hlt i ((hmem i).mp hi))

/-- `n`, with one more for each debtor, is at most `m` with one more for each creditor. -/
def Backed (debit credit : ι → Prop) (n m : Nat) : Prop :=
  ∃ debtors creditors : Finset ι, (∀ i, debit i → i ∈ debtors) ∧ (∀ i ∈ creditors, credit i) ∧
    n + debtors.card ≤ m + creditors.card

namespace Backed

variable {debit debit' credit credit' : ι → Prop} {n n' m m' : Nat} {i j : ι}

theorem mono (h : Backed debit credit n m) (hdebit : ∀ i, debit' i → debit i)
    (hcredit : ∀ i, credit i → credit' i) (hm : m ≤ m') : Backed debit' credit' n m' := by
  obtain ⟨debtors, creditors, hd, hc, hle⟩ := h
  exact ⟨debtors, creditors, fun i hi => hd i (hdebit i hi), fun i hi => hcredit i (hc i hi),
    le_trans hle (Nat.add_le_add_right hm _)⟩

/-- What `m` makes up for alone needs no creditor. -/
theorem of_le (hle : n ≤ m) (hnone : ∀ i, ¬ debit i) : Backed debit credit n m :=
  ⟨∅, ∅, fun i hi => absurd hi (hnone i), fun i hi => absurd hi (Finset.notMem_empty i), by simpa⟩

/-- Less to make up for. -/
theorem fewer (h : Backed debit credit n m) (hn : n' ≤ n) : Backed debit credit n' m := by
  obtain ⟨debtors, creditors, hd, hc, hle⟩ := h
  exact ⟨debtors, creditors, hd, hc, le_trans (Nat.add_le_add_right hn _) hle⟩

theorem succ_iff : Backed debit credit (n + 1) (m + 1) ↔ Backed debit credit n m := by
  unfold Backed
  simp only [Nat.add_right_comm _ 1, Nat.add_le_add_iff_right]

/-- Without creditors there is nothing but `m` to rely on. -/
theorem le_of_no_credit (h : Backed debit credit n m) (hnone : ∀ i, ¬ credit i) : n ≤ m := by
  obtain ⟨debtors, creditors, -, hc, hle⟩ := h
  have hempty : creditors = ∅ :=
    Finset.eq_empty_of_forall_notMem fun i hi => hnone i (hc i hi)
  rw [hempty, Finset.card_empty] at hle
  omega

variable [DecidableEq ι]

/-- A new debtor is made up for by `m`. -/
theorem borrow (h : Backed debit credit n m) (i : ι) (hdebit : ∀ j, debit' j → j = i ∨ debit j)
    (hcredit : ∀ j, credit j → credit' j) : Backed debit' credit' n (m + 1) := by
  obtain ⟨debtors, creditors, hd, hc, hle⟩ := h
  refine ⟨insert i debtors, creditors, fun j hj => ?_, fun j hj => hcredit j (hc j hj), ?_⟩
  · exact Finset.mem_insert.mpr ((hdebit j hj).imp_right (hd j))
  · have hcard := Finset.card_insert_le i debtors
    omega

/-- A creditor leaves and pays into `m`. -/
theorem spend (h : Backed debit credit n m) (i : ι) (hdebit : ∀ j, debit' j → debit j)
    (hcredit : ∀ j, j ≠ i → credit j → credit' j) : Backed debit' credit' n (m + 1) := by
  obtain ⟨debtors, creditors, hd, hc, hle⟩ := h
  refine ⟨debtors, creditors.erase i, fun j hj => hd j (hdebit j hj), fun j hj => ?_, ?_⟩
  · obtain ⟨hne, hmem⟩ := Finset.mem_erase.mp hj
    exact hcredit j hne (hc j hmem)
  · have hcreditors := Finset.pred_card_le_card_erase (a := i) (s := creditors)
    omega

/-- A debtor that is a creditor at most leaves. -/
theorem repay (h : Backed debit credit n m) (hi : debit i)
    (hdebit : ∀ j, debit' j → j ≠ i ∧ debit j) (hcredit : ∀ j, j ≠ i → credit j → credit' j) :
    Backed debit' credit' n m := by
  obtain ⟨debtors, creditors, hd, hc, hle⟩ := h
  refine ⟨debtors.erase i, creditors.erase i, fun j hj => ?_, fun j hj => ?_, ?_⟩
  · exact Finset.mem_erase.mpr ⟨(hdebit j hj).1, hd j (hdebit j hj).2⟩
  · obtain ⟨hne, hmem⟩ := Finset.mem_erase.mp hj
    exact hcredit j hne (hc j hmem)
  · have hdebtors := Finset.card_erase_add_one (hd i hi)
    have hcreditors := Finset.pred_card_le_card_erase (a := i) (s := creditors)
    omega

/-- A new creditor makes up for one less in `m`. -/
theorem lend (h : Backed debit credit n (m + 1)) (hi : ¬ credit i) (hi' : credit' i)
    (hdebit : ∀ j, debit' j → debit j) (hcredit : ∀ j, credit j → credit' j) :
    Backed debit' credit' n m := by
  obtain ⟨debtors, creditors, hd, hc, hle⟩ := h
  refine ⟨debtors, insert i creditors, fun j hj => hd j (hdebit j hj), fun j hj => ?_, ?_⟩
  · rcases Finset.mem_insert.mp hj with rfl | hmem
    · exact hi'
    · exact hcredit j (hc j hmem)
  · rw [Finset.card_insert_of_notMem fun hmem => hi (hc i hmem)]
    omega

/-- The credit of `i` passes to `j`. -/
theorem pass (h : Backed debit credit n m) (hj : ¬ credit j) (hj' : credit' j)
    (hdebit : ∀ k, debit' k → debit k) (hcredit : ∀ k, k ≠ i → credit k → credit' k) :
    Backed debit' credit' n m := by
  obtain ⟨debtors, creditors, hd, hc, hle⟩ := h
  refine ⟨debtors, insert j (creditors.erase i), fun k hk => hd k (hdebit k hk), fun k hk => ?_, ?_⟩
  · rcases Finset.mem_insert.mp hk with rfl | hmem
    · exact hj'
    · obtain ⟨hne, hmem⟩ := Finset.mem_erase.mp hmem
      exact hcredit k hne (hc k hmem)
  · have hnot : j ∉ creditors.erase i := fun hmem => hj (hc j (Finset.mem_of_mem_erase hmem))
    rw [Finset.card_insert_of_notMem hnot]
    have hcreditors := Finset.pred_card_le_card_erase (a := i) (s := creditors)
    omega

end Backed

end Veloq.Foundation
