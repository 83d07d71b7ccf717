import Mathlib.Data.List.Basic
set_option autoImplicit false

/-!
# Foundation: singly linked chains

`Chain next head keys`: following `next` from `head` visits exactly `keys` and
ends.  `next k = none` means that `k` is not stored at all, `next k = some none`
that it is the last node of its list.  A chain reads only the nodes it visits, so
it survives every change elsewhere.
-/

namespace Veloq.Foundation

variable {Key : Type}

/-- The list that starts at `head` consists of `keys`, in this order. -/
def Chain (next : Key → Option (Option Key)) : Option Key → List Key → Prop
  | none, [] => True
  | some k, k' :: keys => k = k' ∧ ∃ rest, next k = some rest ∧ Chain next rest keys
  | none, _ :: _ => False
  | some _, [] => False

/-- The first nodes, at most `fuel` of them, that `next` leads through from `head`. -/
def follow (next : Key → Option (Option Key)) : Nat → Option Key → List Key
  | 0, _ => []
  | _ + 1, none => []
  | fuel + 1, some k =>
      match next k with
      | none => [k]
      | some rest => k :: follow next fuel rest

namespace Chain

variable {next next' : Key → Option (Option Key)} {head rest : Option Key} {k : Key}
  {keys : List Key}

theorem nil : Chain next none [] := trivial

theorem cons (hk : next k = some rest) (h : Chain next rest keys) :
    Chain next (some k) (k :: keys) :=
  ⟨rfl, rest, hk, h⟩

theorem nil_of_none (h : Chain next none keys) : keys = [] := by
  cases keys with
  | nil => rfl
  | cons k keys => exact absurd h id

/-- A chain that starts at a node has this node first. -/
theorem exists_of_some (h : Chain next (some k) keys) :
    ∃ rest tail, keys = k :: tail ∧ next k = some rest ∧ Chain next rest tail := by
  cases keys with
  | nil => exact absurd h id
  | cons k' tail =>
    obtain ⟨rfl, rest, hk, htail⟩ := h
    exact ⟨rest, tail, rfl, hk, htail⟩

/-- Every visited node is stored. -/
theorem stored (h : Chain next head keys) : ∀ k ∈ keys, next k ≠ none := by
  induction keys generalizing head with
  | nil => exact fun k hk => absurd hk (List.not_mem_nil)
  | cons k' tail ih =>
    cases head with
    | none => exact absurd h id
    | some k =>
      obtain ⟨rfl, rest, hk, htail⟩ := h
      intro j hj
      rcases List.mem_cons.mp hj with rfl | hj
      · rw [hk]
        exact Option.some_ne_none rest
      · exact ih htail j hj

/-- Only the visited nodes matter. -/
theorem congr (h : Chain next head keys) (heq : ∀ k ∈ keys, next' k = next k) :
    Chain next' head keys := by
  induction keys generalizing head with
  | nil =>
    cases head with
    | none => exact nil
    | some k => exact absurd h id
  | cons k' tail ih =>
    cases head with
    | none => exact absurd h id
    | some k =>
      obtain ⟨rfl, rest, hk, htail⟩ := h
      refine cons ?_ (ih htail fun j hj => heq j (List.mem_cons_of_mem _ hj))
      rw [heq k (List.mem_cons_self ..)]
      exact hk

/-- A chain without a head is empty, and only such a chain is. -/
theorem head_isSome_iff (h : Chain next head keys) : head.isSome = true ↔ keys ≠ [] := by
  cases head with
  | none => simp [nil_of_none h]
  | some k =>
    obtain ⟨_, tail, rfl, _⟩ := exists_of_some h
    simp

/-- Two nodes that lead to each other are on no chain. -/
theorem false_of_cycle {j : Key} (hk : next k = some (some j)) (hj : next j = some (some k))
    (h : Chain next (some k) keys) : False := by
  induction keys generalizing k j with
  | nil => exact h
  | cons k' tail ih =>
    obtain ⟨rfl, rest, hrest, htail⟩ := h
    rw [hk] at hrest
    obtain rfl := Option.some.inj hrest
    exact ih hj hk htail

/-- With enough fuel the walk visits the whole chain. -/
theorem follow_eq (h : Chain next head keys) {fuel : Nat} (hfuel : keys.length ≤ fuel) :
    follow next fuel head = keys := by
  induction keys generalizing head fuel with
  | nil =>
    cases head with
    | none => cases fuel <;> rfl
    | some k => exact absurd h id
  | cons k' tail ih =>
    cases head with
    | none => exact absurd h id
    | some k =>
      obtain ⟨rfl, rest, hk, htail⟩ := h
      cases fuel with
      | zero => exact absurd hfuel (by simp)
      | succ fuel =>
        simp only [follow, hk]
        rw [ih htail (Nat.le_of_succ_le_succ hfuel)]

end Chain

end Veloq.Foundation
