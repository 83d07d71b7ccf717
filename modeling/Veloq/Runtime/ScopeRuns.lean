import Mathlib.Tactic.Common
import Veloq.Runtime.Scope
set_option autoImplicit false

/-!
# Runtime: which spawns settle their obligation once

The spawn paths branch on finitely many results; the place of a panic matters only up to
the length of the job.
-/

namespace Veloq.Runtime.Scope

open Foundation

/-! ## Deciding a spawn -/

instance (spawn : Spawn) : Decidable (SettledOnce spawn) :=
  decidable_of_iff
    (spawn.run.runEntry.count .settleTask = spawn.run.count .registerTask ∧
      (spawn.run.entries = 0 → spawn.run.count .settleTask = spawn.run.count .registerTask) ∧
      spawn.run.unacknowledged = false)
    ⟨fun h => ⟨h.1, h.2.1, h.2.2⟩, fun h => ⟨h.total, h.settled, h.acknowledged⟩⟩

/-- A panic after the last action is a panic after all of them. -/
theorem runRouted_of_le (s : Spawning) {actions : List (Spawning → Spawning)} {k : Nat}
    (hk : actions.length ≤ k) :
    s.runRouted actions (some k) = s.runRouted actions (some actions.length) := by
  simp only [Spawning.runRouted]
  rw [List.take_of_length_le hk, List.take_of_length_le (Nat.le_refl _)]

/-- The job of `spawn_to` has at most six actions. -/
theorem run_spawnTo_of_le (task : TaskState) (valid routed cancelled full : Bool) {k : Nat}
    (hk : 6 ≤ k) :
    (Spawn.spawnTo task valid routed cancelled full (some k)).run =
      (Spawn.spawnTo task valid routed cancelled full (some 6)).run := by
  have hlength : (spawnToJob valid cancelled full).length ≤ 6 := by
    unfold spawnToJob
    split
    · decide
    · exact Nat.le_refl 6
  unfold Spawn.run
  simp only [runRouted_of_le _ (Nat.le_trans hlength hk), runRouted_of_le _ hlength]

/-- The job of `spawn_boxed_to` has at most nine actions. -/
theorem run_spawnBoxedTo_of_le
    (valid jobAlloc routed cancelled cancelledLater nodeAlloc full : Bool) {k : Nat} (hk : 9 ≤ k) :
    (Spawn.spawnBoxedTo valid jobAlloc routed cancelled cancelledLater nodeAlloc full (some k)).run =
      (Spawn.spawnBoxedTo valid jobAlloc routed cancelled cancelledLater nodeAlloc full
        (some 9)).run := by
  have hlength :
      (spawnBoxedToJob valid cancelled cancelledLater nodeAlloc full).length ≤ 9 := by
    unfold spawnBoxedToJob
    split
    · decide
    · split
      · decide
      · split
        · decide
        · exact Nat.le_refl 9
  unfold Spawn.run
  simp only [runRouted_of_le _ (Nat.le_trans hlength hk), runRouted_of_le _ hlength]

instance (limit : Nat) (panic : Option Nat) : Decidable (PanicsBy limit panic) :=
  match panic with
  | none => isTrue trivial
  | some k => inferInstanceAs (Decidable (k ≤ limit))

instance (spawn : Spawn) : Decidable (Careful spawn) :=
  match spawn with
  | .taskLocal task valid full =>
      inferInstanceAs (Decidable (task = .fresh ∧ valid = true ∧ full = false))
  | .taskSend task valid => inferInstanceAs (Decidable (task = .fresh ∧ valid = true))
  | .boxedLocal alloc valid full =>
      inferInstanceAs (Decidable (alloc = false ∨ valid = true ∧ full = false))
  | .boxedSend alloc valid => inferInstanceAs (Decidable (alloc = false ∨ valid = true))
  | .spawnTo task valid routed cancelled full none =>
      inferInstanceAs (Decidable (valid = false ∨ routed = false ∨
        if cancelled then PanicsBy 1 none
        else task = .fresh ∧ full = false ∨ task = .completed false))
  | .spawnTo task valid routed cancelled _ (some k) =>
      inferInstanceAs (Decidable (valid = false ∨ routed = false ∨
        if cancelled then PanicsBy 1 (some k)
        else k ≤ 3 ∨ task = .completed true ∨ task = .completed false ∧ k = 4))
  | .spawnBoxedTo valid jobAlloc routed cancelled cancelledLater nodeAlloc full none =>
      inferInstanceAs (Decidable (valid = false ∨ jobAlloc = false ∨ routed = false ∨
        if cancelled then PanicsBy 2 none
        else if cancelledLater then PanicsBy 4 none
        else if !nodeAlloc then PanicsBy 5 none
        else full = false))
  | .spawnBoxedTo valid jobAlloc routed cancelled cancelledLater nodeAlloc _ (some k) =>
      inferInstanceAs (Decidable (valid = false ∨ jobAlloc = false ∨ routed = false ∨
        if cancelled then PanicsBy 2 (some k)
        else if cancelledLater then PanicsBy 4 (some k)
        else if !nodeAlloc then PanicsBy 5 (some k)
        else k ≤ 6))

/-- What a spawn leaves: nothing, a live task, or a settled one. -/
def Balanced (s : Spawning) : Prop :=
  s.calls = [] ∧ s.entries = 0 ∨ s.calls = [.registerTask] ∧ s.entries = 1 ∨
    s.calls = [.registerTask, .settleTask] ∧ s.entries = 0

instance (s : Spawning) : Decidable (Balanced s) :=
  inferInstanceAs (Decidable (_ ∨ _ ∨ _))

/-- The careful spawns are the ones that settle once, and they leave the scope balanced. -/
def Judged (spawn : Spawn) : Prop :=
  (SettledOnce spawn ↔ Careful spawn) ∧ (Careful spawn → Balanced spawn.run)

instance (spawn : Spawn) : Decidable (Judged spawn) :=
  inferInstanceAs (Decidable (_ ∧ _))

theorem Judged.congr {spawn spawn' : Spawn} (hrun : spawn.run = spawn'.run)
    (hcareful : Careful spawn ↔ Careful spawn') (h : Judged spawn') : Judged spawn := by
  have hsettled : SettledOnce spawn ↔ SettledOnce spawn' := by
    constructor
    · rintro ⟨htotal, hsettled, hack⟩
      rw [hrun] at htotal hsettled hack
      exact ⟨htotal, hsettled, hack⟩
    · rintro ⟨htotal, hsettled, hack⟩
      rw [← hrun] at htotal hsettled hack
      exact ⟨htotal, hsettled, hack⟩
  refine ⟨hsettled.trans (h.1.trans hcareful.symm), fun hc => ?_⟩
  rw [hrun]
  exact h.2 (hcareful.mp hc)

/-! ## The paths one by one -/

/-- The paths that run no routed job, and those of a job that does not panic. -/
theorem judged_unrouted :
    (∀ task valid full, Judged (.taskLocal task valid full)) ∧
      (∀ task valid, Judged (.taskSend task valid)) ∧
      (∀ alloc valid full, Judged (.boxedLocal alloc valid full)) ∧
      (∀ alloc valid, Judged (.boxedSend alloc valid)) ∧
      (∀ task valid routed cancelled full,
        Judged (.spawnTo task valid routed cancelled full none)) ∧
      ∀ valid jobAlloc routed cancelled cancelledLater nodeAlloc full,
        Judged
          (.spawnBoxedTo valid jobAlloc routed cancelled cancelledLater nodeAlloc full none) := by
  refine ⟨?_, ?_, ?_, ?_, ?_, ?_⟩
  · rintro (_ | _ | _) <;> decide +kernel
  · rintro (_ | _ | _) <;> decide +kernel
  · decide +kernel
  · decide +kernel
  · rintro (_ | _ | _) <;> decide +kernel
  · decide +kernel

/-- A panic within the job, at each of its places. -/
theorem judged_panic_lt :
    (∀ task, ∀ k < 7, ∀ valid routed cancelled full,
      Judged (.spawnTo task valid routed cancelled full (some k))) ∧
      ∀ k < 10, ∀ valid jobAlloc routed cancelled cancelledLater nodeAlloc full,
        Judged
          (.spawnBoxedTo valid jobAlloc routed cancelled cancelledLater nodeAlloc full
            (some k)) := by
  refine ⟨?_, ?_⟩
  · rintro (_ | _ | _) <;> decide +kernel
  · decide +kernel

/-- From the end of the job on, the place of the panic does not matter. -/
theorem careful_spawnTo_of_le (task : TaskState) (valid routed cancelled full : Bool) {k : Nat}
    (hk : 6 ≤ k) :
    Careful (.spawnTo task valid routed cancelled full (some k)) ↔
      Careful (.spawnTo task valid routed cancelled full (some 6)) := by
  simp only [Careful, PanicsBy]
  refine or_congr Iff.rfl (or_congr Iff.rfl ?_)
  split
  · exact ⟨fun h => by omega, fun h => by omega⟩
  · refine ⟨fun h => ?_, fun h => ?_⟩
    · rcases h with h | h | h
      · omega
      · exact Or.inr (Or.inl h)
      · omega
    · rcases h with h | h | h
      · omega
      · exact Or.inr (Or.inl h)
      · omega

theorem judged_spawnTo (task : TaskState) (valid routed cancelled full : Bool)
    (panic : Option Nat) : Judged (.spawnTo task valid routed cancelled full panic) := by
  cases panic with
  | none => exact judged_unrouted.2.2.2.2.1 task valid routed cancelled full
  | some k =>
    rcases Nat.lt_or_ge k 7 with hk | hk
    · exact judged_panic_lt.1 task k hk valid routed cancelled full
    · have hle : 6 ≤ k := by omega
      exact (judged_panic_lt.1 task 6 (by decide) valid routed cancelled full).congr
        (run_spawnTo_of_le task valid routed cancelled full hle)
        (careful_spawnTo_of_le task valid routed cancelled full hle)

theorem careful_spawnBoxedTo_of_le
    (valid jobAlloc routed cancelled cancelledLater nodeAlloc full : Bool) {k : Nat} (hk : 9 ≤ k) :
    Careful (.spawnBoxedTo valid jobAlloc routed cancelled cancelledLater nodeAlloc full (some k)) ↔
      Careful
        (.spawnBoxedTo valid jobAlloc routed cancelled cancelledLater nodeAlloc full (some 9)) := by
  simp only [Careful, PanicsBy]
  refine or_congr Iff.rfl (or_congr Iff.rfl (or_congr Iff.rfl ?_))
  split
  · exact ⟨fun h => by omega, fun h => by omega⟩
  · split
    · exact ⟨fun h => by omega, fun h => by omega⟩
    · split
      · exact ⟨fun h => by omega, fun h => by omega⟩
      · exact ⟨fun h => by omega, fun h => by omega⟩

theorem judged_spawnBoxedTo
    (valid jobAlloc routed cancelled cancelledLater nodeAlloc full : Bool) (panic : Option Nat) :
    Judged
      (.spawnBoxedTo valid jobAlloc routed cancelled cancelledLater nodeAlloc full panic) := by
  cases panic with
  | none =>
    exact judged_unrouted.2.2.2.2.2 valid jobAlloc routed cancelled cancelledLater nodeAlloc full
  | some k =>
    rcases Nat.lt_or_ge k 10 with hk | hk
    · exact judged_panic_lt.2 k hk valid jobAlloc routed cancelled cancelledLater nodeAlloc full
    · have hle : 9 ≤ k := by omega
      exact (judged_panic_lt.2 9 (by decide) valid jobAlloc routed cancelled cancelledLater
        nodeAlloc full).congr
        (run_spawnBoxedTo_of_le valid jobAlloc routed cancelled cancelledLater nodeAlloc full hle)
        (careful_spawnBoxedTo_of_le valid jobAlloc routed cancelled cancelledLater nodeAlloc full hle)

theorem judged (spawn : Spawn) : Judged spawn := by
  cases spawn with
  | taskLocal task valid full => exact judged_unrouted.1 task valid full
  | taskSend task valid => exact judged_unrouted.2.1 task valid
  | boxedLocal alloc valid full => exact judged_unrouted.2.2.1 alloc valid full
  | boxedSend alloc valid => exact judged_unrouted.2.2.2.1 alloc valid
  | spawnTo task valid routed cancelled full panic =>
    exact judged_spawnTo task valid routed cancelled full panic
  | spawnBoxedTo valid jobAlloc routed cancelled cancelledLater nodeAlloc full panic =>
    exact judged_spawnBoxedTo valid jobAlloc routed cancelled cancelledLater nodeAlloc full panic

/-! ## Whole scopes -/

/-- The states of a scope reached by allowed events. -/
abbrev Reached (allowed : ScopeState → ScopeEvent → Prop) : ScopeState → Prop :=
  Run ScopeStep allowed (· = ⟨0, 0⟩)

/-- A balanced spawn raises `remaining` by the tasks it leaves. -/
theorem Balanced.remaining {s : Spawning} (h : Balanced s) (n : Nat) :
    s.calls.foldl ScopeCall.apply n = n + s.entries := by
  rcases h with ⟨hcalls, hentries⟩ | ⟨hcalls, hentries⟩ | ⟨hcalls, hentries⟩
  · rw [hcalls, hentries]
    rfl
  · rw [hcalls, hentries]
    rfl
  · rw [hcalls, hentries]
    exact Nat.add_sub_cancel n 1

/-- `remaining` counts the live tasks. -/
def ScopeState.Exact (s : ScopeState) : Prop := s.remaining = s.live

theorem ScopeState.Exact.step {s s' : ScopeState} {e : ScopeEvent} (h : s.Exact)
    (hcareful : CarefulEvent s e) (hs : ScopeStep s e s') : s'.Exact := by
  unfold ScopeState.Exact at h
  unfold ScopeStep at hs
  cases e with
  | spawn path =>
    obtain rfl := Option.some.inj hs
    show path.run.calls.foldl ScopeCall.apply s.remaining = s.live + path.run.entries
    rw [((judged path).2 hcareful).remaining, h]
  | finish =>
    simp only [ScopeState.step] at hs
    split at hs
    · cases hs
    · rename_i n hlive
      obtain rfl := Option.some.inj hs
      show s.remaining - 1 = n
      rw [h, hlive]
      rfl

end Veloq.Runtime.Scope
