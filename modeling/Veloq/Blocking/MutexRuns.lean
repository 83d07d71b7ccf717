import Veloq.Blocking.Mutex
set_option autoImplicit false

/-!
# Blocking: the mutex is exclusive and strands nobody

The word is 0 exactly when no thread owns it; a thread that has only decremented it in
`unlock` still does.  While somebody is asleep the word is 2, or a thread is on the way that
has to wake one of the sleepers or to swap in the 2 again.
-/

namespace Veloq.Blocking

open Veloq.Foundation

namespace MutexPc

/-- The thread keeps the word from being 0. -/
def owns : MutexPc → Bool
  | holding | unlockSub _ | unlockStore _ => true
  | _ => false

/-- The thread is going to wake a sleeper or to announce it again. -/
def guards : MutexPc → Bool
  | unlockStore _ | unlockWake _ | swap _ => true
  | _ => false

theorem owns_of_holds {pc : MutexPc} (h : pc.holds = true) : pc.owns = true := by
  cases pc with
  | holding | unlockSub => rfl
  | idle | tryCas | lockCas | firstSwap | head | wait | asleep | swap | timedOutLoad
  | timedOutSwap | timedOutCheck | unlockStore | unlockWake => cases h

theorem eq_false_of_sleeping {pc : MutexPc} (h : pc.sleeping = true) :
    pc.owns = false ∧ pc.guards = false := by
  cases pc with
  | asleep => exact ⟨rfl, rfl⟩
  | idle | holding | tryCas | lockCas | firstSwap | head | wait | swap | timedOutLoad
  | timedOutSwap | timedOutCheck | unlockSub | unlockStore | unlockWake => cases h

end MutexPc

namespace Mutex

variable {s s' : Mutex} {t g : Nat} {pc : MutexPc} {word : UInt32}

structure Inv (s : Mutex) : Prop where
  free : s.state = 0 → ∀ t, (s.threads t).owns = false
  taken : s.state ≠ 0 → (s.state = 1 ∨ s.state = 2) ∧ ∃ t, (s.threads t).owns = true
  unique : ∀ t u, (s.threads t).owns = true → (s.threads u).owns = true → t = u
  asleep : ∀ t, t ∈ s.sleepers ↔ (s.threads t).sleeping = true
  guarded : s.sleepers ≠ [] → s.state = 2 ∨ ∃ t, (s.threads t).guards = true

theorem Inv.new : Inv new := by
  refine ⟨fun _ _ => rfl, fun h => absurd rfl h, fun t u h => ?_, fun t => ⟨fun h => ?_, fun h => ?_⟩,
    fun h => absurd rfl h⟩
  · cases h
  · cases h
  · cases h

/-- How a thread and the word may change together. -/
inductive Change (s : Mutex) (pc pc' : MutexPc) (word : UInt32) : Prop where
  /-- Whoever owns the word goes on to do so. -/
  | keep (howns : pc'.owns = pc.owns)
      (hword : word = s.state ∨ (s.state ≠ 0 ∧ (word = 1 ∨ word = 2)))
  | acquire (hfree : s.state = 0) (hpc' : pc'.owns = true) (hword : word = 1 ∨ word = 2)
  | release (hpc : pc.owns = true) (hpc' : pc'.owns = false) (hword : word = 0)

/-- One thread moves and the word changes. -/
def move (s : Mutex) (t : Nat) (pc : MutexPc) (word : UInt32) : Mutex :=
  { s.goto t pc with state := word }

theorem move_self (s : Mutex) (t : Nat) (pc : MutexPc) (word : UInt32) :
    (s.move t pc word).threads t = pc := Function.update_self ..

theorem move_of_ne (h : g ≠ t) : (s.move t pc word).threads g = s.threads g :=
  Function.update_of_ne h ..

/-! ## Who owns the word -/

theorem Inv.owners (h : s.Inv) (t : Nat) (pc : MutexPc) (word : UInt32)
    (hchange : Change s (s.threads t) pc word) :
    (word = 0 → ∀ u, ((s.move t pc word).threads u).owns = false) ∧
      (word ≠ 0 → (word = 1 ∨ word = 2) ∧ ∃ u, ((s.move t pc word).threads u).owns = true) ∧
      ∀ u v, ((s.move t pc word).threads u).owns = true →
        ((s.move t pc word).threads v).owns = true → u = v := by
  cases hchange with
  | keep howns hword =>
    have hsame : ∀ u, ((s.move t pc word).threads u).owns = (s.threads u).owns := by
      intro u
      by_cases hu : u = t
      · rw [hu, move_self, howns]
      · rw [move_of_ne hu]
    simp only [hsame]
    refine ⟨fun hzero => h.free ?_, fun hne => ?_, h.unique⟩
    · rcases hword with hword | ⟨-, hword | hword⟩
      · rw [← hword]
        exact hzero
      · rw [hword] at hzero
        exact absurd hzero (by decide)
      · rw [hword] at hzero
        exact absurd hzero (by decide)
    · rcases hword with hword | ⟨hne', hword⟩
      · rw [hword] at hne ⊢
        exact h.taken hne
      · exact ⟨hword, (h.taken hne').2⟩
  | acquire hfree hpc' hword =>
    have hother : ∀ u, ((s.move t pc word).threads u).owns = true → u = t := by
      intro u hu
      by_contra hne
      rw [move_of_ne hne, h.free hfree u] at hu
      cases hu
    refine ⟨fun hzero => ?_, fun _ => ⟨hword, t, by rw [move_self]; exact hpc'⟩,
      fun u v hu hv => (hother u hu).trans (hother v hv).symm⟩
    rcases hword with hword | hword
    · rw [hword] at hzero
      exact absurd hzero (by decide)
    · rw [hword] at hzero
      exact absurd hzero (by decide)
  | release hpc hpc' hword =>
    have hnone : ∀ u, ((s.move t pc word).threads u).owns = false := by
      intro u
      by_cases hu : u = t
      · rw [hu, move_self, hpc']
      · rw [move_of_ne hu, Bool.eq_false_iff]
        exact fun howns => hu (h.unique u t howns hpc)
    refine ⟨fun _ => hnone, fun hne => absurd hword hne, fun u _ hu => ?_⟩
    rw [hnone u] at hu
    cases hu

/-! ## The steps -/

/-- A thread that is awake moves and stays so. -/
theorem Inv.move (h : s.Inv) (hchange : Change s (s.threads t) pc word)
    (hawake : (s.threads t).sleeping = false) (hawake' : pc.sleeping = false)
    (hguard : word = 2 ∨ pc.guards = true ∨ s.sleepers = [] ∨
      (∃ u, u ≠ t ∧ (s.threads u).guards = true) ∨
      ((s.threads t).guards = false ∧ (s.state = 2 → word = 2))) : (s.move t pc word).Inv := by
  obtain ⟨hfree, htaken, hunique⟩ := h.owners t pc word hchange
  refine ⟨hfree, htaken, hunique, fun u => ?_, fun hne => ?_⟩
  · by_cases hu : u = t
    · subst hu
      rw [move_self, hawake', ← hawake]
      exact h.asleep u
    · rw [move_of_ne hu]
      exact h.asleep u
  · rcases hguard with hword | hpc | hnil | ⟨u, hu, hguards⟩ | ⟨hnot, hword⟩
    · exact .inl hword
    · exact .inr ⟨t, by rw [move_self]; exact hpc⟩
    · exact absurd hnil hne
    · exact .inr ⟨u, by rw [move_of_ne hu]; exact hguards⟩
    · refine (h.guarded hne).imp hword ?_
      rintro ⟨u, hu⟩
      refine ⟨u, ?_⟩
      rw [move_of_ne]
      · exact hu
      · rintro rfl
        rw [hnot] at hu
        cases hu

/-- A thread moves, and neither the word nor its part in it changes. -/
theorem Inv.goto (h : s.Inv) (howns : pc.owns = (s.threads t).owns)
    (hawake : (s.threads t).sleeping = false) (hawake' : pc.sleeping = false)
    (hguard : (s.threads t).guards = false) : (s.goto t pc).Inv :=
  h.move (.keep howns (.inl rfl)) hawake hawake' (.inr (.inr (.inr (.inr ⟨hguard, id⟩))))

theorem Inv.cas (h : s.Inv) {failed : UInt32 → MutexPc} (hpc : (s.threads t).owns = false)
    (hawake : (s.threads t).sleeping = false) (hguard : (s.threads t).guards = false)
    (hfailed : ∀ c, (failed c).owns = false ∧ (failed c).sleeping = false) :
    (s.cas t failed).Inv := by
  unfold Mutex.cas
  split
  · rename_i hzero
    refine h.move (.acquire hzero rfl (.inl rfl)) hawake rfl
      (.inr (.inr (.inr (.inr ⟨hguard, ?_⟩))))
    intro htwo
    rw [hzero] at htwo
    exact absurd htwo (by decide)
  · exact h.goto ((hfailed _).1.trans hpc.symm) hawake (hfailed _).2 hguard

theorem Inv.swapTwo (h : s.Inv) {failed : MutexPc} (hpc : (s.threads t).owns = false)
    (hawake : (s.threads t).sleeping = false)
    (hfailed : failed.owns = false ∧ failed.sleeping = false) : (s.swapTwo t failed).Inv := by
  unfold Mutex.swapTwo
  split
  · rename_i hzero
    exact h.move (.acquire hzero rfl (.inr rfl)) hawake rfl (.inl rfl)
  · rename_i hne
    exact h.move (.keep (hfailed.1.trans hpc.symm) (.inr ⟨hne, .inr rfl⟩)) hawake hfailed.2
      (.inl rfl)

/-- A thread falls asleep on the word 2. -/
theorem Inv.sleep (h : s.Inv) {timed : Bool} (hpc : (s.threads t).owns = false)
    (hword : s.state = 2) :
    Inv { s.goto t (.asleep timed) with sleepers := s.sleepers ++ [t] } := by
  obtain ⟨hfree, htaken, hunique⟩ :=
    h.owners t (.asleep timed) s.state (.keep hpc.symm (.inl rfl))
  refine ⟨hfree, htaken, hunique, fun u => ?_, fun _ => .inl hword⟩
  show u ∈ s.sleepers ++ [t] ↔ ((s.goto t (.asleep timed)).threads u).sleeping = true
  rw [List.mem_append, List.mem_singleton]
  by_cases hu : u = t
  · subst hu
    have hself : (s.goto u (.asleep timed)).threads u = .asleep timed := Function.update_self ..
    rw [hself]
    exact ⟨fun _ => rfl, fun _ => .inr rfl⟩
  · have hother : (s.goto t (.asleep timed)).threads u = s.threads u := Function.update_of_ne hu ..
    rw [hother, ← h.asleep u]
    exact or_iff_left hu

/-- A sleeper is woken, by a wake-up or without. -/
theorem Inv.awake (h : s.Inv) (hpc : (s.threads t).sleeping = true) (howns : pc.owns = false)
    (hawake : pc.sleeping = false) : (s.awake t pc).Inv := by
  have hnot := MutexPc.eq_false_of_sleeping hpc
  obtain ⟨hfree, htaken, hunique⟩ :=
    h.owners t pc s.state (.keep (howns.trans hnot.1.symm) (.inl rfl))
  have hother : ∀ u, u ≠ t → (s.awake t pc).threads u = s.threads u :=
    fun u hu => Function.update_of_ne hu ..
  have hself : (s.awake t pc).threads t = pc := Function.update_self ..
  have hmem : ∀ u, u ∈ (s.awake t pc).sleepers ↔ u ∈ s.sleepers ∧ u ≠ t := by
    intro u
    exact List.mem_filter.trans (and_congr_right fun _ => decide_eq_true_iff)
  refine ⟨hfree, htaken, hunique, fun u => ?_, fun hne => ?_⟩
  · rw [hmem]
    by_cases hu : u = t
    · subst hu
      rw [hself, hawake]
      exact ⟨fun hu => absurd rfl hu.2, fun hu => absurd hu Bool.false_ne_true⟩
    · rw [hother u hu, ← h.asleep u]
      exact and_iff_left hu
  · obtain ⟨u, hu⟩ := List.exists_mem_of_ne_nil _ hne
    refine (h.guarded (List.ne_nil_of_mem ((hmem u).mp hu).1)).imp_right ?_
    rintro ⟨v, hv⟩
    refine ⟨v, ?_⟩
    rw [hother v]
    · exact hv
    · rintro rfl
      rw [hnot.2] at hv
      cases hv

theorem top_eq (timed : Bool) : (top timed).owns = false ∧ (top timed).sleeping = false := by
  cases timed with
  | true => exact ⟨rfl, rfl⟩
  | false => exact ⟨rfl, rfl⟩

theorem unlocked_eq (bump : Bool) :
    (unlocked bump).owns = false ∧ (unlocked bump).sleeping = false := by
  cases bump with
  | true => exact ⟨rfl, rfl⟩
  | false => exact ⟨rfl, rfl⟩

theorem Inv.advance (h : s.Inv) (hs : s.advance t = some s') : s'.Inv := by
  unfold Mutex.advance at hs
  cases hpc : s.threads t with
  | idle | holding | asleep =>
    rw [hpc] at hs
    cases hs
  | tryCas =>
    rw [hpc] at hs
    cases hs
    exact h.cas (by rw [hpc]; rfl) (by rw [hpc]; rfl) (by rw [hpc]; rfl) fun _ => ⟨rfl, rfl⟩
  | lockCas timed =>
    rw [hpc] at hs
    cases hs
    refine h.cas (by rw [hpc]; rfl) (by rw [hpc]; rfl) (by rw [hpc]; rfl) fun c => ?_
    split
    · exact top_eq timed
    · exact ⟨rfl, rfl⟩
  | firstSwap timed | swap timed =>
    rw [hpc] at hs
    cases hs
    exact h.swapTwo (by rw [hpc]; rfl) (by rw [hpc]; rfl) (top_eq timed)
  | timedOutSwap =>
    rw [hpc] at hs
    cases hs
    exact h.swapTwo (by rw [hpc]; rfl) (by rw [hpc]; rfl) ⟨rfl, rfl⟩
  | head | timedOutCheck =>
    rw [hpc] at hs
    cases hs
    exact h.goto (by rw [hpc]; rfl) (by rw [hpc]; rfl) rfl (by rw [hpc]; rfl)
  | timedOutLoad =>
    rw [hpc] at hs
    cases hs
    split
    · exact h.goto (by rw [hpc]; rfl) (by rw [hpc]; rfl) rfl (by rw [hpc]; rfl)
    · exact h.goto (by rw [hpc]; rfl) (by rw [hpc]; rfl) rfl (by rw [hpc]; rfl)
  | wait timed =>
    rw [hpc] at hs
    dsimp only at hs
    split at hs
    · rename_i hword
      cases hs
      exact h.sleep (by rw [hpc]; rfl) hword
    · cases hs
      exact h.goto (by rw [hpc]; rfl) (by rw [hpc]; rfl) rfl (by rw [hpc]; rfl)
  | unlockSub bump =>
    have howns : (s.threads t).owns = true := by
      rw [hpc]
      rfl
    rw [hpc] at hs
    cases hs
    split
    · rename_i hone
      refine h.move (.release howns (unlocked_eq bump).1 ?_) (by rw [hpc]; rfl) (unlocked_eq bump).2
        (.inr (.inr (.inr (.inr ⟨by rw [hpc]; rfl, fun htwo => ?_⟩))))
      · rw [hone]
        rfl
      · rw [hone] at htwo
        exact absurd htwo (by decide)
    · rename_i hone
      have hne : s.state ≠ 0 := by
        intro hzero
        rw [h.free hzero t] at howns
        cases howns
      have htwo : s.state = 2 := (h.taken hne).1.resolve_left hone
      refine h.move (.keep (by rw [howns]; rfl) (.inr ⟨hne, .inl ?_⟩)) (by rw [hpc]; rfl) rfl
        (.inr (.inl rfl))
      rw [htwo]
      rfl
  | unlockStore bump =>
    rw [hpc] at hs
    cases hs
    exact h.move (.release (by rw [hpc]; rfl) rfl rfl) (by rw [hpc]; rfl) rfl (.inr (.inl rfl))
  | unlockWake bump =>
    rw [hpc] at hs
    dsimp only at hs
    split at hs
    · rename_i hnil
      cases hs
      refine h.move (.keep ?_ (.inl rfl)) (by rw [hpc]; rfl) (unlocked_eq bump).2
        (.inr (.inr (.inl hnil)))
      rw [hpc]
      exact (unlocked_eq bump).1
    · cases hs

/-- The wake-up of `unlock` makes the sleeper swap. -/
theorem Inv.wake (h : s.Inv) {bump timed : Bool} (ht : s.threads t = .unlockWake bump)
    (hg : s.threads g = .asleep timed) :
    ((s.awake g (.swap timed)).goto t (unlocked bump)).Inv := by
  have hne : t ≠ g := by
    rintro rfl
    rw [hg] at ht
    cases ht
  have hawake : (s.awake g (.swap timed)).Inv := h.awake (by rw [hg]; rfl) rfl rfl
  have ht' : (s.awake g (.swap timed)).threads t = .unlockWake bump :=
    (Function.update_of_ne hne ..).trans ht
  have hswap : (s.awake g (.swap timed)).threads g = .swap timed := Function.update_self ..
  have hunlocked := unlocked_eq bump
  refine hawake.move (.keep ?_ (.inl rfl)) (by rw [ht']; rfl) hunlocked.2
    (.inr (.inr (.inr (.inl ⟨g, hne.symm, by rw [hswap]; rfl⟩))))
  rw [ht']
  exact hunlocked.1

theorem Inv.step {e : Nat × MutexAction} (h : s.Inv) (hs : MutexStep s e s') : s'.Inv := by
  obtain ⟨t, action⟩ := e
  unfold MutexStep at hs
  cases action with
  | advance => exact h.advance hs
  | lock | tryLock | tryLockUntil | unlock | bump =>
    unfold Mutex.step at hs
    dsimp only at hs
    split at hs
    · rename_i hpc
      cases hs
      exact h.goto (by rw [hpc]; rfl) (by rw [hpc]; rfl) rfl (by rw [hpc]; rfl)
    · cases hs
  | wake g =>
    unfold Mutex.step at hs
    dsimp only at hs
    split at hs
    · rename_i ht hg
      cases hs
      exact h.wake ht hg
    · cases hs
  | timeout =>
    unfold Mutex.step at hs
    dsimp only at hs
    split at hs
    · rename_i hpc
      cases hs
      exact h.goto (by rw [hpc]; rfl) (by rw [hpc]; rfl) rfl (by rw [hpc]; rfl)
    · rename_i hpc
      cases hs
      exact h.goto (by rw [hpc]; rfl) (by rw [hpc]; rfl) rfl (by rw [hpc]; rfl)
    · rename_i hpc
      cases hs
      exact h.awake (by rw [hpc]; rfl) rfl rfl
    · cases hs
  | interrupt =>
    unfold Mutex.step at hs
    dsimp only at hs
    split at hs
    · rename_i hpc
      cases hs
      exact h.awake (by rw [hpc]; rfl) rfl rfl
    · cases hs

end Mutex

/-- At most one thread has the mutex, and when nobody does and nobody is in a call nobody is
asleep. -/
theorem mutex_exclusive_and_live {s : Mutex} (h : Run MutexStep Always (fun s => s = .new) s) :
    (∀ t u, (s.threads t).holds = true → (s.threads u).holds = true → t = u) ∧
      ((∀ t, (s.threads t).holds = false) →
        (∀ t, s.threads t = .idle ∨ (s.threads t).sleeping = true) →
          ∀ t, (s.threads t).sleeping = false) := by
  have hinv : s.Inv := by
    refine h.invariant ?_ fun s e s' hs _ hstep => hs.step hstep
    rintro s rfl
    exact .new
  refine ⟨fun t u ht hu => hinv.unique t u (MutexPc.owns_of_holds ht) (MutexPc.owns_of_holds hu),
    fun _ hquiet t => ?_⟩
  have hnot : ∀ u, (s.threads u).owns = false ∧ (s.threads u).guards = false := by
    intro u
    rcases hquiet u with hidle | hsleeping
    · rw [hidle]
      exact ⟨rfl, rfl⟩
    · exact MutexPc.eq_false_of_sleeping hsleeping
  rw [Bool.eq_false_iff]
  intro hsleeping
  have hmem : t ∈ s.sleepers := (hinv.asleep t).mpr hsleeping
  rcases hinv.guarded (List.ne_nil_of_mem hmem) with htwo | ⟨u, hu⟩
  · obtain ⟨u, hu⟩ := (hinv.taken (by rw [htwo]; decide)).2
    rw [(hnot u).1] at hu
    cases hu
  · rw [(hnot u).2] at hu
    cases hu

/-- Thread 1 sleeps until thread 0 unlocks, and unlocks in its turn. -/
def handOver : List (Nat × MutexAction) :=
  [(0, .lock), (0, .advance), (1, .lock), (1, .advance), (1, .advance), (1, .advance),
    (0, .unlock), (0, .advance), (0, .advance), (0, .wake 1), (1, .advance), (1, .unlock),
    (1, .advance), (1, .advance), (1, .advance)]

def handedOver : Mutex :=
  (replay Mutex.step (fun _ _ => true) .new handOver).get (by decide +kernel)

theorem mutex_hand_over :
    Run MutexStep Always (fun s => s = .new) handedOver ∧
      (∀ t, (handedOver.threads t).holds = false) ∧
      (∀ t, handedOver.threads t = .idle ∨ (handedOver.threads t).sleeping = true) ∧
      ∀ t, (handedOver.threads t).sleeping = false := by
  have hreplay : replay Mutex.step (fun _ _ => true) .new handOver = some handedOver :=
    (Option.some_get _).symm
  have hstart : Run MutexStep Always (fun s => s = .new) .new := Run.start rfl
  have hrun := hstart.replay (fun _ _ _ h => h) (fun _ _ _ => trivial) hreplay
  have hidle : ∀ t, handedOver.threads t = .idle := by
    intro t
    rcases t with _ | _ | t
    · decide +kernel
    · decide +kernel
    · rfl
  have hfree : ∀ t, (handedOver.threads t).holds = false := by
    intro t
    rw [hidle]
    rfl
  have hquiet : ∀ t, handedOver.threads t = .idle ∨ (handedOver.threads t).sleeping = true :=
    fun t => .inl (hidle t)
  exact ⟨hrun, hfree, hquiet, (mutex_exclusive_and_live hrun).2 hfree hquiet⟩

end Veloq.Blocking
