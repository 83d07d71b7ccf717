import Veloq.Blocking.Once
set_option autoImplicit false

/-!
# Blocking: a `Once` initialises exactly once

The word says who may run: from the `compare_exchange` that sets `RUNNING` to the `swap` of the
guard one thread holds the cell.  A sleeper's bit `QUEUED` stays in the word until the guard swaps
it out, and the guard that has seen it wakes everybody.
-/

namespace Veloq.Blocking

open Veloq.Foundation

variable {α : Type}

namespace Once

/-- The words that a cell can have. -/
def words : List UInt32 := [0, 1, 2, 3, 5, 6, 7]

/-- What holds of each of the words. -/
theorem words_cases {p : UInt32 → Prop} (h : p 0 ∧ p 1 ∧ p 2 ∧ p 3 ∧ p 5 ∧ p 6 ∧ p 7) :
    ∀ w ∈ words, p w := by
  obtain ⟨h0, h1, h2, h3, h5, h6, h7⟩ := h
  intro w hw
  simp only [words, List.mem_cons, List.not_mem_nil, or_false] at hw
  rcases hw with rfl | rfl | rfl | rfl | rfl | rfl | rfl <;> assumption

theorem eq_complete_of_stateOf : ∀ w ∈ words, stateOf w = complete → w = complete :=
  words_cases (by decide)

theorem runningWord_mem : ∀ w ∈ words, runningWord w ∈ words :=
  words_cases (by decide)

theorem stateOf_runningWord : ∀ w ∈ words, stateOf (runningWord w) = running :=
  words_cases (by decide)

theorem isQueued_runningWord : ∀ w ∈ words, isQueued (runningWord w) = isQueued w :=
  words_cases (by decide)

theorem add_queuedBit_mem : ∀ w ∈ words, stateOf w ≠ complete ∧ isQueued w = false →
    w + queuedBit ∈ words :=
  words_cases (by decide)

theorem stateOf_add_queuedBit : ∀ w ∈ words, isQueued w = false →
    stateOf (w + queuedBit) = stateOf w :=
  words_cases (by decide)

theorem isQueued_add_queuedBit : ∀ w ∈ words, isQueued w = false →
    isQueued (w + queuedBit) = true :=
  words_cases (by decide)

theorem running_ne_complete : running ≠ complete := by decide

theorem running_ne_poisoned : running ≠ poisoned := by decide

/-- A call may sleep on the word. -/
structure Rests (call : OnceCall α) (w : UInt32) : Prop where
  queued : isQueued w = true
  incomplete : stateOf w ≠ complete
  poisoned : stateOf w = poisoned → call.ignoresPoisoning = true ∧ call.isCall = false

end Once

open Once

/-! ## What a thread knows -/

namespace OnceCall

/-- The call has its value still. -/
def Full : OnceCall α → Prop
  | tryInsert value left => left = some value
  | _ => True

/-- The value of the call is in the cell. -/
def given : OnceCall α → Bool
  | tryInsert _ none => true
  | _ => false

/-- The value is where it is, or it has been taken and stored. -/
def Settled (call : OnceCall α) : Prop := call.Full ∨ call.given = true

theorem settled_taken (call : OnceCall α) : call.taken.Settled := by
  cases call with
  | tryInsert value left => exact .inr rfl
  | _ => exact .inl trivial

theorem given_eq_false_of_full {call : OnceCall α} (h : call.Full) : call.given = false := by
  cases call with
  | tryInsert value left =>
      cases left with
      | none => cases h
      | some _ => rfl
  | _ => rfl

theorem kind_taken (call : OnceCall α) : call.taken.kind = call.kind := by
  cases call <;> rfl

end OnceCall

namespace OncePc

/-- The thread has set `RUNNING`, and its guard has not swapped yet. -/
def holds : OncePc α → Bool
  | run _ | swap _ _ => true
  | _ => false

/-- The guard is about to wake everybody. -/
def wakes : OncePc α → Bool
  | wake _ _ => true
  | _ => false

/-- The thread knows that an initialiser has succeeded. -/
def sure : OncePc α → Bool
  | loop _ seen => decide (stateOf seen = complete)
  | swap _ ok | wake _ ok => ok
  | read _ => true
  | _ => false

/-- The value of the call of the thread is in the cell. -/
def given : OncePc α → Bool
  | swap call true | wake call true | read call => call.given
  | _ => false

/-- What a thread knows about its own call. -/
def Sane (kind : OnceKind) : OncePc α → Prop
  | idle => True
  | getLoad call => (call.kind = kind ∧ call.Full) ∧ kind = .lock
  | check call | load call | asleep call | run call => call.kind = kind ∧ call.Full
  | loop call seen => call.kind = kind ∧ call.Full ∧ seen ∈ words
  | wait call expected => call.kind = kind ∧ call.Full ∧ Rests call expected
  | swap call _ | wake call _ => call.kind = kind ∧ call.Settled
  | read call => (call.kind = kind ∧ call.Settled) ∧ kind = .lock

/-- The thread does not hold the cell, and is not about to wake anybody. -/
structure Quiet (pc : OncePc α) : Prop where
  holds : pc.holds = false
  wakes : pc.wakes = false

end OncePc

namespace OnceCell

variable {s s' : OnceCell α} {t : Nat}

/-- What a thread does in one step. -/
inductive Move (s : OnceCell α) (t : Nat) : OnceCell α → Prop where
  | quiet {pc : OncePc α} : (s.threads t).Quiet → pc.Quiet → pc.Sane s.kind →
      (pc.sure = true → (s.threads t).sure = true ∨ stateOf s.word = complete) →
      pc.given = false → (∀ call, pc = .asleep call → Rests call s.word) → Move s t (s.goto t pc)
  | claim {call : OnceCall α} : (s.threads t).Quiet → call.kind = s.kind → call.Full →
      stateOf s.word ≠ complete → stateOf s.word ≠ running →
      Move s t { s.goto t (.run call) with word := runningWord s.word }
  | queue {call : OnceCall α} : (s.threads t).Quiet → call.kind = s.kind → call.Full →
      stateOf s.word ≠ complete → isQueued s.word = false → Rests call (s.word + queuedBit) →
      Move s t { s.goto t (.wait call (s.word + queuedBit)) with word := s.word + queuedBit }
  | finish {call : OnceCall α} {value : Option α} : s.threads t = .run call →
      (s.kind = .lock → value ≠ none) → call.kind = s.kind →
      Move s t ((s.store value).goto t (.swap call.taken true))
  | fail {call : OnceCall α} : s.threads t = .run call → call.kind = s.kind → call.Full →
      Move s t (s.goto t (.swap call false))
  | swap {call : OnceCall α} {ok : Bool} {pc : OncePc α} : s.threads t = .swap call ok →
      pc.Sane s.kind → pc.holds = false → (∀ asleep, pc ≠ .asleep asleep) →
      (isQueued s.word = true → pc.wakes = true) → (pc.sure = true → ok = true) →
      (pc.given = true → ok = true ∧ call.given = true) →
      Move s t { s.goto t pc with word := if ok then complete else poisoned }
  | wake {call : OnceCall α} {ok : Bool} {pc : OncePc α} : s.threads t = .wake call ok →
      pc.Sane s.kind → pc.Quiet → (∀ asleep, pc ≠ .asleep asleep) → (pc.sure = true → ok = true) →
      (pc.given = true → ok = true ∧ call.given = true) → Move s t (s.wakeAll.goto t pc)
  | read {call : OnceCall α} : s.threads t = .read call → Move s t (s.finishRead t call)

/-! ### Every step is a move -/

section Return

variable {call : OnceCall α} {kind : OnceKind}

theorem afterReturn_quiet : (afterReturn call).Quiet := by
  unfold afterReturn
  split <;> exact ⟨rfl, rfl⟩

theorem afterReturn_sane (hkind : call.kind = kind) (hsettled : call.Settled) :
    (afterReturn call).Sane kind := by
  unfold afterReturn
  split
  · trivial
  · rename_i hlock
    exact ⟨⟨hkind, hsettled⟩, hkind.symm.trans hlock⟩

theorem afterReturn_given (h : (afterReturn call).given = true) : call.given = true := by
  unfold afterReturn at h
  split at h
  · cases h
  · exact h

theorem afterReturn_ne_asleep (call' : OnceCall α) : afterReturn call ≠ .asleep call' := by
  unfold afterReturn
  split <;> intro h <;> cases h

end Return

section Guard

variable {call : OnceCall α} {kind : OnceKind} {ok : Bool}

theorem afterGuard_quiet : (afterGuard call ok).Quiet := by
  cases ok with
  | false => exact ⟨rfl, rfl⟩
  | true => exact afterReturn_quiet

theorem afterGuard_sane (hkind : call.kind = kind) (hsettled : call.Settled) :
    (afterGuard call ok).Sane kind := by
  cases ok with
  | false => trivial
  | true => exact afterReturn_sane hkind hsettled

theorem afterGuard_ne_asleep (call' : OnceCall α) : afterGuard call ok ≠ .asleep call' := by
  cases ok with
  | false => intro h; cases h
  | true => exact afterReturn_ne_asleep call'

theorem afterGuard_sure (h : (afterGuard call ok).sure = true) : ok = true := by
  cases ok with
  | false => cases h
  | true => rfl

theorem afterGuard_given (h : (afterGuard call ok).given = true) :
    ok = true ∧ call.given = true := by
  cases ok with
  | false => cases h
  | true => exact ⟨rfl, afterReturn_given h⟩

theorem wake_given (h : (OncePc.wake call ok).given = true) : ok = true ∧ call.given = true := by
  cases ok with
  | false => cases h
  | true => exact ⟨rfl, h⟩

end Guard

/-- A thread goes to a place from where it knows nothing new. -/
theorem Move.plain {pc : OncePc α} (hold : (s.threads t).Quiet) (hnew : pc.Quiet)
    (hsane : pc.Sane s.kind) (hsure : pc.sure = false) (hgiven : pc.given = false)
    (hasleep : ∀ call, pc ≠ .asleep call) : Move s t (s.goto t pc) := by
  refine .quiet hold hnew hsane (fun h => ?_) hgiven fun call h => absurd h (hasleep call)
  rw [hsure] at h
  cases h

/-- A call returns because the cell is complete. -/
theorem Move.completed {call : OnceCall α} (hold : (s.threads t).Quiet) (hkind : call.kind = s.kind)
    (hfull : call.Full) (hsure : (s.threads t).sure = true ∨ stateOf s.word = complete) :
    Move s t (s.goto t (afterReturn call)) := by
  refine .quiet hold afterReturn_quiet (afterReturn_sane hkind (.inl hfull)) (fun _ => hsure) ?_ fun call' h =>
    absurd h (afterReturn_ne_asleep call')
  rw [Bool.eq_false_iff]
  intro h
  exact absurd (afterReturn_given h) (by rw [OnceCall.given_eq_false_of_full hfull]; decide)

/-- The thread has seen the word. -/
theorem Move.look {call : OnceCall α} (hword : s.word ∈ words) (hold : (s.threads t).Quiet)
    (hkind : call.kind = s.kind) (hfull : call.Full) :
    Move s t (s.goto t (.loop call s.word)) :=
  .quiet hold ⟨rfl, rfl⟩ ⟨hkind, hfull, hword⟩ (fun h => .inr (of_decide_eq_true h)) rfl
    fun call' h => by cases h

/-- Where the loop goes to sleep. -/
theorem rests_of_turn {call : OnceCall α} {seen w : UInt32} (hcomplete : stateOf seen ≠ complete)
    (hrefuses : refuses call seen = false) (hclaims : claims call seen = false)
    (hqueued : isQueued w = true) (hstate : stateOf w = stateOf seen) : Rests call w := by
  refine ⟨hqueued, hstate ▸ hcomplete, fun hpoisoned => ?_⟩
  rw [hstate] at hpoisoned
  constructor
  · simpa [refuses, hpoisoned] using hrefuses
  · simpa [claims, hpoisoned] using hclaims

theorem Move.turn {call : OnceCall α} {seen : UInt32} (hword : s.word ∈ words)
    (hpc : s.threads t = .loop call seen) (hsane : (s.threads t).Sane s.kind) :
    Move s t (s.turn t call seen) := by
  have hold : (s.threads t).Quiet := by rw [hpc]; exact ⟨rfl, rfl⟩
  have hloop := hsane
  rw [hpc] at hloop
  obtain ⟨hkind, hfull, hseen⟩ := hloop
  unfold OnceCell.turn
  by_cases hcomplete : stateOf seen = complete
  · rw [if_pos hcomplete]
    refine .completed hold hkind hfull (.inl ?_)
    rw [hpc]
    exact decide_eq_true hcomplete
  rw [if_neg hcomplete]
  cases hrefuses : refuses call seen with
  | true => exact .plain hold ⟨rfl, rfl⟩ trivial rfl rfl fun call' h => by cases h
  | false =>
      rw [if_neg (by decide)]
      cases hclaims : claims call seen with
      | true =>
          rw [if_pos rfl]
          unfold OnceCell.cas
          split
          · rename_i heq
            subst heq
            refine .claim hold hkind hfull hcomplete fun hrunning => ?_
            simp only [claims, hrunning, Bool.and_eq_true, decide_eq_true_eq] at hclaims
            exact absurd hclaims.2 (by decide)
          · exact .look hword hold hkind hfull
      | false =>
          rw [if_neg (by decide)]
          split
          · rename_i hqueued
            have hrests := rests_of_turn hcomplete hrefuses hclaims hqueued rfl
            exact .plain hold ⟨rfl, rfl⟩ ⟨hkind, hfull, hrests⟩ rfl rfl fun call' h => by cases h
          · rename_i hqueued
            rw [Bool.not_eq_true] at hqueued
            unfold OnceCell.cas
            split
            · rename_i heq
              subst heq
              exact .queue hold hkind hfull hcomplete hqueued
                (rests_of_turn hcomplete hrefuses hclaims (isQueued_add_queuedBit _ hword hqueued)
                  (stateOf_add_queuedBit _ hword hqueued))
            · exact .look hword hold hkind hfull

theorem Move.advance (hword : s.word ∈ words) (hsane : (s.threads t).Sane s.kind)
    (hs : s.advance t = some s') : Move s t s' := by
  unfold OnceCell.advance at hs
  cases hpc : s.threads t with
  | idle => simp only [hpc] at hs; cases hs
  | asleep call => simp only [hpc] at hs; cases hs
  | run call => simp only [hpc] at hs; cases hs
  | getLoad call =>
      have hold : (s.threads t).Quiet := by rw [hpc]; exact ⟨rfl, rfl⟩
      rw [hpc] at hsane hs
      cases hs
      obtain ⟨⟨hkind, hfull⟩, hlock⟩ := hsane
      split
      · rename_i hcomplete
        refine .quiet hold ⟨rfl, rfl⟩ ⟨⟨hkind, .inl hfull⟩, hlock⟩ (fun _ => .inr ?_)
          (OnceCall.given_eq_false_of_full hfull) fun call' h => by cases h
        rw [hcomplete]
        rfl
      · split
        · exact .plain hold ⟨rfl, rfl⟩ trivial rfl rfl fun call' h => by cases h
        · exact .plain hold ⟨rfl, rfl⟩ ⟨hkind, hfull⟩ rfl rfl fun call' h => by cases h
  | check call =>
      have hold : (s.threads t).Quiet := by rw [hpc]; exact ⟨rfl, rfl⟩
      rw [hpc] at hsane hs
      cases hs
      split
      · rename_i hcomplete
        exact .completed hold hsane.1 hsane.2 (.inr (by rw [hcomplete]; rfl))
      · exact .plain hold ⟨rfl, rfl⟩ hsane rfl rfl fun call' h => by cases h
  | load call =>
      have hold : (s.threads t).Quiet := by rw [hpc]; exact ⟨rfl, rfl⟩
      rw [hpc] at hsane hs
      cases hs
      exact .look hword hold hsane.1 hsane.2
  | loop call seen =>
      rw [hpc] at hs
      cases hs
      exact .turn hword hpc hsane
  | wait call expected =>
      have hold : (s.threads t).Quiet := by rw [hpc]; exact ⟨rfl, rfl⟩
      rw [hpc] at hsane hs
      cases hs
      obtain ⟨hkind, hfull, hrests⟩ := hsane
      split
      · rename_i heq
        refine .quiet hold ⟨rfl, rfl⟩ ⟨hkind, hfull⟩ (fun h => by cases h) rfl fun call' h => ?_
        cases h
        rw [heq]
        exact hrests
      · exact .plain hold ⟨rfl, rfl⟩ ⟨hkind, hfull⟩ rfl rfl fun call' h => by cases h
  | swap call ok =>
      rw [hpc] at hsane hs
      cases hs
      split
      · exact .swap hpc hsane rfl (fun call' h => by cases h) (fun _ => rfl) id
          wake_given
      · rename_i hqueued
        exact .swap hpc (afterGuard_sane hsane.1 hsane.2) afterGuard_quiet.holds afterGuard_ne_asleep
          (fun h => absurd h hqueued) afterGuard_sure afterGuard_given
  | wake call ok =>
      rw [hpc] at hsane hs
      cases hs
      exact .wake hpc (afterGuard_sane hsane.1 hsane.2) afterGuard_quiet afterGuard_ne_asleep
        afterGuard_sure afterGuard_given
  | read call =>
      rw [hpc] at hs
      cases hs
      exact .read hpc

theorem begin_quiet {call : OnceCall α} : (OnceCell.begin call).Quiet := by
  cases call <;> exact ⟨rfl, rfl⟩

theorem begin_sane {call : OnceCall α} (h : s.accepts call) :
    (OnceCell.begin call).Sane s.kind := by
  obtain ⟨hkind, hleft⟩ := h
  cases call with
  | callOnce | callOnceForce | wait | waitForce | lockWait => exact ⟨hkind, trivial⟩
  | get | getOrTryInit => exact ⟨⟨hkind, trivial⟩, hkind.symm⟩
  | tryInsert value left => exact ⟨⟨hkind, hleft⟩, hkind.symm⟩

theorem value_of_canEnd {call : OnceCall α} {value : Option α} (hend : call.canEnd (.ok value))
    (hlock : call.kind = .lock) : value ≠ none := by
  rintro rfl
  cases call with
  | callOnce | callOnceForce => cases hlock
  | tryInsert value left => cases left <;> exact hend
  | wait | waitForce | get | getOrTryInit | lockWait => exact hend

theorem move_of_step {e : OnceEvent α} (hword : s.word ∈ words)
    (hsane : ∀ t, (s.threads t).Sane s.kind) (hs : OnceStep s e s') : ∃ t, Move s t s' := by
  cases hs with
  | @start t call hpc haccepts =>
      refine ⟨t, .plain ?_ begin_quiet (begin_sane haccepts) ?_ ?_ fun call' => ?_⟩
      · rw [hpc]
        exact ⟨rfl, rfl⟩
      · cases call <;> rfl
      · cases call <;> rfl
      · cases call <;> exact fun h => by cases h
  | advance hs => exact ⟨_, .advance hword (hsane _) hs⟩
  | @casFail t call seen hpc _ =>
      have hloop := hsane t
      rw [hpc] at hloop
      refine ⟨t, .look hword ?_ hloop.1 hloop.2.1⟩
      rw [hpc]
      exact ⟨rfl, rfl⟩
  | @finish t call value hpc hend =>
      have hrun := hsane t
      rw [hpc] at hrun
      exact ⟨t, .finish hpc (fun hlock => value_of_canEnd hend (hrun.1.trans hlock)) hrun.1⟩
  | @fail t call how hpc hend _ =>
      have hrun := hsane t
      rw [hpc] at hrun
      exact ⟨t, .fail hpc hrun.1 hrun.2⟩
  | @interrupt t call hpc =>
      have hasleep := hsane t
      rw [hpc] at hasleep
      refine ⟨t, .plain ?_ ⟨rfl, rfl⟩ hasleep rfl rfl fun call' h => by cases h⟩
      rw [hpc]
      exact ⟨rfl, rfl⟩

/-! ## One initialiser at a time -/

/-- Who holds the cell, and who knows that an initialiser has succeeded. -/
structure Paced (s : OnceCell α) : Prop where
  word_mem : s.word ∈ words
  sane : ∀ t, (s.threads t).Sane s.kind
  running : ∀ t, (s.threads t).holds = true → stateOf s.word = running
  unique : ∀ t u, (s.threads t).holds = true → (s.threads u).holds = true → t = u
  sure : ∀ t, (s.threads t).sure = true → s.succeeded = true
  done : s.word = complete → s.succeeded = true
  ends : s.succeeded = true → s.word = complete ∨ ∃ t call, s.threads t = .swap call true

@[simp] theorem goto_threads (pc : OncePc α) (u : Nat) :
    (s.goto t pc).threads u = if u = t then pc else s.threads u :=
  Function.update_apply ..

theorem wakeAll_threads (u : Nat) :
    s.wakeAll.threads u = s.threads u ∨
      ∃ call, s.threads u = .asleep call ∧ s.wakeAll.threads u = .load call := by
  unfold wakeAll
  dsimp only
  split
  · rename_i call hpc
    exact .inr ⟨call, hpc, rfl⟩
  · exact .inl rfl

theorem wakeAll_ne_asleep (u : Nat) (call : OnceCall α) : s.wakeAll.threads u ≠ .asleep call := by
  unfold wakeAll
  dsimp only
  split
  · intro h
    cases h
  · rename_i hpc
    exact hpc call

/-- While a thread holds the cell whose initialiser has not succeeded, none has. -/
theorem Paced.not_succeeded (h : Paced s) (hholds : (s.threads t).holds = true)
    (hpc : ∀ call, s.threads t ≠ .swap call true) : s.succeeded = false := by
  rw [Bool.eq_false_iff]
  intro hsucceeded
  rcases h.ends hsucceeded with hword | ⟨u, call, hu⟩
  · have hstate := h.running t hholds
    rw [hword] at hstate
    exact absurd hstate (by decide)
  · obtain rfl := h.unique t u hholds (by rw [hu]; rfl)
    exact hpc call hu

/-- The cell after thread `t` has gone to `pc`, if the others are where they were. -/
structure Steps (s : OnceCell α) (t : Nat) (pc : OncePc α) (s' : OnceCell α) : Prop where
  kind : s'.kind = s.kind
  here : s'.threads t = pc
  others : ∀ u, u ≠ t → s'.threads u = s.threads u ∨
    ∃ call, s.threads u = .asleep call ∧ s'.threads u = .load call

section Steps

variable {pc : OncePc α}

theorem Steps.sane (hs : Steps s t pc s') (h : ∀ u, (s.threads u).Sane s.kind)
    (hpc : pc.Sane s.kind) (u : Nat) : (s'.threads u).Sane s'.kind := by
  rw [hs.kind]
  by_cases hu : u = t
  · rw [hu, hs.here]
    exact hpc
  rcases hs.others u hu with heq | ⟨call, hasleep, heq⟩
  · rw [heq]
    exact h u
  · have hsane := h u
    rw [hasleep] at hsane
    rw [heq]
    exact hsane

/-- A thread that is not `t` holds the cell, knows about a success or has given its value only if
it did before. -/
theorem Steps.kept (hs : Steps s t pc s') {p : OncePc α → Bool}
    (hload : ∀ call, p (.load call) = false) {u : Nat} (hu : u ≠ t)
    (hp : p (s'.threads u) = true) : p (s.threads u) = true := by
  rcases hs.others u hu with heq | ⟨call, hasleep, heq⟩
  · rwa [heq] at hp
  · rw [heq, hload] at hp
    cases hp

/-- A thread that does not sleep stays where it is. -/
theorem Steps.stays (hs : Steps s t pc s') {u : Nat} (hu : u ≠ t)
    (hawake : ∀ call, s.threads u ≠ .asleep call) : s'.threads u = s.threads u := by
  rcases hs.others u hu with heq | ⟨call, hasleep, _⟩
  · exact heq
  · exact absurd hasleep (hawake call)

end Steps

theorem Steps.of_update {pc : OncePc α} (hkind : s'.kind = s.kind)
    (hthreads : s'.threads = Function.update s.threads t pc) : Steps s t pc s' := by
  refine ⟨hkind, by rw [hthreads, Function.update_self], fun u hu => .inl ?_⟩
  rw [hthreads, Function.update_of_ne hu]

theorem Steps.goto (pc : OncePc α) : Steps s t pc (s.goto t pc) := .of_update rfl rfl

theorem Steps.wakeAll (pc : OncePc α) : Steps s t pc (s.wakeAll.goto t pc) := by
  refine ⟨rfl, by rw [goto_threads, if_pos rfl], fun u hu => ?_⟩
  rw [goto_threads, if_neg hu]
  exact s.wakeAll_threads u

theorem finishRead_eq (call : OnceCall α) : ∃ inserts,
    s.finishRead t call =
      { s.goto t .idle with reads := s.reads ++ [s.slot], inserts := s.inserts ++ inserts } := by
  cases call with
  | tryInsert value left => exact ⟨_, rfl⟩
  | _ => exact ⟨[], by rw [List.append_nil]; rfl⟩

theorem Steps.finishRead (call : OnceCall α) : Steps s t .idle (s.finishRead t call) := by
  obtain ⟨inserts, heq⟩ := s.finishRead_eq (t := t) call
  rw [heq]
  exact .of_update rfl rfl

/-- Nobody else is at a `swap` of the cell that `t` holds. -/
theorem Paced.alone (h : Paced s) (hholds : (s.threads t).holds = true) {u : Nat} (hu : u ≠ t) :
    (s.threads u).holds = false := by
  rw [Bool.eq_false_iff]
  exact fun hf => hu (h.unique u t hf hholds)

section Paced

variable (pc : OncePc α)

/-- A step that no holder of the cell takes. -/
theorem Paced.outside (h : Paced s) (hs : Steps s t pc s') (hold : (s.threads t).holds = false)
    (hnew : pc.holds = false) (hsane : pc.Sane s.kind)
    (hsure : pc.sure = true → s.succeeded = true) (hword : s'.word ∈ words)
    (hstate : stateOf s'.word = stateOf s.word) (hsucceeded : s'.succeeded = s.succeeded) :
    Paced s' := by
  have hholds : ∀ u, (s'.threads u).holds = true → u ≠ t ∧ (s.threads u).holds = true := by
    intro u hu
    have hne : u ≠ t := by
      rintro rfl
      rw [hs.here, hnew] at hu
      cases hu
    exact ⟨hne, hs.kept (fun _ => rfl) hne hu⟩
  have hcomplete : s'.word = complete ↔ s.word = complete := by
    constructor
    · intro hc
      rw [hc] at hstate
      exact eq_complete_of_stateOf _ h.word_mem hstate.symm
    · intro hc
      rw [hc] at hstate
      exact eq_complete_of_stateOf _ hword hstate
  refine ⟨hword, hs.sane h.sane hsane, fun u hu => ?_, fun u v hu hv => ?_, fun u hu => ?_,
    fun hc => ?_, fun hsucc => ?_⟩
  · rw [hstate]
    exact h.running u (hholds u hu).2
  · exact h.unique u v (hholds u hu).2 (hholds v hv).2
  · rw [hsucceeded]
    by_cases hut : u = t
    · rw [hut, hs.here] at hu
      exact hsure hu
    · exact h.sure u (hs.kept (fun _ => rfl) hut hu)
  · rw [hsucceeded]
    exact h.done (hcomplete.mp hc)
  · rw [hsucceeded] at hsucc
    rcases h.ends hsucc with hc | ⟨u, call, hu⟩
    · exact .inl (hcomplete.mpr hc)
    · refine .inr ⟨u, call, ?_⟩
      rw [hs.stays ?_ fun call' hf => ?_]
      · exact hu
      · rintro rfl
        rw [hu] at hold
        cases hold
      · rw [hu] at hf
        cases hf

/-- A step after which only `t` holds the cell. -/
theorem Paced.inside (h : Paced s) (hs : Steps s t pc s')
    (hothers : ∀ u, u ≠ t → (s.threads u).holds = false) (hsane : pc.Sane s.kind)
    (hword : s'.word ∈ words) (hrunning : pc.holds = true → stateOf s'.word = Once.running)
    (hkeeps : s.succeeded = true → s'.succeeded = true)
    (hsure : pc.sure = true → s'.succeeded = true)
    (hdone : s'.word = complete → s'.succeeded = true)
    (hends : s'.succeeded = true → s'.word = complete ∨ ∃ call, pc = .swap call true) :
    Paced s' := by
  have hholds : ∀ u, (s'.threads u).holds = true → u = t ∧ pc.holds = true := by
    intro u hu
    by_cases hut : u = t
    · rw [hut, hs.here] at hu
      exact ⟨hut, hu⟩
    · have hf := hs.kept (fun _ => rfl) hut hu
      rw [hothers u hut] at hf
      cases hf
  refine ⟨hword, hs.sane h.sane hsane, fun u hu => ?_, fun u v hu hv => ?_, fun u hu => ?_, hdone,
    fun hsucc => ?_⟩
  · exact hrunning (hholds u hu).2
  · exact (hholds u hu).1.trans (hholds v hv).1.symm
  · by_cases hut : u = t
    · rw [hut, hs.here] at hu
      exact hsure hu
    · exact hkeeps (h.sure u (hs.kept (fun _ => rfl) hut hu))
  · rcases hends hsucc with hc | ⟨call, hpc⟩
    · exact .inl hc
    · exact .inr ⟨t, call, hs.here.trans hpc⟩

end Paced

theorem Paced.move (h : Paced s) (hmove : Move s t s') : Paced s' := by
  cases hmove with
  | @quiet pc hold hnew hsane hsure hgiven hasleep =>
      refine h.outside pc (.goto pc) hold.holds hnew.holds hsane (fun hf => ?_) h.word_mem rfl rfl
      rcases hsure hf with hf | hf
      · exact h.sure t hf
      · exact h.done (eq_complete_of_stateOf _ h.word_mem hf)
  | @claim call hold hkind hfull hcomplete hrunning =>
      have hnone : ∀ u, (s.threads u).holds = false := by
        intro u
        rw [Bool.eq_false_iff]
        exact fun hf => hrunning (h.running u hf)
      have hsucc : s.succeeded = false := by
        rw [Bool.eq_false_iff]
        intro hf
        rcases h.ends hf with hc | ⟨u, call', hu⟩
        · exact hcomplete (by rw [hc]; rfl)
        · have hf := hnone u
          rw [hu] at hf
          cases hf
      have hstate := stateOf_runningWord _ h.word_mem
      refine h.inside (t := t) (.run call) ?_ (fun u _ => hnone u) ⟨hkind, hfull⟩
        (runningWord_mem _ h.word_mem) (fun _ => hstate) id (fun hf => by cases hf) (fun hc => ?_)
        fun hf => absurd (hsucc.symm.trans hf) (by decide)
      · exact .of_update rfl rfl
      · dsimp only at hc
        rw [hc] at hstate
        exact absurd hstate (by decide)
  | @queue call hold hkind hfull hcomplete hqueued hrests =>
      refine h.outside (.wait call (s.word + queuedBit)) ?_ hold.holds rfl
        ⟨hkind, hfull, hrests⟩ (fun hf => by cases hf)
        (add_queuedBit_mem _ h.word_mem ⟨hcomplete, hqueued⟩)
        (stateOf_add_queuedBit _ h.word_mem hqueued) rfl
      exact .of_update rfl rfl
  | @finish call value hpc hvalue hkind =>
      have hholds : (s.threads t).holds = true := by rw [hpc]; rfl
      refine h.inside (.swap call.taken true) ?_ (fun u hu => h.alone hholds hu)
        ⟨call.kind_taken.trans hkind, call.settled_taken⟩ h.word_mem (fun _ => h.running t hholds)
        (fun _ => rfl) (fun _ => rfl) (fun _ => rfl) fun _ => .inr ⟨_, rfl⟩
      exact .of_update rfl rfl
  | @fail call hpc hkind hfull =>
      have hholds : (s.threads t).holds = true := by rw [hpc]; rfl
      have hsucc := h.not_succeeded hholds fun call' hf => by rw [hpc] at hf; cases hf
      refine h.inside (.swap call false) (.goto _) (fun u hu => h.alone hholds hu)
        ⟨hkind, .inl hfull⟩ h.word_mem (fun _ => h.running t hholds) id (fun hf => by cases hf)
        h.done fun hf => absurd (hsucc.symm.trans hf) (by decide)
  | @swap call ok pc hpc hsane hnew hawake hwakes hsure hgiven =>
      have hholds : (s.threads t).holds = true := by rw [hpc]; rfl
      have hok : ok = s.succeeded := by
        cases ok with
        | true => exact (h.sure t (by rw [hpc]; rfl)).symm
        | false =>
            refine (h.not_succeeded hholds fun call' hf => ?_).symm
            rw [hpc] at hf
            cases hf
      subst hok
      refine h.inside pc (.of_update rfl rfl) (fun u hu => h.alone hholds hu) hsane ?_
        (fun hf => ?_) id hsure (fun hc => ?_) fun hf => .inl (if_pos hf)
      · dsimp only
        split <;> decide
      · rw [hnew] at hf
        cases hf
      · dsimp only at hc
        show s.succeeded = true
        by_contra hf
        rw [if_neg hf] at hc
        cases hc
  | @wake call ok pc hpc hsane hnew hawake hsure hgiven =>
      refine h.outside pc (.wakeAll pc) (by rw [hpc]; rfl) hnew.holds hsane (fun hf => ?_) h.word_mem
        rfl rfl
      refine h.sure t ?_
      rw [hpc]
      exact hsure hf
  | @read call hpc =>
      refine h.outside .idle (.finishRead call) (by rw [hpc]; rfl) rfl trivial (fun hf => by cases hf)
        ?_ ?_ ?_
      all_goals
        obtain ⟨inserts, heq⟩ := s.finishRead_eq (t := t) call
        rw [heq]
      · exact h.word_mem
      · rfl
      · rfl

/-! ## The value -/

/-- The value is the one that an initialiser has stored, and nothing else was ever read. -/
structure Kept (s : OnceCell α) : Prop where
  slot : s.slot = s.stored
  present : s.kind = .lock → s.succeeded = true → s.stored ≠ none
  reads : ∀ found ∈ s.reads, found = s.stored ∧ s.stored ≠ none ∧ s.succeeded = true

theorem Kept.congr (h : Kept s) (hkind : s'.kind = s.kind) (hslot : s'.slot = s.slot)
    (hstored : s'.stored = s.stored) (hreads : s'.reads = s.reads)
    (hsucceeded : s'.succeeded = s.succeeded) : Kept s' := by
  refine ⟨?_, ?_, ?_⟩
  · rw [hslot, hstored]
    exact h.slot
  · rw [hkind, hstored, hsucceeded]
    exact h.present
  · rw [hreads, hstored, hsucceeded]
    exact h.reads

theorem Kept.move (h : Kept s) (hpaced : Paced s) (hmove : Move s t s') : Kept s' := by
  cases hmove with
  | quiet | claim | queue | fail | swap | wake => exact h.congr rfl rfl rfl rfl rfl
  | @finish call value hpc hvalue hkind =>
      have hsucc : s.succeeded = false := by
        refine hpaced.not_succeeded (t := t) (by rw [hpc]; rfl) fun call' hf => ?_
        rw [hpc] at hf
        cases hf
      refine ⟨rfl, fun hlock _ => hvalue hlock, fun found hfound => ?_⟩
      exact absurd (hsucc.symm.trans (h.reads found hfound).2.2) (by decide)
  | @read call hpc =>
      have hsucc := hpaced.sure t (by rw [hpc]; rfl)
      have hsane := hpaced.sane t
      rw [hpc] at hsane
      obtain ⟨inserts, heq⟩ := s.finishRead_eq (t := t) call
      rw [heq]
      refine ⟨h.slot, h.present, fun found hfound => ?_⟩
      rcases List.mem_append.mp hfound with hfound | hfound
      · exact h.reads found hfound
      · rw [List.mem_singleton.mp hfound]
        exact ⟨h.slot, h.present hsane.2 hsucc, hsucc⟩

/-! ## `try_insert` -/

/-- The calls of `try_insert` that have been accepted. -/
def accepted (s : OnceCell α) : List (α × Except α Unit) := s.inserts.filter fun call => call.2.isOk

/-- One value at most is in the cell or has been accepted. -/
structure Inserted (s : OnceCell α) : Prop where
  one : ∀ t u, (s.threads t).given = true → (s.threads u).given = true → t = u
  fresh : ∀ t, (s.threads t).given = true → s.accepted = []
  once : s.accepted.length ≤ 1
  done : s.accepted ≠ [] → s.succeeded = true
  refused : ∀ call ∈ s.inserts, call.2 = .ok () ∨ call.2 = .error call.1

section Inserted

variable (pc : OncePc α)

/-- A step in which nothing is given that was not given before. -/
theorem Inserted.keep (h : Inserted s) (hs : Steps s t pc s')
    (hgiven : pc.given = true → (s.threads t).given = true) (hinserts : s'.inserts = s.inserts)
    (hsucceeded : s'.succeeded = s.succeeded) : Inserted s' := by
  have hback : ∀ u, (s'.threads u).given = true → (s.threads u).given = true := by
    intro u hu
    by_cases hut : u = t
    · rw [hut, hs.here] at hu
      rw [hut]
      exact hgiven hu
    · exact hs.kept (fun _ => rfl) hut hu
  have haccepted : s'.accepted = s.accepted := by
    unfold accepted
    rw [hinserts]
  refine ⟨fun u v hu hv => h.one u v (hback u hu) (hback v hv), fun u hu => ?_, ?_, ?_, ?_⟩
  · rw [haccepted]
    exact h.fresh u (hback u hu)
  · rw [haccepted]
    exact h.once
  · rw [haccepted, hsucceeded]
    exact h.done
  · rw [hinserts]
    exact h.refused

end Inserted

theorem sure_of_given {pc : OncePc α} (h : pc.given = true) : pc.sure = true := by
  unfold OncePc.given at h
  split at h
  · rfl
  · rfl
  · rfl
  · cases h

/-- The initialiser of `t` is the first that succeeds. -/
theorem Inserted.finish (h : Inserted s) (hpaced : Paced s) {call : OnceCall α} {value : Option α}
    (hpc : s.threads t = .run call) :
    Inserted ((s.store value).goto t (.swap call.taken true)) := by
  have hsucc : s.succeeded = false := by
    refine hpaced.not_succeeded (t := t) (by rw [hpc]; rfl) fun call' hf => ?_
    rw [hpc] at hf
    cases hf
  have hnone : ∀ u, (s.threads u).given = false := by
    intro u
    rw [Bool.eq_false_iff]
    intro hf
    exact absurd (hsucc.symm.trans (hpaced.sure u (sure_of_given hf))) (by decide)
  have hempty : s.accepted = [] := by
    by_contra hf
    exact absurd (hsucc.symm.trans (h.done hf)) (by decide)
  have hself : ∀ u, (((s.store value).goto t (.swap call.taken true)).threads u).given = true →
      u = t := by
    intro u hu
    by_contra hut
    rw [goto_threads, if_neg hut] at hu
    exact absurd ((hnone u).symm.trans hu) (by decide)
  exact ⟨fun u v hu hv => (hself u hu).trans (hself v hv).symm, fun _ _ => hempty, h.once,
    fun _ => rfl, h.refused⟩

/-- A `try_insert` returns. -/
theorem Inserted.report (h : Inserted s) (hs : Steps s t .idle s') {value : α}
    {result : Except α Unit} (hinserts : s'.inserts = s.inserts ++ [(value, result)])
    (hsucceeded : s'.succeeded = s.succeeded) (hsucc : s.succeeded = true)
    (hok : result = .ok () → (s.threads t).given = true)
    (hresult : result = .ok () ∨ result = .error value) : Inserted s' := by
  have hback : ∀ u, (s'.threads u).given = true → u ≠ t ∧ (s.threads u).given = true := by
    intro u hu
    have hut : u ≠ t := by
      rintro rfl
      rw [hs.here] at hu
      cases hu
    exact ⟨hut, hs.kept (fun _ => rfl) hut hu⟩
  have hrefused : ∀ call ∈ s'.inserts, call.2 = .ok () ∨ call.2 = .error call.1 := by
    intro call hcall
    rw [hinserts] at hcall
    rcases List.mem_append.mp hcall with hcall | hcall
    · exact h.refused call hcall
    · rw [List.mem_singleton.mp hcall]
      exact hresult
  have hone : ∀ u v, (s'.threads u).given = true → (s'.threads v).given = true → u = v :=
    fun u v hu hv => h.one u v (hback u hu).2 (hback v hv).2
  rcases hresult with rfl | rfl
  · have hempty := h.fresh t (hok rfl)
    have haccepted : s'.accepted = [(value, .ok ())] := by
      unfold accepted at hempty ⊢
      rw [hinserts, List.filter_append, hempty]
      rfl
    refine ⟨hone, fun u hu => ?_, ?_, fun _ => hsucceeded.trans hsucc, hrefused⟩
    · exact absurd (h.one u t (hback u hu).2 (hok rfl)) (hback u hu).1
    · rw [haccepted]
      exact Nat.le_refl 1
  · have haccepted : s'.accepted = s.accepted := by
      unfold accepted
      rw [hinserts, List.filter_append]
      exact List.append_nil _
    refine ⟨hone, fun u hu => ?_, ?_, fun _ => hsucceeded.trans hsucc, hrefused⟩
    · rw [haccepted]
      exact h.fresh u (hback u hu).2
    · rw [haccepted]
      exact h.once

theorem Inserted.read (h : Inserted s) (hpaced : Paced s) {call : OnceCall α}
    (hpc : s.threads t = .read call) : Inserted (s.finishRead t call) := by
  have hsucc := hpaced.sure t (by rw [hpc]; rfl)
  have hsane := hpaced.sane t
  rw [hpc] at hsane
  have hs := Steps.finishRead (s := s) (t := t) call
  cases call with
  | tryInsert value left =>
      cases left with
      | none =>
          refine h.report hs rfl rfl hsucc (fun _ => ?_) (.inl rfl)
          rw [hpc]
          rfl
      | some x =>
          have hx : x = value := by
            rcases hsane.1.2 with hfull | hgiven
            · exact Option.some.inj hfull
            · cases hgiven
          refine h.report hs rfl rfl hsucc (fun hf => by cases hf) (.inr ?_)
          rw [hx]
  | callOnce | callOnceForce | wait | waitForce | get | getOrTryInit | lockWait =>
      exact h.keep .idle hs (fun hf => by cases hf) rfl rfl

theorem Inserted.move (h : Inserted s) (hpaced : Paced s) (hmove : Move s t s') :
    Inserted s' := by
  cases hmove with
  | @quiet pc hold hnew hsane hsure hgiven hasleep =>
      exact h.keep pc (.goto pc) (fun hf => absurd (hgiven.symm.trans hf) (by decide)) rfl rfl
  | @claim call =>
      exact h.keep (t := t) (.run call) (.of_update rfl rfl) (fun hf => by cases hf) rfl rfl
  | @queue call =>
      exact h.keep (t := t) (.wait call (s.word + queuedBit)) (.of_update rfl rfl)
        (fun hf => by cases hf) rfl rfl
  | finish hpc => exact h.finish hpaced hpc
  | @fail call => exact h.keep (.swap call false) (.goto _) (fun hf => by cases hf) rfl rfl
  | @swap call ok pc hpc hsane hnew hawake hwakes hsure hgiven =>
      refine h.keep (t := t) pc (.of_update rfl rfl) (fun hf => ?_) rfl rfl
      obtain ⟨rfl, hcall⟩ := hgiven hf
      rw [hpc]
      exact hcall
  | @wake call ok pc hpc hsane hnew hawake hsure hgiven =>
      refine h.keep pc (.wakeAll pc) (fun hf => ?_) rfl rfl
      obtain ⟨rfl, hcall⟩ := hgiven hf
      rw [hpc]
      exact hcall
  | read hpc => exact h.read hpaced hpc

/-! ## The sleepers -/

/-- Somebody is about to wake everybody. -/
def Waking (s : OnceCell α) : Prop := ∃ u call ok, s.threads u = .wake call ok

/-- Whoever sleeps may sleep, or is about to be woken. -/
def Rested (s : OnceCell α) : Prop :=
  ∀ t call, s.threads t = .asleep call → Waking s ∨ Rests call s.word

section Rested

variable {pc : OncePc α}

/-- A step that wakes nobody. -/
theorem Rested.keep (h : Rested s) (hthreads : s'.threads = Function.update s.threads t pc)
    (hold : (s.threads t).wakes = false ∨ pc.wakes = true)
    (hasleep : ∀ call, pc = .asleep call → Rests call s'.word)
    (hword : ∀ call : OnceCall α, Rests call s.word → pc.wakes = true ∨ Rests call s'.word) : Rested s' := by
  intro u call hu
  have hwakes : pc.wakes = true → Waking s' := by
    intro hpc
    cases hpc' : pc with
    | wake call' ok =>
        exact ⟨t, call', ok, by rw [hthreads, Function.update_self, hpc']⟩
    | _ => rw [hpc'] at hpc; cases hpc
  by_cases hut : u = t
  · rw [hut, hthreads, Function.update_self] at hu
    exact .inr (hasleep call hu)
  rw [hthreads, Function.update_of_ne hut] at hu
  rcases h u call hu with ⟨v, call', ok, hv⟩ | hrests
  · refine .inl ?_
    rcases hold with hold | hnew
    · refine ⟨v, call', ok, ?_⟩
      rw [hthreads, Function.update_of_ne]
      · exact hv
      · rintro rfl
        rw [hv] at hold
        cases hold
    · exact hwakes hnew
  · rcases hword call hrests with hpc | hrests
    · exact .inl (hwakes hpc)
    · exact .inr hrests

end Rested

theorem Rested.move (h : Rested s) (hpaced : Paced s) (hmove : Move s t s') : Rested s' := by
  cases hmove with
  | quiet hold hnew hsane hsure hgiven hasleep =>
      exact h.keep rfl (.inl hold.wakes) hasleep fun _ => .inr
  | @claim call hold hkind hfull hcomplete hrunning =>
      refine h.keep rfl (.inl hold.wakes) (fun call' hf => by cases hf) fun call' hrests => .inr ?_
      have hstate := stateOf_runningWord _ hpaced.word_mem
      refine ⟨(isQueued_runningWord _ hpaced.word_mem).trans hrests.queued, ?_, fun hf => ?_⟩
      · exact fun hf => running_ne_complete (hstate.symm.trans hf)
      · exact absurd (hstate.symm.trans hf) running_ne_poisoned
  | @queue call hold hkind hfull hcomplete hqueued hrests =>
      refine h.keep rfl (.inl hold.wakes) (fun call' hf => by cases hf) fun call' hf => ?_
      exact absurd (hqueued.symm.trans hf.queued) (by decide)
  | finish hpc =>
      exact h.keep rfl (.inl (by rw [hpc]; rfl)) (fun call' hf => by cases hf) fun _ => .inr
  | fail hpc =>
      exact h.keep rfl (.inl (by rw [hpc]; rfl)) (fun call' hf => by cases hf) fun _ => .inr
  | @swap call ok pc hpc hsane hnew hawake hwakes hsure hgiven =>
      exact h.keep rfl (.inl (by rw [hpc]; rfl)) (fun call' hf => absurd hf (hawake call'))
        fun call' hrests => .inl (hwakes hrests.queued)
  | @wake call ok pc hpc hsane hnew hawake hsure hgiven =>
      intro u call' hu
      rw [goto_threads] at hu
      split at hu
      · exact absurd hu (hawake call')
      · exact absurd hu (wakeAll_ne_asleep u call')
  | @read call hpc =>
      obtain ⟨inserts, heq⟩ := s.finishRead_eq (t := t) call
      rw [heq]
      exact h.keep rfl (.inl (by rw [hpc]; rfl)) (fun call' hf => by cases hf) fun _ => .inr

/-! ## Every run -/

structure Inv (s : OnceCell α) : Prop where
  paced : Paced s
  kept : Kept s
  inserted : Inserted s
  rested : Rested s

theorem incomplete_mem : incomplete ∈ words := by decide

theorem incomplete_ne_complete : incomplete ≠ complete := by decide

theorem Inv.new (kind : OnceKind) : Inv (new kind : OnceCell α) := by
  refine ⟨⟨incomplete_mem, fun _ => trivial, ?_, ?_, ?_, ?_, ?_⟩, ⟨rfl, ?_, ?_⟩, ⟨?_, ?_, ?_, ?_, ?_⟩, ?_⟩
  · exact fun _ hf => by cases hf
  · exact fun _ _ hf => by cases hf
  · exact fun _ hf => by cases hf
  · exact fun hf => absurd hf incomplete_ne_complete
  · exact fun hf => by cases hf
  · exact fun _ hf => by cases hf
  · exact fun _ hf => by cases hf
  · exact fun _ _ hf => by cases hf
  · exact fun _ hf => by cases hf
  · exact Nat.zero_le 1
  · exact fun hf => absurd rfl hf
  · exact fun _ hf => by cases hf
  · exact fun _ _ hf => by cases hf

theorem Inv.step {e : OnceEvent α} (h : Inv s) (hs : OnceStep s e s') : Inv s' := by
  obtain ⟨t, hmove⟩ := move_of_step h.paced.word_mem h.paced.sane hs
  exact ⟨h.paced.move hmove, h.kept.move h.paced hmove, h.inserted.move h.paced hmove,
    h.rested.move h.paced hmove⟩

theorem holds_of_runs {pc : OncePc α} (h : pc.runs = true) : pc.holds = true := by
  cases pc with
  | run call => rfl
  | _ => cases h

theorem Inv.initialisesOnce (h : Inv s) : s.InitialisesOnce := by
  refine ⟨fun t u ht hu => ?_, fun hsucc t => ?_, h.kept.reads, h.inserted.once,
    h.inserted.refused, fun t hover => ?_⟩
  · exact h.paced.unique t u (holds_of_runs ht) (holds_of_runs hu)
  · rw [Bool.eq_false_iff]
    intro hruns
    have hfalse := h.paced.not_succeeded (holds_of_runs hruns) fun call hpc => by
      rw [hpc] at hruns
      cases hruns
    exact absurd (hfalse.symm.trans hsucc) (by decide)
  · obtain ⟨call, hasleep, hover⟩ := hover
    rcases h.rested t call hasleep with hwaking | hrests
    · exact hwaking
    rcases hover with hcomplete | ⟨hpoisoned, hcall⟩
    · exact absurd hcomplete hrests.incomplete
    · obtain ⟨hignores, hnocall⟩ := hrests.poisoned hpoisoned
      rcases hcall with hcall | hcall
      · exact absurd (hcall.symm.trans hignores) (by decide)
      · exact absurd (hnocall.symm.trans hcall) (by decide)

/-- Over all runs of any number of threads: whatever the calls, however their initialisers end and
whenever a sleeper wakes up, the cell initialises once and leaves nobody asleep. -/
theorem initialises_once (kind : OnceKind) {s : OnceCell α}
    (hrun : Run OnceStep Always (fun s => s = new kind) s) : s.InitialisesOnce := by
  refine Inv.initialisesOnce (hrun.invariant ?_ ?_)
  · rintro _ rfl
    exact Inv.new kind
  · exact fun _ _ _ h _ hs => h.step hs

/-- The steps of the threads `ts`, one after the other. -/
def advances (s : OnceCell α) (ts : List Nat) : Option (OnceCell α) := ts.foldlM advance s

theorem run_advances {init : OnceCell α → Prop} (ts : List Nat) :
    ∀ {s s' : OnceCell α}, Run OnceStep Always init s → s.advances ts = some s' →
      Run OnceStep Always init s' := by
  induction ts with
  | nil =>
      intro s s' hrun hs
      cases hs
      exact hrun
  | cons t ts ih =>
      intro s s' hrun hs
      obtain ⟨mid, hmid, hrest⟩ := Option.bind_eq_some_iff.mp hs
      exact ih (hrun.next (.advance t) trivial (.advance hmid)) hrest

/-- Two threads insert a value; the second sleeps while the first initialises the cell. -/
theorem initialises_once_example : ∃ s : OnceCell Nat,
    s.inserts = [(7, .ok ()), (8, .error 8)] ∧ s.InitialisesOnce := by
  have hnew : Run OnceStep Always (fun s => s = new .lock) (new .lock : OnceCell Nat) := .start rfl
  have hfirst := hnew.next (.start 0 (.tryInsert 7 (some 7))) trivial (.start rfl ⟨rfl, rfl⟩)
  have hsecond := hfirst.next (.start 1 (.tryInsert 8 (some 8))) trivial (.start rfl ⟨rfl, rfl⟩)
  have hasleep := run_advances [0, 1, 0, 1, 0, 0, 1, 1, 1] hsecond rfl
  have hend : OnceCall.canEnd (.tryInsert 7 (some 7)) (.ok (some 7)) := rfl
  have hstored := hasleep.next (.finish 0 (.ok (some 7))) trivial (.finish rfl hend)
  have hover := run_advances [0, 0, 0, 1, 1, 1] hstored rfl
  exact ⟨_, rfl, initialises_once .lock hover⟩

end OnceCell

end Veloq.Blocking
