import Veloq.Blocking.RwLockWord
set_option autoImplicit false

/-!
# Blocking: when the reader-writer lock strands nobody

While somebody is asleep there is a `Guard`: a writer has the lock, everybody is about to be
woken, or a writer waits and a reader, a wake-up or a writer that is awake will see to it.
Three kinds of steps may lose the guard: a reader that falls asleep although nothing blocks
it, a writer that gives up, and a wake-up that goes to a reader.
-/

namespace Veloq.Blocking

open Veloq.Foundation

theorem RwLockPc.eq_false_of_sleeping {pc : RwLockPc} (h : pc.sleeping = true) :
    pc.shared = false ∧ pc.exclusive = false ∧ RwLock.wakesAll pc = false ∧
      RwLock.wakesOne pc = false ∧ (pc.registered = true → pc.sleeping = true) := by
  cases pc with
  | asleep => exact ⟨rfl, rfl, rfl, rfl, fun _ => rfl⟩
  | idle | holding | panicked | tryLoad | tryCas | load | head | wait | giveUpLoad | giveUpCas
  | unlockLoad | unlockCas | wakeOne | wakeAll | downgradeLoad | downgradeCas
  | downgradeWake => cases h

namespace RwLock

variable {s s' : RwLock} {t g : Nat} {word word' : UInt32} {who who' : Nat → Prop}

/-- Somebody among `who`, or whoever has the lock, is going to wake the sleepers. -/
def Guard (s : RwLock) (word : UInt32) (who : Nat → Prop) : Prop :=
  word &&& writerBit ≠ 0 ∨ (∃ u, who u ∧ wakesAll (s.threads u) = true) ∨
    (word &&& writerWaitingMask ≠ 0 ∧
      (word &&& readerMask ≠ 0 ∨ (∃ u, who u ∧ wakesOne (s.threads u) = true) ∨
        ∃ u, who u ∧ (s.threads u).registered = true ∧ (s.threads u).sleeping = false))

def Guarded (s : RwLock) : Prop := s.sleepers ≠ [] → s.Guard s.state fun _ => True

/-- The three kinds of steps that may lose the guard do not. -/
def Careful (s : RwLock) : Nat × RwLockAction → Prop
  | (t, .advance spurious) =>
      match s.threads t with
      | .wait .shared _ _ state => state = s.state → readable state = true →
          ∃ u, wakesAll (s.threads u) = true
      | .giveUpCas state => state = s.state → spurious = false → s.sleepers ≠ [] →
          s.Guard (s.state - writerWaitingOne) (· ≠ t)
      | _ => True
  | (t, .wake g) =>
      (s.threads g).registered = false → (s.awake g).sleepers ≠ [] → s.Guard s.state (· ≠ t)
  | _ => True

/-- The guard stays as long as its parts do. -/
theorem Guard.mono (h : s.Guard word who)
    (hwriter : word &&& writerBit ≠ 0 → word' &&& writerBit ≠ 0)
    (hwaiting : word &&& writerWaitingMask ≠ 0 → word' &&& writerWaitingMask ≠ 0)
    (hreaders : word &&& readerMask ≠ 0 → word' &&& readerMask ≠ 0)
    (hthreads : ∀ u, who u → who' u ∧
      (wakesAll (s.threads u) = true → wakesAll (s'.threads u) = true) ∧
      (wakesOne (s.threads u) = true → wakesOne (s'.threads u) = true) ∧
      ((s.threads u).registered = true → (s.threads u).sleeping = false →
        (s'.threads u).registered = true ∧ (s'.threads u).sleeping = false)) :
    s'.Guard word' who' := by
  rcases h with hbit | ⟨u, hu, hall⟩ | ⟨hw, hr | ⟨u, hu, hone⟩ | ⟨u, hu, hreg, hawake⟩⟩
  · exact .inl (hwriter hbit)
  · exact .inr (.inl ⟨u, (hthreads u hu).1, (hthreads u hu).2.1 hall⟩)
  · exact .inr (.inr ⟨hwaiting hw, .inl (hreaders hr)⟩)
  · exact .inr (.inr ⟨hwaiting hw, .inr (.inl ⟨u, (hthreads u hu).1, (hthreads u hu).2.2.1 hone⟩)⟩)
  · exact .inr (.inr ⟨hwaiting hw, .inr (.inr ⟨u, (hthreads u hu).1,
      (hthreads u hu).2.2.2 hreg hawake⟩)⟩)

/-- The threads of which nothing has changed guard as before. -/
theorem Guard.others (h : s.Guard word (· ≠ t)) (hother : ∀ u, u ≠ t → s'.threads u = s.threads u) :
    s'.Guard word fun _ => True := by
  refine h.mono id id id fun u hu => ⟨trivial, ?_⟩
  rw [hother u hu]
  exact ⟨id, id, fun hreg hawake => ⟨hreg, hawake⟩⟩

/-- A thread that is not about to wake others goes on. -/
theorem Guard.goto (h : s.Guard word fun _ => True) {pc : RwLockPc} (hbusy : Busy (s.threads t))
    (hregistered : (s.threads t).registered = true → pc.registered = true)
    (hawake : pc.sleeping = false) : (s.goto t pc).Guard word fun _ => True := by
  refine h.mono id id id fun u _ => ⟨trivial, ?_⟩
  by_cases hu : u = t
  · subst hu
    rw [show (s.goto u pc).threads u = pc from Function.update_self .., hbusy.one, hbusy.all]
    exact ⟨fun hf => absurd hf Bool.false_ne_true, fun hf => absurd hf Bool.false_ne_true,
      fun hreg _ => ⟨hregistered hreg, hawake⟩⟩
  · rw [show (s.goto t pc).threads u = s.threads u from Function.update_of_ne hu ..]
    exact ⟨id, id, fun hreg hawake => ⟨hreg, hawake⟩⟩

theorem wakes_woken (pc : RwLockPc) :
    wakesAll (woken pc) = wakesAll pc ∧ wakesOne (woken pc) = wakesOne pc := by
  cases pc <;> exact ⟨rfl, rfl⟩

/-- Waking a thread takes nothing away. -/
theorem Guard.awake (h : s.Guard word who) : (s.awake g).Guard word who := by
  refine h.mono id id id fun u hu => ⟨hu, ?_⟩
  by_cases hug : u = g
  · subst hug
    rw [awake_self]
    obtain ⟨⟨-, hregistered, -⟩, hawake, -⟩ := same_woken (s.threads u)
    obtain ⟨hall, hone⟩ := wakes_woken (s.threads u)
    exact ⟨hall.trans, hone.trans, fun hreg _ => ⟨hregistered.trans hreg, hawake⟩⟩
  · rw [awake_of_ne hug]
    exact ⟨id, id, fun hreg hawake => ⟨hreg, hawake⟩⟩

/-- A thread that is not counted as waiting and is not about to wake others is not needed. -/
theorem Guard.strict (h : s.Guard word fun _ => True) (hregistered : (s.threads t).registered = false)
    (hone : wakesOne (s.threads t) = false) (hall : wakesAll (s.threads t) = false) :
    s.Guard word (· ≠ t) := by
  rcases h with hbit | ⟨u, -, hu⟩ | ⟨hw, hr | ⟨u, -, hu⟩ | ⟨u, -, hu, hawake⟩⟩
  · exact .inl hbit
  · refine .inr (.inl ⟨u, ?_, hu⟩)
    rintro rfl
    rw [hall] at hu
    cases hu
  · exact .inr (.inr ⟨hw, .inl hr⟩)
  · refine .inr (.inr ⟨hw, .inr (.inl ⟨u, ?_, hu⟩)⟩)
    rintro rfl
    rw [hone] at hu
    cases hu
  · refine .inr (.inr ⟨hw, .inr (.inr ⟨u, ?_, hu, hawake⟩)⟩)
    rintro rfl
    rw [hregistered] at hu
    cases hu

/-! ## The steps -/

/-- A reader that finds a writer in the word falls asleep under guard. -/
theorem Guarded.blocked (h : s.Guarded) (hinv : s.Inv) (hblocked : readable s.state = false) :
    s.Guard s.state fun _ => True := by
  by_cases hbit : s.state &&& writerBit = 0
  · have hwaiting : s.state &&& writerWaitingMask ≠ 0 := by
      intro hzero
      rw [Bool.eq_false_iff] at hblocked
      exact hblocked (decide_eq_true ⟨hbit, hzero⟩)
    obtain ⟨u, hu⟩ := hinv.exact.exists_of_ne_zero.2.1 hwaiting
    cases hawake : (s.threads u).sleeping with
    | false => exact .inr (.inr ⟨hwaiting, .inr (.inr ⟨u, trivial, hu, hawake⟩)⟩)
    | true => exact h (List.ne_nil_of_mem ((hinv.asleep u).mpr hawake))
  · exact .inl hbit

theorem Guarded.sleep (h : s.Guarded) (hinv : s.Inv) {kind : Kind} {timed incremented : Bool}
    (hold : s.threads t = .wait kind timed incremented s.state)
    (hcare : kind = .shared → readable s.state = true → ∃ u, wakesAll (s.threads u) = true) :
    Guarded { s.goto t (.asleep kind timed incremented) with sleepers := s.sleepers ++ [t] } := by
  intro _
  have hother : ∀ u, u ≠ t → (s.goto t (.asleep kind timed incremented)).threads u = s.threads u :=
    fun u hu => Function.update_of_ne hu ..
  cases kind with
  | exclusive =>
    -- A writer has found the lock taken, and is counted as waiting.
    have hsound := hinv.sound t
    rw [hold] at hsound
    obtain ⟨hincremented, hblocked⟩ := Bool.and_eq_true_iff.mp hsound
    have hregistered : (s.threads t).registered = true := by
      rw [hold, hincremented]
      rfl
    have hwaiting := hinv.exact.waiting_ne_zero hregistered
    by_cases hbit : s.state &&& writerBit = 0
    · refine .inr (.inr ⟨hwaiting, .inl fun hreaders => ?_⟩)
      obtain ⟨r, w, x, -, hfields⟩ := hinv.exact
      rw [(hfields.writable).mpr ⟨hfields.writer_eq_zero.mp hbit,
        hfields.readers_eq_zero.mp hreaders⟩] at hblocked
      cases hblocked
    · exact .inl hbit
  | shared =>
    have hguard : s.Guard s.state fun _ => True := by
      cases hreadable : readable s.state with
      | true =>
        obtain ⟨u, hu⟩ := hcare rfl hreadable
        exact .inr (.inl ⟨u, trivial, hu⟩)
      | false => exact h.blocked hinv hreadable
    have hstrict : s.Guard s.state (· ≠ t) := by
      refine hguard.strict ?_ ?_ ?_
      · rw [hold]
        rfl
      · rw [hold]
        rfl
      · rw [hold]
        rfl
    exact hstrict.others hother

/-- A reader leaves the lock. -/
theorem Guarded.unlockShared (h : s.Guarded) (hinv : s.Inv) {bump : Bool}
    (hold : s.threads t = .unlockCas .shared bump s.state) :
    (s.move t (if wakes (s.state - 1) then .wakeOne bump else unlocked .shared bump)
      (s.state - 1)).Guarded := by
  intro hne
  obtain ⟨r, w, x, hcounts, hfields⟩ := hinv.exact
  obtain ⟨n, rfl⟩ : ∃ n, r = n + 1 := by
    refine ⟨r - 1, (Nat.sub_add_cancel (hcounts.readers.pos (i := t) ?_)).symm⟩
    rw [hold]
    rfl
  have hfields' := hfields.removeReader
  have hsame : (s.state - 1 &&& writerBit ≠ 0 ↔ s.state &&& writerBit ≠ 0) ∧
      (s.state - 1 &&& writerWaitingMask ≠ 0 ↔ s.state &&& writerWaitingMask ≠ 0) := by
    simp only [Ne, hfields.writer_eq_zero, hfields'.writer_eq_zero, hfields.waiting_eq_zero,
      hfields'.waiting_eq_zero, and_self]
  cases hwakes : wakes (s.state - 1) with
  | true =>
    refine .inr (.inr ⟨?_, .inr (.inl ⟨t, trivial, ?_⟩)⟩)
    · exact (of_decide_eq_true hwakes).2
    · rw [move_self]
      rfl
  | false =>
    have hguard := h hne
    rcases (hguard.strict (t := t) (by rw [hold]; rfl) (by rw [hold]; rfl) (by rw [hold]; rfl)) with
      hbit | ⟨u, hu, hall⟩ | ⟨hw, -⟩
    · exact .inl (hsame.1.mpr hbit)
    · refine .inr (.inl ⟨u, trivial, ?_⟩)
      rw [move_of_ne hu]
      exact hall
    · refine .inr (.inr ⟨hsame.2.mpr hw, .inl fun hzero => ?_⟩)
      rw [Bool.eq_false_iff] at hwakes
      exact hwakes (decide_eq_true ⟨hzero, hsame.2.mpr hw⟩)

theorem Guarded.step (h : s.Guarded) (hinv : s.Inv) (hinv' : s'.Inv) {e : Nat × RwLockAction}
    (hcare : s.Careful e) (hs : RwLockStep s e s') : s'.Guarded := by
  obtain ⟨t, action⟩ := e
  have he := hinv.effect_of_step hs
  cases he with
  | quiet hbusy hsame hsound hawake =>
    intro hne
    exact (h hne).goto hbusy (fun hreg => hsame.2.1.trans hreg) hawake
  | acquireShared hreadable hoverflow hold hbusy =>
    intro hne
    obtain ⟨hbit, hwaiting⟩ := of_decide_eq_true hreadable
    rcases h hne with hb | ⟨u, -, hall⟩ | ⟨hw, -⟩
    · exact absurd hbit hb
    · refine .inr (.inl ⟨u, trivial, ?_⟩)
      rw [move_of_ne]
      · exact hall
      · rintro rfl
        rw [hbusy.all] at hall
        cases hall
    · exact absurd hwaiting hw
  | acquireExclusive hwritable hshared hexclusive hawake =>
    intro _
    refine .inl (hinv'.exact.writer_ne_zero (t := t) ?_)
    rw [move_self]
    rfl
  | register hwritable hold hawake =>
    intro _
    refine .inr (.inr ⟨hinv'.exact.waiting_ne_zero (t := t) ?_, .inr (.inr ⟨t, trivial, ?_, ?_⟩)⟩)
    · rw [move_self]
      rfl
    · rw [move_self]
      rfl
    · rw [move_self]
      rfl
  | giveUp haction hold =>
    intro hne
    subst haction
    simp only [Careful, hold] at hcare
    exact (hcare trivial trivial hne).others fun u hu => move_of_ne hu
  | unlockShared hold => exact h.unlockShared hinv hold
  | unlockExclusive hold =>
    intro _
    refine .inr (.inl ⟨t, trivial, ?_⟩)
    rw [move_self]
    rfl
  | downgrade hold =>
    intro _
    refine .inr (.inl ⟨t, trivial, ?_⟩)
    rw [move_self]
    rfl
  | sleep haction hold =>
    subst haction
    refine h.sleep hinv hold ?_
    rintro rfl hreadable
    simp only [Careful, hold] at hcare
    exact hcare trivial hreadable
  | wakeNobody hold hnil =>
    intro hne
    exact absurd hnil hne
  | wakeSomebody haction hold hg =>
    rename_i bump g
    subst haction
    intro hne
    have hsleeping := (hinv.asleep g).mp hg
    have hne' : g ≠ t := by
      rintro rfl
      rw [hold] at hsleeping
      cases hsleeping
    have hother : ∀ u, u ≠ t →
        ((s.awake g).goto t (unlocked .shared bump)).threads u = (s.awake g).threads u :=
      fun u hu => Function.update_of_ne hu ..
    cases hregistered : (s.threads g).registered with
    | false => exact (hcare hregistered hne).awake.others hother
    | true =>
      obtain ⟨⟨-, hwoken, -⟩, hawake, -⟩ := same_woken (s.threads g)
      have hpc : ((s.awake g).goto t (unlocked .shared bump)).threads g = woken (s.threads g) :=
        (hother g hne').trans (awake_self s g)
      refine .inr (.inr ⟨hinv.exact.waiting_ne_zero hregistered, .inr (.inr ⟨g, trivial, ?_, ?_⟩)⟩)
      · rw [hpc, hwoken]
        exact hregistered
      · rw [hpc]
        exact hawake
  | wakeEverybody =>
    intro hne
    exact absurd rfl hne
  | awake ht =>
    intro hne
    obtain ⟨u, hu⟩ := List.exists_mem_of_ne_nil _ hne
    exact (h (List.ne_nil_of_mem (mem_awake.mp hu).1)).awake

/-- What holds in every state of a careful run. -/
structure Live (s : RwLock) : Prop where
  inv : s.Inv
  guarded : s.Guarded

theorem Live.step (h : s.Live) {e : Nat × RwLockAction}
    (hallowed : s.WithinLimits e ∧ s.Careful e) (hs : RwLockStep s e s') : s'.Live := by
  have hinv' := h.inv.of_effect (hallowed.1 s' hs) (h.inv.effect_of_step hs)
  exact ⟨hinv', h.guarded.step h.inv hinv' hallowed.2 hs⟩

end RwLock

/-- In a run below the limits in which no step loses the guard, nobody is asleep when nobody
has the lock and nobody else is in a call. -/
theorem blocking_rwlock_strands_nobody {s : RwLock}
    (h : Run RwLockStep (fun s e => s.WithinLimits e ∧ s.Careful e) (fun s => s = .new) s)
    (hquiet : ∀ t, s.threads t = .idle ∨ s.threads t = .panicked ∨
      (s.threads t).sleeping = true) (t : Nat) : (s.threads t).sleeping = false := by
  have hinv : s.Inv := RwLock.Inv.of_run (h.mono fun _ _ hallowed => hallowed.1)
  have hlive : s.Live := by
    refine h.invariant ?_ fun s e s' hs hallowed hstep => hs.step hallowed hstep
    rintro s rfl
    exact ⟨.new, fun hne => absurd rfl hne⟩
  have hnobody : ∀ u, (s.threads u).shared = false ∧ (s.threads u).exclusive = false ∧
      RwLock.wakesAll (s.threads u) = false ∧ RwLock.wakesOne (s.threads u) = false ∧
      ((s.threads u).registered = true → (s.threads u).sleeping = true) := by
    intro u
    rcases hquiet u with hidle | hpanicked | hsleeping
    · rw [hidle]
      exact ⟨rfl, rfl, rfl, rfl, id⟩
    · rw [hpanicked]
      exact ⟨rfl, rfl, rfl, rfl, id⟩
    · exact RwLockPc.eq_false_of_sleeping hsleeping
  rw [Bool.eq_false_iff]
  intro hsleeping
  have hmem : t ∈ s.sleepers := (hinv.asleep t).mpr hsleeping
  obtain ⟨hreader, -, hwriter⟩ := hinv.exact.exists_of_ne_zero
  rcases hlive.guarded (List.ne_nil_of_mem hmem) with
    hbit | ⟨u, -, hu⟩ | ⟨-, hr | ⟨u, -, hu⟩ | ⟨u, -, hu, hawake⟩⟩
  · obtain ⟨u, hu⟩ := hwriter hbit
    rw [(hnobody u).2.1] at hu
    cases hu
  · rw [(hnobody u).2.2.1] at hu
    cases hu
  · obtain ⟨u, hu⟩ := hreader hr
    rw [(hnobody u).1] at hu
    cases hu
  · rw [(hnobody u).2.2.2.1] at hu
    cases hu
  · rw [(hnobody u).2.2.2.2 hu] at hawake
    cases hawake

namespace RwLock

/-- A test for careful steps of the first two threads: nobody falls asleep or gives up in a way
that could lose the guard, and only waiting writers are woken alone. -/
def carefulTest (s : RwLock) (e : Nat × RwLockAction) : Bool :=
  decide (e.1 < 2) &&
    match e.2 with
    | .advance _ =>
        match s.threads e.1 with
        | .wait .shared _ _ state => !readable state
        | .giveUpCas _ => false
        | _ => true
    | .wake g => (s.threads g).registered
    | _ => true

theorem careful_of_test {s : RwLock} {e : Nat × RwLockAction} (h : carefulTest s e = true) :
    e.1 < 2 ∧ s.Careful e := by
  obtain ⟨t, action⟩ := e
  obtain ⟨hlt, htest⟩ := Bool.and_eq_true_iff.mp h
  refine ⟨of_decide_eq_true hlt, ?_⟩
  cases action with
  | wake g =>
    intro hnot
    rw [show (s.threads g).registered = true from htest] at hnot
    cases hnot
  | advance spurious =>
    simp only [Careful]
    simp only at htest
    split
    · rename_i hpc
      rw [hpc] at htest
      intro _ hreadable
      simp [hreadable] at htest
    · rename_i hpc
      rw [hpc] at htest
      cases htest
    · trivial
  | lock | unlock | bump | downgrade | timeout | interrupt => trivial

end RwLock

/-- The writer that was woken has downgraded its lock and unlocks. -/
def released : List (Nat × RwLockAction) :=
  downgraded ++
    ([(1, .advance false), (1, .unlock), (1, .advance false),
      (1, .advance false)] : List (Nat × RwLockAction))

def releasedRwLock : RwLock :=
  (replay RwLock.step RwLock.carefulTest .new released).get (by decide +kernel)

theorem blocking_rwlock_released :
    Run RwLockStep (fun s e => s.WithinLimits e ∧ s.Careful e) (fun s => s = .new)
        releasedRwLock ∧
      (∀ t, releasedRwLock.threads t = .idle ∨ releasedRwLock.threads t = .panicked ∨
        (releasedRwLock.threads t).sleeping = true) ∧
      (releasedRwLock.threads 1).sleeping = false := by
  have hreplay : replay RwLock.step RwLock.carefulTest .new released = some releasedRwLock :=
    (Option.some_get _).symm
  have hstart : Run RwLockStep (fun s e => s.WithinLimits e ∧ s.Careful e) (fun s => s = .new)
      .new := Run.start rfl
  have hbelow : ∀ e ∈ released, e.1 < 2 := by decide +kernel
  have hkeep : ∀ e ∈ released, ∀ s s', RwLock.Small 2 s → s.step e = some s' →
      RwLock.Small 2 s' := fun e he s s' hsmall hs => hsmall.step (by decide) (hbelow e he) hs
  have hrun := Run.replay_within (fun _ _ _ hs => hs) hkeep
    (fun s e hsmall ht => ⟨fun s' hs =>
      (hsmall.step (by decide) (RwLock.careful_of_test ht).1 hs).within.limited (by decide),
      (RwLock.careful_of_test ht).2⟩)
    ⟨.new, fun _ _ => rfl⟩ hstart hreplay
  have hquiet : ∀ t, releasedRwLock.threads t = .idle ∨ releasedRwLock.threads t = .panicked ∨
      (releasedRwLock.threads t).sleeping = true := by
    intro t
    rcases t with _ | _ | t
    · exact .inl (by decide +kernel)
    · exact .inl (by decide +kernel)
    · exact .inl rfl
  exact ⟨hrun, hquiet, blocking_rwlock_strands_nobody hrun hquiet 1⟩

/-- Thread 0 reads, thread 1 waits to write for a limited time, and thread 2 waits to read
because of the waiting writer.  The writer gives up, and the first reader unlocks. -/
def gaveUp : List (Nat × RwLockAction) :=
  ([(0, .lock .shared .forever), (0, .advance false), (0, .advance false),
      (1, .lock .exclusive .timed)] : List (Nat × RwLockAction)) ++
    List.replicate 5 (1, .advance false) ++
    ([(2, .lock .shared .forever)] : List (Nat × RwLockAction)) ++
    List.replicate 5 (2, .advance false) ++
    ([(1, .interrupt), (1, .advance false), (1, .timeout), (1, .advance false), (1, .advance false),
      (0, .unlock), (0, .advance false), (0, .advance false)] : List (Nat × RwLockAction))

def gaveUpRwLock : RwLock :=
  (replay RwLock.step (fun _ _ => true) .new gaveUp).get (by decide +kernel)

theorem blocking_rwlock_strands_reader :
    Run RwLockStep Always (fun s => s = .new) gaveUpRwLock ∧
      (∀ t, gaveUpRwLock.threads t = .idle ∨ gaveUpRwLock.threads t = .panicked ∨
        (gaveUpRwLock.threads t).sleeping = true) ∧
      gaveUpRwLock.threads 2 = .asleep .shared false false ∧ gaveUpRwLock.state = 0 := by
  have hreplay : replay RwLock.step (fun _ _ => true) .new gaveUp = some gaveUpRwLock :=
    (Option.some_get _).symm
  have hstart : Run RwLockStep Always (fun s => s = .new) .new := Run.start rfl
  refine ⟨hstart.replay (fun _ _ _ hs => hs) (fun _ _ _ => trivial) hreplay, fun t => ?_,
    by decide +kernel, by decide +kernel⟩
  rcases t with _ | _ | _ | t
  · exact .inl (by decide +kernel)
  · exact .inl (by decide +kernel)
  · exact .inr (.inr (by decide +kernel))
  · exact .inl rfl

end Veloq.Blocking
