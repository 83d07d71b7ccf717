import Veloq.Blocking.RwLock
set_option autoImplicit false

/-!
# Blocking: the word of the reader-writer lock is exact

The fields of the word count the threads that have the lock shared, the writers that wait, and
the thread that has the lock exclusively.  `Effect` says what one step does, from a state in
which the word is exact; everything else about runs rests on it.
-/

namespace Veloq.Blocking

open Veloq.Foundation

/-! ## The fields of the word -/

theorem and_readerMask (v : UInt32) : v &&& readerMask = 0 ↔ v.toNat % 2 ^ 16 = 0 := by
  have hmask : readerMask.toNat = 2 ^ 0 * (2 ^ 16 - 1) := rfl
  rw [← UInt32.toNat_inj, UInt32.toNat_and, hmask, Bits.land_field]
  show _ = 0 ↔ _
  omega

theorem and_writerWaitingMask (v : UInt32) :
    v &&& writerWaitingMask = 0 ↔ v.toNat / 2 ^ 16 % 2 ^ 14 = 0 := by
  have hmask : writerWaitingMask.toNat = 2 ^ 16 * (2 ^ 14 - 1) := rfl
  rw [← UInt32.toNat_inj, UInt32.toNat_and, hmask, Bits.land_field]
  show _ = 0 ↔ _
  omega

theorem and_writerBit (v : UInt32) : v &&& writerBit = 0 ↔ v.toNat < 2 ^ 31 := by
  have hmask : writerBit.toNat = 2 ^ 31 * (2 ^ 1 - 1) := rfl
  have hlt := v.toNat_lt
  rw [← UInt32.toNat_inj, UInt32.toNat_and, hmask, Bits.land_field]
  show _ = 0 ↔ _
  omega

theorem toNat_or_writerBit {v : UInt32} (h : v.toNat < 2 ^ 31) :
    (v ||| writerBit).toNat = v.toNat + 2 ^ 31 := by
  rw [UInt32.toNat_or]
  exact Bits.lor_high h

theorem toNat_and_not_writerBit {v : UInt32} (h : 2 ^ 31 ≤ v.toNat) :
    (v &&& ~~~writerBit).toNat = v.toNat - 2 ^ 31 := by
  have hmask : (~~~writerBit).toNat = 2 ^ 0 * (2 ^ 31 - 1) := rfl
  have hlt := v.toNat_lt
  rw [UInt32.toNat_and, hmask, Bits.land_field]
  omega

/-- The fields of the word: readers, waiting writers, and whether there is a writer. -/
structure Fields (v : UInt32) (readers waiting writer : Nat) : Prop where
  word : v.toNat = readers + 2 ^ 16 * waiting + 2 ^ 31 * writer
  readers_lt : readers < 2 ^ 16
  waiting_lt : waiting < 2 ^ 14
  writer_le : writer ≤ 1
  alone : writer = 1 → readers = 0

namespace Fields

variable {v : UInt32} {r w x : Nat}

theorem readers_eq_zero (h : Fields v r w x) : v &&& readerMask = 0 ↔ r = 0 := by
  obtain ⟨hword, hr, hw, hx, -⟩ := h
  rw [and_readerMask, hword]
  omega

theorem waiting_eq_zero (h : Fields v r w x) : v &&& writerWaitingMask = 0 ↔ w = 0 := by
  obtain ⟨hword, hr, hw, hx, -⟩ := h
  rw [and_writerWaitingMask, hword]
  omega

theorem writer_eq_zero (h : Fields v r w x) : v &&& writerBit = 0 ↔ x = 0 := by
  obtain ⟨hword, hr, hw, hx, -⟩ := h
  rw [and_writerBit, hword]
  omega

theorem readable (h : Fields v r w x) : RwLock.readable v = true ↔ x = 0 ∧ w = 0 := by
  unfold RwLock.readable
  rw [decide_eq_true_iff, h.writer_eq_zero, h.waiting_eq_zero]

theorem writable (h : Fields v r w x) : RwLock.writable v = true ↔ x = 0 ∧ r = 0 := by
  unfold RwLock.writable
  rw [decide_eq_true_iff, ← h.writer_eq_zero, ← h.readers_eq_zero]
  simp only [← UInt32.toNat_inj, UInt32.toNat_and, UInt32.toNat_or, Nat.and_or_distrib_left,
    UInt32.toNat_zero, Nat.or_eq_zero_iff]

theorem wakes (h : Fields v r w x) : RwLock.wakes v = true ↔ r = 0 ∧ w ≠ 0 := by
  unfold RwLock.wakes
  rw [decide_eq_true_iff, h.readers_eq_zero, Ne, h.waiting_eq_zero]

/-! ## What the operations do to them -/

theorem addReader (h : Fields v r w x) (hx : x = 0) (hr : r + 1 < 2 ^ 16) : Fields (v + 1) (r + 1) w x := by
  obtain ⟨hword, -, hw', hx', -⟩ := h
  refine ⟨?_, hr, hw', hx', fun hone => absurd hone (by omega)⟩
  have hone : (1 : UInt32).toNat = 1 := rfl
  rw [UInt32.toNat_add, hword, hone]
  omega

theorem removeReader (h : Fields v (r + 1) w x) : Fields (v - 1) r w x := by
  obtain ⟨hword, hr, hw, hx, halone⟩ := h
  refine ⟨?_, by omega, hw, hx, fun hone => absurd (halone hone) (Nat.succ_ne_zero r)⟩
  have hle : (1 : UInt32) ≤ v := by
    rw [UInt32.le_iff_toNat_le, hword]
    show 1 ≤ _
    omega
  rw [UInt32.toNat_sub_of_le _ _ hle, hword]
  show _ - 1 = _
  omega

theorem addWaiting (h : Fields v r w x) (hw : w + 1 < 2 ^ 14) :
    Fields (v + writerWaitingOne) r (w + 1) x := by
  obtain ⟨hword, hr, -, hx, halone⟩ := h
  refine ⟨?_, hr, hw, hx, halone⟩
  have hone : writerWaitingOne.toNat = 2 ^ 16 := rfl
  rw [UInt32.toNat_add, hword, hone]
  omega

theorem removeWaiting (h : Fields v r (w + 1) x) : Fields (v - writerWaitingOne) r w x := by
  obtain ⟨hword, hr, hw, hx, halone⟩ := h
  refine ⟨?_, hr, by omega, hx, halone⟩
  have hone : writerWaitingOne.toNat = 2 ^ 16 := rfl
  have hle : writerWaitingOne ≤ v := by
    rw [UInt32.le_iff_toNat_le, hword, hone]
    omega
  rw [UInt32.toNat_sub_of_le _ _ hle, hword, hone]
  omega

theorem setWriter (h : Fields v 0 w 0) : Fields (v ||| writerBit) 0 w 1 := by
  obtain ⟨hword, -, hw, -, -⟩ := h
  refine ⟨?_, Nat.two_pow_pos 16, hw, Nat.le_refl 1, fun _ => rfl⟩
  have hsum : v.toNat + 2 ^ 31 = 0 + 2 ^ 16 * w + 2 ^ 31 * 1 := by omega
  exact (toNat_or_writerBit (by omega)).trans hsum

theorem clearWriter (h : Fields v r w 1) : Fields (v &&& ~~~writerBit) 0 w 0 := by
  obtain ⟨hword, -, hw, -, halone⟩ := h
  have hr : r = 0 := halone rfl
  refine ⟨?_, Nat.two_pow_pos 16, hw, Nat.zero_le 1, fun _ => rfl⟩
  rw [toNat_and_not_writerBit (by omega), hword, hr]
  omega

/-- One more waiting writer does not free the lock. -/
theorem not_writable_addWaiting (h : Fields v r w x) (hv : RwLock.writable v = false) :
    RwLock.writable (v + writerWaitingOne) = false := by
  have hiff : ∀ u : UInt32, RwLock.writable u = true ↔ u.toNat < 2 ^ 31 ∧ u.toNat % 2 ^ 16 = 0 := by
    intro u
    unfold RwLock.writable
    rw [decide_eq_true_iff, ← and_writerBit, ← and_readerMask]
    simp only [← UInt32.toNat_inj, UInt32.toNat_and, UInt32.toNat_or, Nat.and_or_distrib_left,
      UInt32.toNat_zero, Nat.or_eq_zero_iff]
  obtain ⟨hword, hr, hw, hx, -⟩ := h
  have hone : writerWaitingOne.toNat = 2 ^ 16 := rfl
  rw [Bool.eq_false_iff, Ne, hiff] at hv ⊢
  rw [UInt32.toNat_add, hone]
  omega

/-- A writer acquires the lock and stops waiting if it has waited. -/
theorem acquired (h : Fields v 0 w 0) {incremented : Bool} (hw : incremented.toNat ≤ w) :
    Fields (RwLock.acquired incremented v) 0 (w - incremented.toNat) 1 := by
  unfold RwLock.acquired
  cases incremented with
  | false => exact h.setWriter
  | true =>
    obtain ⟨n, rfl⟩ : ∃ n, w = n + 1 := ⟨w - 1, (Nat.sub_add_cancel hw).symm⟩
    exact h.setWriter.removeWaiting

end Fields

/-! ## The threads that are counted -/

namespace RwLockPc

/-- The thread is counted in the same fields as one at `pc`. -/
def Same (pc pc' : RwLockPc) : Prop :=
  pc'.shared = pc.shared ∧ pc'.registered = pc.registered ∧ pc'.exclusive = pc.exclusive

/-- What a thread knows by itself: the fields of its local copy of the word to which it is
counted are not 0, and only writers that are counted as waiting go to sleep. -/
def sound : RwLockPc → Bool
  | unlockCas .shared _ state => decide (state &&& readerMask ≠ 0)
  | head .exclusive _ true state | giveUpCas state => decide (state &&& writerWaitingMask ≠ 0)
  | wait .exclusive _ incremented state => incremented && !RwLock.writable state
  | asleep .exclusive _ incremented => incremented
  | _ => true

theorem noBorrow_of_sound {pc : RwLockPc} (h : pc.sound = true) : pc.noBorrow = true := by
  unfold noBorrow
  split
  · exact h
  · exact h
  · exact h
  · rfl

end RwLockPc

namespace RwLock

variable {s s' : RwLock} {t g : Nat} {pc : RwLockPc} {word : UInt32} {action : RwLockAction}

/-- The three counts. -/
structure Counts (s : RwLock) (readers waiting writer : Nat) : Prop where
  readers : Census (fun t => (s.threads t).shared = true) readers
  waiting : Census (fun t => (s.threads t).registered = true) waiting
  writer : Census (fun t => (s.threads t).exclusive = true) writer

/-- The word holds the counts. -/
def Exact (s : RwLock) : Prop := ∃ r w x, s.Counts r w x ∧ Fields s.state r w x

theorem Exact.new : Exact new :=
  ⟨0, 0, 0, ⟨.zero fun _ h => Bool.false_ne_true h, .zero fun _ h => Bool.false_ne_true h,
    .zero fun _ h => Bool.false_ne_true h⟩, rfl, Nat.two_pow_pos 16, Nat.two_pow_pos 14,
    Nat.zero_le 1, fun _ => rfl⟩

/-- The counts do not change as long as every thread is counted as before. -/
theorem Exact.congr (h : s.Exact) (hstate : s'.state = s.state)
    (hsame : ∀ u, (s.threads u).Same (s'.threads u)) : s'.Exact := by
  obtain ⟨r, w, x, ⟨hr, hw, hx⟩, hfields⟩ := h
  refine ⟨r, w, x, ⟨hr.congr fun u => ?_, hw.congr fun u => ?_, hx.congr fun u => ?_⟩, ?_⟩
  · rw [(hsame u).1]
  · rw [(hsame u).2.1]
  · rw [(hsame u).2.2]
  · rw [hstate]
    exact hfields

theorem move_self (s : RwLock) (t : Nat) (pc : RwLockPc) (word : UInt32) :
    (s.move t pc word).threads t = pc := Function.update_self ..

theorem move_of_ne (h : g ≠ t) : (s.move t pc word).threads g = s.threads g :=
  Function.update_of_ne h ..

theorem Exact.goto (h : s.Exact) (hsame : (s.threads t).Same pc) : (s.goto t pc).Exact := by
  refine h.congr rfl fun u => ?_
  show (s.threads u).Same (Function.update s.threads t pc u)
  by_cases hu : u = t
  · subst hu
    rw [Function.update_self]
    exact hsame
  · rw [Function.update_of_ne hu]
    exact ⟨rfl, rfl, rfl⟩

/-- A thread changes the word and the fields in which it is counted. -/
theorem Exact.move (h : s.Exact) (hlimited : (s.move t pc word).Limited)
    (hfields : ∀ r w x r' w' x', Fields s.state r w x →
      r' + (s.threads t).shared.toNat = r + pc.shared.toNat →
      w' + (s.threads t).registered.toNat = w + pc.registered.toNat →
      x' + (s.threads t).exclusive.toNat = x + pc.exclusive.toNat →
      r' < 2 ^ 16 - 1 → w' < 2 ^ 14 → Fields word r' w' x') : (s.move t pc word).Exact := by
  obtain ⟨r, w, x, ⟨hr, hw, hx⟩, hf⟩ := h
  obtain ⟨r', hr', hreq⟩ := hr.update t pc
  obtain ⟨w', hw', hweq⟩ := hw.update t pc
  obtain ⟨x', hx', hxeq⟩ := hx.update t pc
  exact ⟨r', w', x', ⟨hr', hw', hx'⟩,
    hfields r w x r' w' x' hf hreq hweq hxeq (hlimited.1 r' hr') (hlimited.2 w' hw')⟩

/-- A thread that has the lock shared finds readers in the word. -/
theorem Exact.readers_ne_zero (h : s.Exact) (ht : (s.threads t).shared = true) :
    s.state &&& readerMask ≠ 0 := by
  obtain ⟨r, w, x, hcounts, hfields⟩ := h
  rw [Ne, hfields.readers_eq_zero]
  exact Nat.ne_of_gt (hcounts.readers.pos ht)

theorem Exact.waiting_ne_zero (h : s.Exact) (ht : (s.threads t).registered = true) :
    s.state &&& writerWaitingMask ≠ 0 := by
  obtain ⟨r, w, x, hcounts, hfields⟩ := h
  rw [Ne, hfields.waiting_eq_zero]
  exact Nat.ne_of_gt (hcounts.waiting.pos ht)

/-- A thread that has the lock exclusively finds the writer's bit in the word. -/
theorem Exact.writer_ne_zero (h : s.Exact) (ht : (s.threads t).exclusive = true) :
    s.state &&& writerBit ≠ 0 := by
  obtain ⟨r, w, x, hcounts, hfields⟩ := h
  rw [Ne, hfields.writer_eq_zero]
  exact Nat.ne_of_gt (hcounts.writer.pos ht)

/-- Whoever is counted by the word exists. -/
theorem Exact.exists_of_ne_zero (h : s.Exact) :
    (s.state &&& readerMask ≠ 0 → ∃ t, (s.threads t).shared = true) ∧
      (s.state &&& writerWaitingMask ≠ 0 → ∃ t, (s.threads t).registered = true) ∧
      (s.state &&& writerBit ≠ 0 → ∃ t, (s.threads t).exclusive = true) := by
  obtain ⟨r, w, x, hcounts, hfields⟩ := h
  simp only [Ne, hfields.readers_eq_zero, hfields.waiting_eq_zero, hfields.writer_eq_zero]
  exact ⟨fun hr => hcounts.readers.exists_of_pos (Nat.pos_of_ne_zero hr),
    fun hw => hcounts.waiting.exists_of_pos (Nat.pos_of_ne_zero hw),
    fun hx => hcounts.writer.exists_of_pos (Nat.pos_of_ne_zero hx)⟩

/-! ## What a step does -/

/-- What holds in every state of a run below the limits. -/
structure Inv (s : RwLock) : Prop where
  exact : s.Exact
  sound : ∀ t, (s.threads t).sound = true
  asleep : ∀ t, t ∈ s.sleepers ↔ (s.threads t).sleeping = true

/-- The thread is about to wake others. -/
def wakesAll : RwLockPc → Bool
  | .wakeAll _ | .downgradeWake => true
  | _ => false

def wakesOne : RwLockPc → Bool
  | .wakeOne _ => true
  | _ => false

/-- The thread is awake and not about to wake others. -/
structure Busy (pc : RwLockPc) : Prop where
  awake : pc.sleeping = false
  one : wakesOne pc = false
  all : wakesAll pc = false

/-- What one step of the thread `t` does. -/
inductive Effect (s : RwLock) (t : Nat) (action : RwLockAction) : RwLock → Prop where
  /-- The thread goes on, and nothing else changes. -/
  | quiet {pc : RwLockPc} (hbusy : Busy (s.threads t)) (hsame : (s.threads t).Same pc)
      (hsound : pc.sound = true) (hawake : pc.sleeping = false) : Effect s t action (s.goto t pc)
  | acquireShared (hreadable : readable s.state = true) (hoverflow : overflows s.state = false)
      (hold : RwLockPc.Same .idle (s.threads t)) (hbusy : Busy (s.threads t)) :
      Effect s t action (s.move t (.holding .shared) (s.state + 1))
  | acquireExclusive (hwritable : writable s.state = true) (hshared : (s.threads t).shared = false)
      (hexclusive : (s.threads t).exclusive = false) (hawake : (s.threads t).sleeping = false) :
      Effect s t action (s.move t (.holding .exclusive) (acquired (s.threads t).registered s.state))
  | register {timed : Bool} (hwritable : writable s.state = false)
      (hold : RwLockPc.Same .idle (s.threads t)) (hawake : (s.threads t).sleeping = false) :
      Effect s t action (s.move t (.wait .exclusive timed true (s.state + writerWaitingOne))
        (s.state + writerWaitingOne))
  | giveUp (haction : action = .advance false) (hold : s.threads t = .giveUpCas s.state) :
      Effect s t action (s.move t .idle (s.state - writerWaitingOne))
  | unlockShared {bump : Bool} (hold : s.threads t = .unlockCas .shared bump s.state) :
      Effect s t action (s.move t
        (if wakes (s.state - 1) then .wakeOne bump else unlocked .shared bump) (s.state - 1))
  | unlockExclusive {bump : Bool} (hold : s.threads t = .unlockCas .exclusive bump s.state) :
      Effect s t action (s.move t (.wakeAll bump) (s.state &&& ~~~writerBit))
  | downgrade (hold : s.threads t = .downgradeCas s.state) :
      Effect s t action (s.move t .downgradeWake ((s.state &&& ~~~writerBit) + 1))
  | sleep {spurious : Bool} {kind : Kind} {timed incremented : Bool}
      (haction : action = .advance spurious)
      (hold : s.threads t = .wait kind timed incremented s.state) :
      Effect s t action { s.goto t (.asleep kind timed incremented) with sleepers := s.sleepers ++ [t] }
  | wakeNobody {bump : Bool} (hold : s.threads t = .wakeOne bump) (hnil : s.sleepers = []) :
      Effect s t action (s.goto t (unlocked .shared bump))
  | wakeSomebody {bump : Bool} {g : Nat} (haction : action = .wake g)
      (hold : s.threads t = .wakeOne bump) (hg : g ∈ s.sleepers) : Effect s t action ((s.awake g).goto t (unlocked .shared bump))
  | wakeEverybody {pc : RwLockPc} (hold : wakesAll (s.threads t) = true)
      (hsame : (s.threads t).Same pc) (hsound : pc.sound = true) (hawake : pc.sleeping = false) :
      Effect s t action (s.awakeAll.goto t pc)
  | awake (ht : t ∈ s.sleepers) : Effect s t action (s.awake t)

theorem cas_cases (s : RwLock) (t : Nat) (spurious : Bool) (expected new : UInt32)
    (ok : RwLockPc) (failed : UInt32 → RwLockPc) :
    (s.state = expected ∧ spurious = false ∧
        s.cas t spurious expected new ok failed = s.move t ok new) ∨
      s.cas t spurious expected new ok failed = s.goto t (failed s.state) := by
  unfold cas
  split
  · rename_i h
    exact .inl ⟨h.1, h.2, rfl⟩
  · exact .inr rfl

/-- A thread may go on to this point without being counted. -/
structure Open (pc : RwLockPc) : Prop where
  same : RwLockPc.Same .idle pc
  sound : pc.sound = true
  awake : pc.sleeping = false

theorem open_unlocked (kind : Kind) (bump : Bool) : Open (unlocked kind bump) := by
  cases bump with
  | true => exact ⟨⟨rfl, rfl, rfl⟩, rfl, rfl⟩
  | false => exact ⟨⟨rfl, rfl, rfl⟩, rfl, rfl⟩

theorem open_denied (kind : Kind) (mode : Mode) : Open (denied kind mode) := by
  cases kind <;> cases mode <;> exact ⟨⟨rfl, rfl, rfl⟩, rfl, rfl⟩

/-- A thread that is not counted goes on. -/
theorem Effect.plain (hbusy : Busy (s.threads t)) (hold : RwLockPc.Same .idle (s.threads t))
    (hopen : Open pc) : Effect s t action (s.goto t pc) := by
  obtain ⟨hshared, hregistered, hexclusive⟩ := hopen.same
  exact .quiet hbusy ⟨hshared.trans hold.1.symm, hregistered.trans hold.2.1.symm,
    hexclusive.trans hold.2.2.symm⟩ hopen.sound hopen.awake

/-- The attempt of a reader. -/
theorem Effect.read (hbusy : Busy (s.threads t)) (hold : RwLockPc.Same .idle (s.threads t))
    {state : UInt32} {spurious : Bool} {failed : UInt32 → RwLockPc} {blocked : RwLockPc}
    (hfailed : ∀ v, Open (failed v)) (hblocked : Open blocked)
    (hs : (if readable state then
        if overflows state then some (s.goto t .panicked)
        else some (s.cas t spurious state (state + 1) (.holding .shared) failed)
      else some (s.goto t blocked)) = some s') : Effect s t action s' := by
  split at hs
  · rename_i hreadable
    split at hs
    · cases hs
      exact .plain hbusy hold ⟨⟨rfl, rfl, rfl⟩, rfl, rfl⟩
    · rename_i hoverflow
      cases hs
      rcases cas_cases s t spurious state (state + 1) (.holding .shared) failed with
        ⟨heq, hspurious, hcas⟩ | hcas
      · rw [hcas, ← heq]
        rw [← heq] at hreadable hoverflow
        exact .acquireShared hreadable (Bool.eq_false_iff.mpr hoverflow) hold hbusy
      · rw [hcas]
        exact .plain hbusy hold (hfailed _)
  · cases hs
    exact .plain hbusy hold hblocked

/-- The attempt of a writer on a free lock. -/
theorem Effect.write (hbusy : Busy (s.threads t)) (hshared : (s.threads t).shared = false)
    (hexclusive : (s.threads t).exclusive = false) {state : UInt32} {spurious incremented : Bool}
    {failed : UInt32 → RwLockPc} (hregistered : (s.threads t).registered = incremented)
    (hwritable : writable state = true)
    (hfailed : (s.threads t).Same (failed s.state) ∧ (failed s.state).sound = true ∧
      (failed s.state).sleeping = false) :
    Effect s t action (s.cas t spurious state (acquired incremented state) (.holding .exclusive) failed) := by
  rcases cas_cases s t spurious state (acquired incremented state) (.holding .exclusive) failed with
    ⟨heq, hspurious, hcas⟩ | hcas
  · rw [hcas, ← heq, ← hregistered]
    exact .acquireExclusive (heq ▸ hwritable) hshared hexclusive hbusy.awake
  · rw [hcas]
    exact .quiet hbusy hfailed.1 hfailed.2.1 hfailed.2.2

theorem Inv.effect_of_advance (h : s.Inv) {spurious : Bool} (hs : s.advance t spurious = some s') :
    Effect s t (.advance spurious) s' := by
  have hsound := h.sound t
  unfold advance at hs
  split at hs
  case h_1 kind mode hpc =>
    cases hs
    refine .plain ?_ ?_ ?_
    · rw [hpc]
      exact ⟨rfl, rfl, rfl⟩
    · rw [hpc]
      exact ⟨rfl, rfl, rfl⟩
    · exact ⟨⟨rfl, rfl, rfl⟩, rfl, rfl⟩
  case h_2 mode state hpc =>
    refine .read ?_ ?_ (fun _ => ?_) (open_denied ..) hs
    · rw [hpc]
      exact ⟨rfl, rfl, rfl⟩
    · rw [hpc]
      exact ⟨rfl, rfl, rfl⟩
    · exact ⟨⟨rfl, rfl, rfl⟩, rfl, rfl⟩
  case h_3 mode state hpc =>
    have hbusy : Busy (s.threads t) := by
      rw [hpc]
      exact ⟨rfl, rfl, rfl⟩
    have hold : RwLockPc.Same .idle (s.threads t) := by
      rw [hpc]
      exact ⟨rfl, rfl, rfl⟩
    split at hs
    · rename_i hwritable
      cases hs
      refine .write hbusy hold.1 hold.2.2 hold.2.1 hwritable ⟨?_, rfl, rfl⟩
      rw [hpc]
      exact ⟨rfl, rfl, rfl⟩
    · cases hs
      exact .plain hbusy hold (open_denied ..)
  case h_4 kind timed incremented hpc =>
    cases hs
    have hbusy : Busy (s.threads t) := by
      rw [hpc]
      exact ⟨rfl, rfl, rfl⟩
    have hsame : (s.threads t).Same (.head kind timed incremented s.state) := by
      rw [hpc]
      cases kind <;> cases incremented <;> exact ⟨rfl, rfl, rfl⟩
    refine .quiet hbusy hsame ?_ rfl
    cases kind with
    | shared => rfl
    | exclusive =>
      cases incremented with
      | false => rfl
      | true =>
        refine decide_eq_true (h.exact.waiting_ne_zero (t := t) ?_)
        rw [hpc]
        rfl
  case h_5 timed incremented state hpc =>
    refine .read ?_ ?_ (fun _ => ?_) ?_ hs
    · rw [hpc]
      exact ⟨rfl, rfl, rfl⟩
    · rw [hpc]
      exact ⟨rfl, rfl, rfl⟩
    · exact ⟨⟨rfl, rfl, rfl⟩, rfl, rfl⟩
    · exact ⟨⟨rfl, rfl, rfl⟩, rfl, rfl⟩
  case h_6 timed incremented state hpc =>
    have hbusy : Busy (s.threads t) := by
      rw [hpc]
      exact ⟨rfl, rfl, rfl⟩
    have hregistered : (s.threads t).registered = incremented := by
      rw [hpc]
      cases incremented <;> rfl
    split at hs
    · rename_i hwritable
      cases hs
      refine .write hbusy (by rw [hpc]; rfl) (by rw [hpc]; rfl) hregistered hwritable ⟨?_, ?_, rfl⟩
      · rw [hpc]
        cases incremented <;> exact ⟨rfl, rfl, rfl⟩
      · cases incremented with
        | false => rfl
        | true => exact decide_eq_true (h.exact.waiting_ne_zero hregistered)
    · rename_i hwritable
      have hblocked : writable state = false := Bool.eq_false_iff.mpr hwritable
      split at hs
      · rename_i hincremented
        cases hs
        refine .quiet hbusy ?_ ?_ rfl
        · rw [hpc, hincremented]
          exact ⟨rfl, rfl, rfl⟩
        · show (true && !writable state) = true
          rw [hblocked]
          rfl
      · rename_i hincremented
        cases hs
        rw [Bool.not_eq_true] at hincremented
        subst hincremented
        rcases cas_cases s t spurious state (state + writerWaitingOne)
          (.wait .exclusive timed true (state + writerWaitingOne)) (.head .exclusive timed false)
          with ⟨heq, hspurious, hcas⟩ | hcas
        · rw [hcas, ← heq]
          refine .register (heq ▸ hblocked) ?_ hbusy.awake
          rw [hpc]
          exact ⟨rfl, rfl, rfl⟩
        · rw [hcas]
          refine .quiet hbusy ?_ rfl rfl
          rw [hpc]
          exact ⟨rfl, rfl, rfl⟩
  case h_7 kind timed incremented state hpc =>
    split at hs
    · rename_i heq
      cases hs
      exact .sleep rfl (by rw [hpc, heq])
    · cases hs
      refine .quiet ?_ ?_ ?_ rfl
      · rw [hpc]
        exact ⟨rfl, rfl, rfl⟩
      · rw [hpc]
        cases kind <;> cases incremented <;> exact ⟨rfl, rfl, rfl⟩
      · rfl
  case h_8 hpc =>
    cases hs
    refine .quiet ?_ ?_ (decide_eq_true (h.exact.waiting_ne_zero (t := t) ?_)) rfl
    · rw [hpc]
      exact ⟨rfl, rfl, rfl⟩
    · rw [hpc]
      exact ⟨rfl, rfl, rfl⟩
    · rw [hpc]
      rfl
  case h_9 state hpc =>
    cases hs
    rcases cas_cases s t spurious state (state - writerWaitingOne) .idle .giveUpCas with
      ⟨heq, hspurious, hcas⟩ | hcas
    · rw [hcas, ← heq]
      exact .giveUp (by rw [hspurious]) (by rw [hpc, heq])
    · rw [hcas]
      refine .quiet ?_ ?_ (decide_eq_true (h.exact.waiting_ne_zero (t := t) ?_)) rfl
      · rw [hpc]
        exact ⟨rfl, rfl, rfl⟩
      · rw [hpc]
        exact ⟨rfl, rfl, rfl⟩
      · rw [hpc]
        rfl
  case h_10 kind bump hpc =>
    cases hs
    refine .quiet ?_ ?_ ?_ rfl
    · rw [hpc]
      exact ⟨rfl, rfl, rfl⟩
    · rw [hpc]
      cases kind <;> exact ⟨rfl, rfl, rfl⟩
    · cases kind with
      | exclusive => rfl
      | shared =>
        refine decide_eq_true (h.exact.readers_ne_zero (t := t) ?_)
        rw [hpc]
        rfl
  case h_11 bump state hpc =>
    cases hs
    rcases cas_cases s t spurious state (state - 1)
      (if wakes (state - 1) then .wakeOne bump else unlocked .shared bump)
      (.unlockCas .shared bump) with ⟨heq, hspurious, hcas⟩ | hcas
    · rw [hcas, ← heq]
      exact .unlockShared (by rw [hpc, heq])
    · rw [hcas]
      refine .quiet ?_ ?_ (decide_eq_true (h.exact.readers_ne_zero (t := t) ?_)) rfl
      · rw [hpc]
        exact ⟨rfl, rfl, rfl⟩
      · rw [hpc]
        exact ⟨rfl, rfl, rfl⟩
      · rw [hpc]
        rfl
  case h_12 bump state hpc =>
    cases hs
    rcases cas_cases s t spurious state (state &&& ~~~writerBit) (.wakeAll bump)
      (.unlockCas .exclusive bump) with ⟨heq, hspurious, hcas⟩ | hcas
    · rw [hcas, ← heq]
      exact .unlockExclusive (by rw [hpc, heq])
    · rw [hcas]
      refine .quiet ?_ ?_ rfl rfl
      · rw [hpc]
        exact ⟨rfl, rfl, rfl⟩
      · rw [hpc]
        exact ⟨rfl, rfl, rfl⟩
  case h_13 bump hpc =>
    split at hs
    · rename_i hnil
      cases hs
      exact .wakeNobody hpc hnil
    · cases hs
  case h_14 bump hpc =>
    cases hs
    obtain ⟨hsame, hsound, hawake⟩ := open_unlocked .exclusive bump
    refine .wakeEverybody (by rw [hpc]; rfl) ?_ hsound hawake
    rw [hpc]
    exact hsame
  case h_15 hpc =>
    cases hs
    refine .quiet ?_ ?_ rfl rfl
    · rw [hpc]
      exact ⟨rfl, rfl, rfl⟩
    · rw [hpc]
      exact ⟨rfl, rfl, rfl⟩
  case h_16 state hpc =>
    cases hs
    rcases cas_cases s t spurious state ((state &&& ~~~writerBit) + 1) .downgradeWake
      .downgradeCas with ⟨heq, hspurious, hcas⟩ | hcas
    · rw [hcas, ← heq]
      exact .downgrade (by rw [hpc, heq])
    · rw [hcas]
      refine .quiet ?_ ?_ rfl rfl
      · rw [hpc]
        exact ⟨rfl, rfl, rfl⟩
      · rw [hpc]
        exact ⟨rfl, rfl, rfl⟩
  case h_17 hpc =>
    cases hs
    refine .wakeEverybody (by rw [hpc]; rfl) ?_ rfl rfl
    rw [hpc]
    exact ⟨rfl, rfl, rfl⟩
  all_goals cases hs

theorem Inv.effect_of_step (h : s.Inv)
    (hs : RwLockStep s (t, action) s') : Effect s t action s' := by
  unfold RwLockStep at hs
  cases action with
  | advance spurious => exact h.effect_of_advance hs
  | lock kind mode =>
    unfold RwLock.step at hs
    dsimp only at hs
    split at hs
    · rename_i hpc
      cases hs
      refine .plain ?_ ?_ ⟨⟨rfl, rfl, rfl⟩, rfl, rfl⟩
      · rw [hpc]
        exact ⟨rfl, rfl, rfl⟩
      · rw [hpc]
        exact ⟨rfl, rfl, rfl⟩
    · cases hs
  | unlock | bump =>
    unfold RwLock.step at hs
    dsimp only at hs
    split at hs
    · rename_i kind hpc
      cases hs
      refine .quiet ?_ ?_ rfl rfl
      · rw [hpc]
        exact ⟨rfl, rfl, rfl⟩
      · rw [hpc]
        cases kind <;> exact ⟨rfl, rfl, rfl⟩
    · cases hs
  | downgrade =>
    unfold RwLock.step at hs
    dsimp only at hs
    split at hs
    · rename_i hpc
      cases hs
      refine .quiet ?_ ?_ rfl rfl
      · rw [hpc]
        exact ⟨rfl, rfl, rfl⟩
      · rw [hpc]
        exact ⟨rfl, rfl, rfl⟩
    · cases hs
  | wake g =>
    unfold RwLock.step at hs
    dsimp only at hs
    split at hs
    · rename_i bump hpc
      split at hs
      · rename_i hg
        cases hs
        exact .wakeSomebody rfl hpc hg
      · cases hs
    · cases hs
  | timeout =>
    unfold RwLock.step at hs
    dsimp only at hs
    split at hs
    · rename_i incremented state hpc
      cases hs
      refine .plain ?_ ?_ ⟨⟨rfl, rfl, rfl⟩, rfl, rfl⟩
      · rw [hpc]
        exact ⟨rfl, rfl, rfl⟩
      · rw [hpc]
        exact ⟨rfl, rfl, rfl⟩
    · rename_i incremented state hpc
      cases hs
      refine .quiet ?_ ?_ ?_ ?_
      · rw [hpc]
        exact ⟨rfl, rfl, rfl⟩
      · rw [hpc]
        cases incremented <;> exact ⟨rfl, rfl, rfl⟩
      · cases incremented <;> rfl
      · cases incremented <;> rfl
    · cases hs
  | interrupt =>
    unfold RwLock.step at hs
    dsimp only at hs
    split at hs
    · rename_i ht
      cases hs
      exact .awake ht
    · cases hs

/-! ## The invariant along the steps -/

/-- One thread moves, and the word changes with it. -/
theorem Inv.moved (h : s.Inv) (hexact : (s.move t pc word).Exact) (hsound : pc.sound = true)
    (hawake : (s.threads t).sleeping = false) (hawake' : pc.sleeping = false) :
    (s.move t pc word).Inv := by
  refine ⟨hexact, fun u => ?_, fun u => ?_⟩
  · by_cases hu : u = t
    · rw [hu, move_self]
      exact hsound
    · rw [move_of_ne hu]
      exact h.sound u
  · by_cases hu : u = t
    · subst hu
      rw [move_self, hawake', ← hawake]
      exact h.asleep u
    · rw [move_of_ne hu]
      exact h.asleep u

/-- A thread whose wait has ended is counted as before. -/
theorem same_woken (pc : RwLockPc) : pc.Same (woken pc) ∧ (woken pc).sleeping = false ∧
    (pc.sound = true → (woken pc).sound = true) := by
  cases pc with
  | asleep kind timed incremented =>
    refine ⟨?_, rfl, fun _ => rfl⟩
    cases kind <;> cases incremented <;> exact ⟨rfl, rfl, rfl⟩
  | idle | holding | panicked | tryLoad | tryCas | load | head | wait | giveUpLoad | giveUpCas
  | unlockLoad | unlockCas | wakeOne | wakeAll | downgradeLoad | downgradeCas
  | downgradeWake => exact ⟨⟨rfl, rfl, rfl⟩, rfl, id⟩

theorem awake_self (s : RwLock) (g : Nat) : (s.awake g).threads g = woken (s.threads g) :=
  Function.update_self ..

theorem awake_of_ne (h : t ≠ g) : (s.awake g).threads t = s.threads t :=
  Function.update_of_ne h ..

theorem mem_awake {u : Nat} : u ∈ (s.awake g).sleepers ↔ u ∈ s.sleepers ∧ u ≠ g :=
  List.mem_filter.trans (and_congr_right fun _ => decide_eq_true_iff)

theorem Inv.awake (h : s.Inv) : (s.awake g).Inv := by
  obtain ⟨hsame, hawake, hsound⟩ := same_woken (s.threads g)
  refine ⟨h.exact.congr rfl fun u => ?_, fun u => ?_, fun u => ?_⟩
  · by_cases hu : u = g
    · rw [hu, awake_self]
      exact hsame
    · rw [awake_of_ne hu]
      exact ⟨rfl, rfl, rfl⟩
  · by_cases hu : u = g
    · rw [hu, awake_self]
      exact hsound (h.sound g)
    · rw [awake_of_ne hu]
      exact h.sound u
  · rw [mem_awake]
    by_cases hu : u = g
    · subst hu
      rw [awake_self, hawake]
      exact ⟨fun hmem => absurd rfl hmem.2, fun hf => absurd hf Bool.false_ne_true⟩
    · rw [awake_of_ne hu, ← h.asleep u]
      exact and_iff_left hu

theorem Inv.awakeAll (h : s.Inv) : s.awakeAll.Inv := by
  refine ⟨h.exact.congr rfl fun u => (same_woken _).1,
    fun u => (same_woken _).2.2 (h.sound u), fun u => ⟨fun hmem => absurd hmem List.not_mem_nil, ?_⟩⟩
  intro hsleeping
  rw [show s.awakeAll.threads u = woken (s.threads u) from rfl, (same_woken _).2.1] at hsleeping
  cases hsleeping

/-- A thread falls asleep. -/
theorem Inv.sleep (h : s.Inv) {kind : Kind} {timed incremented : Bool}
    (hold : s.threads t = .wait kind timed incremented s.state) :
    Inv { s.goto t (.asleep kind timed incremented) with sleepers := s.sleepers ++ [t] } := by
  have hself : (s.goto t (.asleep kind timed incremented)).threads t =
      .asleep kind timed incremented := Function.update_self ..
  have hother : ∀ u, u ≠ t → (s.goto t (.asleep kind timed incremented)).threads u = s.threads u :=
    fun u hu => Function.update_of_ne hu ..
  have hsame : (s.threads t).Same (.asleep kind timed incremented) := by
    rw [hold]
    cases kind <;> cases incremented <;> exact ⟨rfl, rfl, rfl⟩
  refine ⟨(h.exact.goto hsame).congr rfl fun _ => ⟨rfl, rfl, rfl⟩, fun u => ?_, fun u => ?_⟩
  · show ((s.goto t (.asleep kind timed incremented)).threads u).sound = true
    by_cases hu : u = t
    · rw [hu, hself]
      have hsound := h.sound t
      rw [hold] at hsound
      cases kind with
      | shared => rfl
      | exclusive => exact (Bool.and_eq_true_iff.mp hsound).1
    · rw [hother u hu]
      exact h.sound u
  · show u ∈ s.sleepers ++ [t] ↔ ((s.goto t (.asleep kind timed incremented)).threads u).sleeping = true
    rw [List.mem_append, List.mem_singleton]
    by_cases hu : u = t
    · subst hu
      rw [hself]
      exact ⟨fun _ => rfl, fun _ => .inr rfl⟩
    · rw [hother u hu, ← h.asleep u]
      exact or_iff_left hu

/-- A thread goes on and is counted as before. -/
theorem Inv.goto (h : s.Inv) (hsame : (s.threads t).Same pc) (hsound : pc.sound = true)
    (hawake : (s.threads t).sleeping = false) (hawake' : pc.sleeping = false) :
    (s.goto t pc).Inv :=
  h.moved (h.exact.goto hsame) hsound hawake hawake'

theorem Inv.of_effect (h : s.Inv) (hlimited : s'.Limited) (he : Effect s t action s') : s'.Inv := by
  cases he with
  | quiet hbusy hsame hsound hawake => exact h.goto hsame hsound hbusy.awake hawake
  | acquireShared hreadable hoverflow hold hbusy =>
    refine h.moved (h.exact.move hlimited ?_) rfl hbusy.awake rfl
    intro r w x r' w' x' hfields hr hw hx hlt _
    rw [hold.1] at hr
    rw [hold.2.1] at hw
    rw [hold.2.2] at hx
    obtain rfl : r' = r + 1 := hr
    obtain rfl : w' = w := hw
    obtain rfl : x' = x := hx
    exact hfields.addReader (hfields.readable.mp hreadable).1 (by omega)
  | acquireExclusive hwritable hshared hexclusive hawake =>
    refine h.moved (h.exact.move hlimited ?_) rfl hawake rfl
    intro r w x r' w' x' hfields hr hw hx _ _
    rw [hshared] at hr
    rw [hexclusive] at hx
    obtain ⟨rfl, rfl⟩ := hfields.writable.mp hwritable
    obtain rfl : r' = 0 := hr
    obtain rfl : x' = 1 := hx
    have hle : (s.threads t).registered.toNat ≤ w := by
      rw [show RwLockPc.registered (.holding .exclusive) = false from rfl] at hw
      exact Nat.le_of_add_left_le (Nat.le_of_eq hw)
    obtain rfl : w' = w - (s.threads t).registered.toNat := by
      exact Nat.eq_sub_of_add_eq hw
    exact hfields.acquired hle
  | register hwritable hold hawake =>
    have hsound : writable (s.state + writerWaitingOne) = false := by
      obtain ⟨r, w, x, -, hfields⟩ := h.exact
      exact hfields.not_writable_addWaiting hwritable
    refine h.moved (h.exact.move hlimited ?_) ?_ hawake rfl
    · intro r w x r' w' x' hfields hr hw hx _ hlt
      rw [hold.1] at hr
      rw [hold.2.1] at hw
      rw [hold.2.2] at hx
      obtain rfl : r' = r := hr
      obtain rfl : w' = w + 1 := hw
      obtain rfl : x' = x := hx
      exact hfields.addWaiting hlt
    · show (true && !writable (s.state + writerWaitingOne)) = true
      rw [hsound]
      rfl
  | giveUp haction hold =>
    refine h.moved (h.exact.move hlimited ?_) rfl (by rw [hold]; rfl) rfl
    intro r w x r' w' x' hfields hr hw hx _ _
    rw [hold] at hr hw hx
    obtain rfl : r' = r := hr
    obtain rfl : w = w' + 1 := hw.symm
    obtain rfl : x' = x := hx
    exact hfields.removeWaiting
  | unlockShared hold =>
    rename_i bump
    have hopen : ∀ b : Bool, RwLockPc.Same .idle
          (if b = true then .wakeOne bump else unlocked .shared bump) ∧
        (if b = true then RwLockPc.wakeOne bump else unlocked .shared bump).sound = true ∧
        (if b = true then RwLockPc.wakeOne bump else unlocked .shared bump).sleeping = false := by
      intro b
      cases b with
      | true => exact ⟨⟨rfl, rfl, rfl⟩, rfl, rfl⟩
      | false => exact ⟨(open_unlocked ..).same, (open_unlocked ..).sound, (open_unlocked ..).awake⟩
    obtain ⟨hsame, hsound, hawake⟩ := hopen (wakes (s.state - 1))
    refine h.moved (h.exact.move hlimited ?_) hsound (by rw [hold]; rfl) hawake
    intro r w x r' w' x' hfields hr hw hx _ _
    rw [hold, hsame.1] at hr
    rw [hold, hsame.2.1] at hw
    rw [hold, hsame.2.2] at hx
    obtain rfl : r = r' + 1 := hr.symm
    obtain rfl : w' = w := hw
    obtain rfl : x' = x := hx
    exact hfields.removeReader
  | unlockExclusive hold =>
    refine h.moved (h.exact.move hlimited ?_) rfl (by rw [hold]; rfl) rfl
    intro r w x r' w' x' hfields hr hw hx _ _
    rw [hold] at hr hw hx
    obtain rfl : r' = r := hr
    obtain rfl : w' = w := hw
    have hx' : x' + 1 = x := hx
    have hle := hfields.writer_le
    obtain ⟨rfl, rfl⟩ : x = 1 ∧ x' = 0 := by omega
    obtain rfl : r' = 0 := hfields.alone rfl
    exact hfields.clearWriter
  | downgrade hold =>
    refine h.moved (h.exact.move hlimited ?_) rfl (by rw [hold]; rfl) rfl
    intro r w x r' w' x' hfields hr hw hx _ _
    rw [hold] at hr hw hx
    obtain rfl : r' = r + 1 := hr
    obtain rfl : w' = w := hw
    have hx' : x' + 1 = x := hx
    have hle := hfields.writer_le
    obtain ⟨rfl, rfl⟩ : x = 1 ∧ x' = 0 := by omega
    obtain rfl : r = 0 := hfields.alone rfl
    exact hfields.clearWriter.addReader rfl (by omega)
  | sleep haction hold => exact h.sleep hold
  | wakeNobody hold hnil =>
    rename_i bump
    obtain ⟨hsame, hsound, hawake⟩ := open_unlocked .shared bump
    refine h.goto ?_ hsound (by rw [hold]; rfl) hawake
    rw [hold]
    exact hsame
  | wakeSomebody haction hold hg =>
    rename_i bump g
    obtain ⟨hsame, hsound, hawake⟩ := open_unlocked .shared bump
    have hne : t ≠ g := by
      rintro rfl
      have hsleeping := (h.asleep t).mp hg
      rw [hold] at hsleeping
      cases hsleeping
    have hpc : (s.awake g).threads t = .wakeOne bump := (awake_of_ne hne).trans hold
    refine h.awake.goto ?_ hsound (by rw [hpc]; rfl) hawake
    rw [hpc]
    exact hsame
  | wakeEverybody hold hsame hsound hawake =>
    have hpc : s.awakeAll.threads t = s.threads t := by
      show woken (s.threads t) = s.threads t
      cases hc : s.threads t with
      | wakeAll | downgradeWake => rfl
      | idle | holding | panicked | tryLoad | tryCas | load | head | wait | asleep | giveUpLoad
      | giveUpCas | unlockLoad | unlockCas | wakeOne | downgradeLoad | downgradeCas =>
        rw [hc] at hold
        cases hold
    refine h.awakeAll.goto (hpc ▸ hsame) hsound (same_woken _).2.1 hawake
  | awake ht => exact h.awake

theorem Inv.new : Inv new :=
  ⟨.new, fun _ => rfl, fun _ => ⟨fun hmem => absurd hmem List.not_mem_nil,
    fun hf => absurd hf Bool.false_ne_true⟩⟩

theorem Inv.of_run (h : Run RwLockStep WithinLimits (fun s => s = .new) s) : s.Inv := by
  refine h.invariant ?_ fun s e s' hinv hwithin hstep => ?_
  · rintro s rfl
    exact .new
  · exact hinv.of_effect (hwithin s' hstep) (hinv.effect_of_step hstep)

end RwLock

/-- Below the limits of its fields the word is the three counts, holders exclude each other,
and no subtraction borrows. -/
theorem blocking_rwlock_word_exact {s : RwLock}
    (h : Run RwLockStep RwLock.WithinLimits (fun s => s = .new) s) :
    (∃ readers waiting writer,
      Census (fun t => (s.threads t).shared = true) readers ∧
      Census (fun t => (s.threads t).registered = true) waiting ∧
      Census (fun t => (s.threads t).exclusive = true) writer ∧
      s.state.toNat = readers + 2 ^ 16 * waiting + 2 ^ 31 * writer) ∧
    (∀ t u, (s.threads t).exclusive = true →
      (s.threads u).shared = false ∧ ((s.threads u).exclusive = true → t = u)) ∧
    ∀ t, (s.threads t).noBorrow = true := by
  have hinv := RwLock.Inv.of_run h
  obtain ⟨r, w, x, ⟨hr, hw, hx⟩, hfields⟩ := hinv.exact
  refine ⟨⟨r, w, x, hr, hw, hx, hfields.word⟩, fun t u ht => ⟨?_, fun hu => ?_⟩,
    fun t => RwLockPc.noBorrow_of_sound (hinv.sound t)⟩
  · have hone : x = 1 := Nat.le_antisymm hfields.writer_le (hx.pos ht)
    rw [Bool.eq_false_iff]
    intro hu
    exact absurd (hfields.alone hone) (Nat.ne_of_gt (hr.pos hu))
  · exact hx.eq_of_le_one hfields.writer_le ht hu

namespace RwLock

variable {s s' : RwLock} {t n : Nat} {action : RwLockAction}

/-- Only the first `n` threads use the lock. -/
def Within (n : Nat) (s : RwLock) : Prop := ∀ u, n ≤ u → s.threads u = .idle

theorem Within.limited (h : Within n s) (hn : n < 2 ^ 14) : s.Limited := by
  have hlt : ∀ u, s.threads u ≠ .idle → u < n := fun u hu => Nat.lt_of_not_le fun hle => hu (h u hle)
  refine ⟨fun m hm => ?_, fun m hm => ?_⟩
  · have hle := hm.le fun u hu => hlt u fun hidle => by
      rw [hidle] at hu
      cases hu
    omega
  · have hle := hm.le fun u hu => hlt u fun hidle => by
      rw [hidle] at hu
      cases hu
    omega

theorem Within.of_effect (h : Within n s) (ht : t < n) (he : Effect s t action s') : Within n s' := by
  have hother : ∀ pc word, Within n (s.move t pc word) := by
    intro pc word u hu
    exact (move_of_ne (Nat.ne_of_gt (Nat.lt_of_lt_of_le ht hu))).trans (h u hu)
  have hawake : ∀ g, Within n (s.awake g) := by
    intro g u hu
    by_cases hug : u = g
    · subst hug
      rw [awake_self, h u hu]
      rfl
    · exact (awake_of_ne hug).trans (h u hu)
  have hgoto : ∀ {c : RwLock} pc, Within n c → Within n (c.goto t pc) := by
    intro c pc hc u hu
    exact (Function.update_of_ne (Nat.ne_of_gt (Nat.lt_of_lt_of_le ht hu)) ..).trans (hc u hu)
  cases he with
  | quiet | wakeNobody => exact hgoto _ h
  | acquireShared | acquireExclusive | register | giveUp | unlockShared | unlockExclusive
  | downgrade => exact hother _ _
  | sleep => exact hgoto _ h
  | wakeSomebody => exact hgoto _ (hawake _)
  | wakeEverybody =>
    refine hgoto _ fun u hu => ?_
    show woken (s.threads u) = .idle
    rw [h u hu]
    rfl
  | awake => exact hawake _

/-- The state of a run of few threads. -/
structure Small (n : Nat) (s : RwLock) : Prop where
  inv : s.Inv
  within : Within n s

theorem Small.step {e : Nat × RwLockAction} (h : Small n s) (hn : n < 2 ^ 14) (ht : e.1 < n)
    (hs : s.step e = some s') : Small n s' := by
  have he : Effect s e.1 e.2 s' := h.inv.effect_of_step hs
  have hwithin := h.within.of_effect ht he
  exact ⟨h.inv.of_effect (hwithin.limited hn) he, hwithin⟩

end RwLock

/-- A writer waits for a reader, takes the lock and hands it on by a downgrade. -/
def downgraded : List (Nat × RwLockAction) :=
  [(0, .lock .shared .forever), (0, .advance false), (0, .advance false),
    (1, .lock .exclusive .forever), (1, .advance false), (1, .advance false), (1, .advance false),
    (1, .advance false), (1, .advance false), (0, .unlock), (0, .advance false),
    (0, .advance false), (0, .wake 1), (1, .advance false), (1, .advance false), (1, .downgrade),
    (1, .advance false), (1, .advance false)]

def downgradedRwLock : RwLock :=
  (replay RwLock.step (fun _ e => decide (e.1 < 2)) .new downgraded).get (by decide +kernel)

theorem blocking_rwlock_downgraded :
    Run RwLockStep RwLock.WithinLimits (fun s => s = .new) downgradedRwLock ∧
      (∃ readers waiting writer,
        Census (fun t => (downgradedRwLock.threads t).shared = true) readers ∧
        Census (fun t => (downgradedRwLock.threads t).registered = true) waiting ∧
        Census (fun t => (downgradedRwLock.threads t).exclusive = true) writer ∧
        downgradedRwLock.state.toNat = readers + 2 ^ 16 * waiting + 2 ^ 31 * writer) ∧
      (downgradedRwLock.threads 1).shared = true ∧ downgradedRwLock.state.toNat = 1 := by
  have hreplay : replay RwLock.step (fun _ e => decide (e.1 < 2)) .new downgraded =
      some downgradedRwLock := (Option.some_get _).symm
  have hstart : Run RwLockStep RwLock.WithinLimits (fun s => s = .new) .new := Run.start rfl
  have hbelow : ∀ e ∈ downgraded, e.1 < 2 := by decide +kernel
  have hkeep : ∀ e ∈ downgraded, ∀ s s', RwLock.Small 2 s → s.step e = some s' →
      RwLock.Small 2 s' := fun e he s s' hsmall hs => hsmall.step (by decide) (hbelow e he) hs
  have hrun := Run.replay_within (fun _ _ _ hs => hs) hkeep
    (fun s e hsmall ht s' hs =>
      (hsmall.step (by decide) (of_decide_eq_true ht) hs).within.limited (by decide))
    ⟨.new, fun _ _ => rfl⟩ hstart hreplay
  exact ⟨hrun, (blocking_rwlock_word_exact hrun).1, by decide +kernel, by decide +kernel⟩

end Veloq.Blocking
