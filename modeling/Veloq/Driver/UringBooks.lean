import Veloq.Foundation.Custody
import Veloq.Driver.Jobs
import Veloq.Driver.UringBacklog
set_option autoImplicit false

/-!
# Driver: the books of the io_uring driver

What the driver is for, apart from slots and free lists: an operation is admitted, waits in the
backlog, in the ring or in the wheel, may move from the backlog to the ring, and ends once.  The
moves of these books and the invariant that they keep; `UringBacklogRuns` shows that every call of
the driver is a few of these moves.
-/

namespace Veloq.Driver

open Veloq.Foundation OpRegistry

/-- An operation in flight in the driver. -/
abbrev UringJob := Job UringOp UringOpState

/-- The operations in flight by slot, where their tokens wait, and what has happened. -/
structure UringBooks where
  jobs : Nat → Option UringJob
  backlog : List OpToken
  wheel : List (Nat × OpToken)
  ring : List OpToken
  submitted : Nat
  deferred : List Nat
  pushed : List Nat
  completions : List (Nat × Fate)
  abandoned : List Nat

namespace UringBooks

/-- `j` is in flight under `token`. -/
def Holds (b : UringBooks) (token : OpToken) (j : UringJob) : Prop :=
  b.jobs token.index = some j ∧ j.generation = token.generation

/-- The operation of `token` is in flight and in a submission state. -/
def At (b : UringBooks) (token : OpToken) (state : UringSubmissionState) : Prop :=
  ∃ j, b.Holds token j ∧ j.data.submissionState = state

/-! ## Moves -/

/-- What becomes of the operation in the slot of `token`. -/
def setJob (b : UringBooks) (token : OpToken) (j : Option UringJob) : UringBooks :=
  { b with jobs := Function.update b.jobs token.index j }

/-- The next operation. -/
def next (b : UringBooks) (token : OpToken) (strategy : SubmissionStrategy) (data : UringOpState) :
    UringJob :=
  ⟨token.generation, false, ⟨strategy, b.submitted⟩, data⟩

/-- An operation is admitted to the ring. -/
def launch (b : UringBooks) (token : OpToken) (strategy : SubmissionStrategy) : UringBooks :=
  { b.setJob token (some (b.next token strategy ⟨none, .kernelSubmitted⟩)) with
    ring := b.ring ++ [token]
    submitted := b.submitted + 1
    pushed := b.submitted :: b.pushed }

/-- An operation is admitted to the backlog. -/
def defer (b : UringBooks) (token : OpToken) (strategy : SubmissionStrategy) : UringBooks :=
  { b.setJob token (some (b.next token strategy ⟨none, .queued⟩)) with
    backlog := b.backlog ++ [token]
    submitted := b.submitted + 1
    deferred := b.submitted :: b.deferred }

/-- An operation is admitted to the wheel. -/
def schedule (b : UringBooks) (token : OpToken) (strategy : SubmissionStrategy) (tid : Nat) :
    UringBooks :=
  { b.setJob token (some (b.next token strategy ⟨some tid, .timer⟩)) with
    wheel := (tid, token) :: b.wheel
    submitted := b.submitted + 1 }

/-- An operation moves from the backlog to the ring. -/
def push (b : UringBooks) (token : OpToken) (j : UringJob) : UringBooks :=
  { b.setJob token (some { j with data := { j.data with submissionState := .kernelSubmitted } }) with
    backlog := b.backlog.erase token
    ring := b.ring ++ [token]
    pushed := j.op.ident :: b.pushed }

/-- The owner of an operation gives it up. -/
def giveUp (b : UringBooks) (j : UringJob) : UringBooks :=
  { b with abandoned := j.op.ident :: b.abandoned }

/-- An operation whose owner has given it up is orphaned. -/
def orphan (b : UringBooks) (token : OpToken) (j : UringJob) : UringBooks :=
  b.setJob token (some { j with orphaned := true })

/-! ## The invariant -/

/-- The tokens in the backlog are those of the queued operations, every other place holds tokens of
operations in the state of that place, and every operation is in flight or has ended once. -/
structure Inv (b : UringBooks) : Prop where
  bounds : ∀ i j, b.jobs i = some j → i < indexLimit ∧ j.generation < 2 ^ 32
  backlog : ∀ token, token ∈ b.backlog ↔ b.At token .queued
  backlog_nodup : b.backlog.Nodup
  wheel : ∀ entry ∈ b.wheel, ∃ j, b.Holds entry.2 j ∧ j.data = ⟨some entry.1, .timer⟩
  wheel_nodup : (b.wheel.map Prod.snd).Nodup
  ring : ∀ token ∈ b.ring, b.At token .kernelSubmitted
  ring_nodup : b.ring.Nodup
  timed : ∀ i j, b.jobs i = some j → j.data.timerId ≠ none → j.data.submissionState = .timer
  custody : Custody (fun i => (b.jobs i).map (·.op.ident)) (· < b.submitted)
    (b.completions.map Prod.fst)
  pushed_nodup : b.pushed.Nodup
  pushed_lt : ∀ n ∈ b.pushed, n < b.submitted
  unpushed : ∀ i j, b.jobs i = some j → j.data.submissionState = .queued → j.op.ident ∉ b.pushed
  deferred : ∀ n ∈ b.deferred, (∃ i j, b.jobs i = some j ∧ j.data.submissionState = .queued ∧
    j.op.ident = n) ∨ n ∈ b.pushed ∨ n ∈ b.completions.map Prod.fst
  orphaned : ∀ i j, b.jobs i = some j → j.orphaned = true → j.op.ident ∈ b.abandoned
  cleaned : ∀ n, (n, Fate.cleanedUp) ∈ b.completions → n ∈ b.abandoned

/-- No operation has been submitted. -/
def empty : UringBooks :=
  { jobs := fun _ => none, backlog := [], wheel := [], ring := [], submitted := 0, deferred := [],
    pushed := [], completions := [], abandoned := [] }

theorem Inv.empty : empty.Inv := by
  refine ⟨nofun, fun token => ⟨nofun, ?_⟩, List.nodup_nil, nofun, List.nodup_nil, nofun,
    List.nodup_nil, nofun, ?_, List.nodup_nil, nofun, nofun, nofun, nofun, nofun⟩
  · rintro ⟨j, ⟨hjob, -⟩, -⟩
    cases hjob
  · refine ⟨nofun, nofun, nofun, List.nodup_nil, fun n hn => absurd hn (Nat.not_lt_zero n)⟩

variable {b b' : UringBooks} {token token' : OpToken} {j : UringJob}

/-- A token is told by its slot and its generation. -/
theorem token_eq (hindex : token'.index = token.index)
    (hgen : token'.generation = token.generation) : token' = token := by
  cases token
  cases token'
  cases hindex
  cases hgen
  rfl

/-- What is in flight after a change of one slot. -/
theorem holds_setJob {x : Option UringJob} {j' : UringJob}
    (hjobs : b'.jobs = (b.setJob token x).jobs) :
    b'.Holds token' j' ↔ token'.index = token.index ∧ x = some j' ∧
      j'.generation = token'.generation ∨ token'.index ≠ token.index ∧ b.Holds token' j' := by
  unfold Holds
  rw [hjobs]
  show Function.update b.jobs token.index x token'.index = _ ∧ _ ↔ _
  rcases Classical.em (token'.index = token.index) with heq | hne
  · rw [heq, Function.update_self]
    constructor
    · exact fun h => .inl ⟨rfl, h⟩
    · rintro (⟨-, h⟩ | ⟨h, -⟩)
      · exact h
      · exact absurd rfl h
  · rw [Function.update_of_ne hne]
    constructor
    · exact fun h => .inr ⟨hne, h⟩
    · rintro (⟨h, -⟩ | ⟨-, h⟩)
      · exact absurd h hne
      · exact h

/-- Which jobs there are after a change of one slot. -/
theorem jobs_setJob {x : Option UringJob} {i : Nat} {j' : UringJob} :
    (b.setJob token x).jobs i = some j' ↔
      i = token.index ∧ x = some j' ∨ i ≠ token.index ∧ b.jobs i = some j' := by
  show Function.update b.jobs token.index x i = some j' ↔ _
  rcases Classical.em (i = token.index) with rfl | hne
  · rw [Function.update_self]
    exact ⟨fun h => .inl ⟨rfl, h⟩, fun h => h.elim And.right fun h => absurd rfl h.1⟩
  · rw [Function.update_of_ne hne]
    exact ⟨fun h => .inr ⟨hne, h⟩, fun h => h.elim (fun h => absurd h.1 hne) And.right⟩

/-- Books that differ in how their jobs are computed only. -/
theorem Inv.of_jobs (h : b.Inv) (hjobs : b'.jobs = b.jobs) (hrest : { b' with jobs := b.jobs } = b) :
    b'.Inv := by
  have heq : b' = { b' with jobs := b.jobs } := by rw [← hjobs]
  rw [heq, hrest]
  exact h

/-! ## Admission -/

theorem Inv.absent (h : b.Inv) (hjob : b.jobs token.index = none) :
    (∀ t ∈ b.backlog, t.index ≠ token.index) ∧ (∀ t ∈ b.ring, t.index ≠ token.index) ∧
    ∀ entry ∈ b.wheel, entry.2.index ≠ token.index := by
  have hnone : ∀ t : OpToken, ∀ j, b.Holds t j → t.index ≠ token.index := by
    intro t j hholds heq
    have hsome := hholds.1
    rw [heq, hjob] at hsome
    cases hsome
  refine ⟨fun t ht => ?_, fun t ht => ?_, fun entry hentry => ?_⟩
  · obtain ⟨j, hholds, -⟩ := (h.backlog t).mp ht
    exact hnone t j hholds
  · obtain ⟨j, hholds, -⟩ := h.ring t ht
    exact hnone t j hholds
  · obtain ⟨j, hholds, -⟩ := h.wheel entry hentry
    exact hnone _ j hholds

/-- A new operation; each of the places has its token if it is in the state of that place. -/
structure Admitted (b b' : UringBooks) (token : OpToken) (strategy : SubmissionStrategy)
    (data : UringOpState) : Prop where
  jobs : b'.jobs = (b.setJob token (some (b.next token strategy data))).jobs
  backlog : ∀ t, t ∈ b'.backlog ↔ t ∈ b.backlog ∨ t = token ∧ data.submissionState = .queued
  backlog_nodup : b'.backlog.Nodup
  wheel : ∀ entry ∈ b'.wheel, entry ∈ b.wheel ∨ entry.2 = token ∧ data = ⟨some entry.1, .timer⟩
  wheel_nodup : (b'.wheel.map Prod.snd).Nodup
  ring : ∀ t ∈ b'.ring, t ∈ b.ring ∨ t = token ∧ data.submissionState = .kernelSubmitted
  ring_nodup : b'.ring.Nodup
  timed : data.timerId ≠ none → data.submissionState = .timer
  submitted : b'.submitted = b.submitted + 1
  pushed : b'.pushed = b.pushed ∨ b'.pushed = b.submitted :: b.pushed ∧ data.submissionState ≠ .queued
  deferred : ∀ n ∈ b'.deferred, n ∈ b.deferred ∨ n = b.submitted ∧ data.submissionState = .queued
  completions : b'.completions = b.completions
  abandoned : b'.abandoned = b.abandoned

theorem Inv.admitted (h : b.Inv) {strategy : SubmissionStrategy} {data : UringOpState}
    (hjob : b.jobs token.index = none) (ha : Admitted b b' token strategy data) : b'.Inv := by
  obtain ⟨hbacklog, hring, hwheel⟩ := h.absent hjob
  have hback : ∀ i j', b'.jobs i = some j' → i = token.index ∧ j' = b.next token strategy data ∨
      i ≠ token.index ∧ b.jobs i = some j' := by
    intro i j' hj
    rw [ha.jobs, jobs_setJob] at hj
    rcases hj with ⟨hi, heq⟩ | hj
    · exact .inl ⟨hi, (Option.some.inj heq).symm⟩
    · exact .inr hj
  have hkeep : ∀ i j', i ≠ token.index → b.jobs i = some j' → b'.jobs i = some j' := by
    intro i j' hi hj
    rw [ha.jobs, jobs_setJob]
    exact .inr ⟨hi, hj⟩
  have hself : b'.Holds token (b.next token strategy data) :=
    (holds_setJob ha.jobs).mpr (.inl ⟨rfl, rfl, rfl⟩)
  have hother : ∀ t j', t.index ≠ token.index → b.Holds t j' → b'.Holds t j' :=
    fun t j' hne hholds => (holds_setJob ha.jobs).mpr (.inr ⟨hne, hholds⟩)
  refine ⟨fun i j' hj => ?_, fun t => ?_, ha.backlog_nodup, fun entry hentry => ?_, ha.wheel_nodup,
    fun t ht => ?_, ha.ring_nodup, fun i j' hj => ?_, ?_, ?_, fun n hn => ?_, fun i j' hj hq => ?_,
    fun n hn => ?_, fun i j' hj ho => ?_, fun n hn => ?_⟩
  · rcases hback i j' hj with ⟨rfl, rfl⟩ | ⟨-, hj⟩
    · exact ⟨token.index_lt, token.generation_lt⟩
    · exact h.bounds i j' hj
  · rw [ha.backlog]
    constructor
    · rintro (ht | ⟨rfl, hq⟩)
      · obtain ⟨j', hholds, hstate⟩ := (h.backlog t).mp ht
        exact ⟨j', hother t j' (hbacklog t ht) hholds, hstate⟩
      · exact ⟨_, hself, hq⟩
    · rintro ⟨j', hholds, hstate⟩
      rcases (holds_setJob ha.jobs).mp hholds with ⟨hindex, heq, hgen⟩ | ⟨-, hholds⟩
      · cases heq
        exact .inr ⟨token_eq hindex hgen.symm, hstate⟩
      · exact .inl ((h.backlog t).mpr ⟨j', hholds, hstate⟩)
  · rcases ha.wheel entry hentry with hmem | ⟨heq, hdata⟩
    · obtain ⟨j', hholds, hdata⟩ := h.wheel entry hmem
      exact ⟨j', hother _ j' (hwheel entry hmem) hholds, hdata⟩
    · rw [heq]
      exact ⟨_, hself, hdata⟩
  · rcases ha.ring t ht with hmem | ⟨rfl, hstate⟩
    · obtain ⟨j', hholds, hstate⟩ := h.ring t hmem
      exact ⟨j', hother t j' (hring t hmem) hholds, hstate⟩
    · exact ⟨_, hself, hstate⟩
  · rcases hback i j' hj with ⟨-, rfl⟩ | ⟨-, hj⟩
    · exact ha.timed
    · exact h.timed i j' hj
  · rw [ha.completions]
    refine h.custody.make (i := token.index) (x := b.submitted) (Nat.lt_irrefl _) ?_ ?_
      (fun k hk => ?_) fun y => ?_
    · rw [hjob]
      rfl
    · rw [hself.1]
      rfl
    · rw [ha.jobs]
      show (Function.update b.jobs token.index _ k).map _ = _
      rw [Function.update_of_ne hk]
    · rw [ha.submitted, Nat.lt_succ_iff_lt_or_eq, or_comm]
  · rcases ha.pushed with heq | ⟨heq, -⟩
    · rw [heq]
      exact h.pushed_nodup
    · rw [heq]
      exact List.nodup_cons.mpr ⟨fun hmem => Nat.lt_irrefl _ (h.pushed_lt _ hmem), h.pushed_nodup⟩
  · rw [ha.submitted]
    rcases ha.pushed with heq | ⟨heq, -⟩
    · rw [heq] at hn
      exact Nat.lt_succ_of_lt (h.pushed_lt n hn)
    · rw [heq] at hn
      rcases List.mem_cons.mp hn with rfl | hn
      · exact Nat.lt_succ_self _
      · exact Nat.lt_succ_of_lt (h.pushed_lt n hn)
  · rcases hback i j' hj with ⟨-, rfl⟩ | ⟨-, hj⟩
    · rcases ha.pushed with heq | ⟨-, hne⟩
      · rw [heq]
        exact fun hmem => Nat.lt_irrefl _ (h.pushed_lt _ hmem)
      · exact absurd hq hne
    · have hlive := (h.custody.live i j'.op.ident (by rw [hj]; rfl)).1
      have hnot := h.unpushed i j' hj hq
      rcases ha.pushed with heq | ⟨heq, -⟩
      · rw [heq]
        exact hnot
      · rw [heq]
        refine fun hmem => (List.mem_cons.mp hmem).elim (fun heq => ?_) hnot
        exact absurd hlive (by rw [heq]; exact Nat.lt_irrefl _)
  · have hmore : n ∈ b.pushed → n ∈ b'.pushed := by
      rcases ha.pushed with heq | ⟨heq, -⟩
      · rw [heq]
        exact id
      · rw [heq]
        exact List.mem_cons_of_mem _
    rw [ha.completions]
    rcases ha.deferred n hn with hmem | ⟨rfl, hq⟩
    · rcases h.deferred n hmem with ⟨i, j', hj, hq, hident⟩ | hpushed | hdone
      · refine .inl ⟨i, j', hkeep i j' ?_ hj, hq, hident⟩
        rintro rfl
        rw [hjob] at hj
        cases hj
      · exact .inr (.inl (hmore hpushed))
      · exact .inr (.inr hdone)
    · exact .inl ⟨token.index, _, hself.1, hq, rfl⟩
  · rw [ha.abandoned]
    rcases hback i j' hj with ⟨-, rfl⟩ | ⟨-, hj⟩
    · cases ho
    · exact h.orphaned i j' hj ho
  · rw [ha.completions] at hn
    rw [ha.abandoned]
    exact h.cleaned n hn

theorem Inv.launch (h : b.Inv) (hjob : b.jobs token.index = none) (strategy : SubmissionStrategy) :
    (b.launch token strategy).Inv := by
  refine h.admitted hjob ⟨rfl, fun t => ⟨.inl, fun ht => ht.elim id nofun⟩, h.backlog_nodup,
    fun entry hentry => .inl hentry, h.wheel_nodup, fun t ht => ?_, ?_, fun hne => absurd rfl hne, rfl,
    .inr ⟨rfl, UringSubmissionState.noConfusion⟩, fun n hn => .inl hn, rfl, rfl⟩
  · exact (List.mem_append.mp ht).imp_right fun ht => ⟨List.mem_singleton.mp ht, rfl⟩
  · refine List.nodup_append.mpr ⟨h.ring_nodup, List.nodup_singleton _, fun t ht t' ht' heq => ?_⟩
    rw [List.mem_singleton.mp ht'] at heq
    exact (h.absent hjob).2.1 t ht (congrArg OpToken.index heq)

theorem Inv.defer (h : b.Inv) (hjob : b.jobs token.index = none) (strategy : SubmissionStrategy) :
    (b.defer token strategy).Inv := by
  refine h.admitted hjob ⟨rfl, fun t => ?_, ?_, fun entry hentry => .inl hentry, h.wheel_nodup,
    fun t ht => .inl ht, h.ring_nodup, fun hne => absurd rfl hne, rfl, .inl rfl, fun n hn => ?_, rfl,
    rfl⟩
  · refine List.mem_append.trans (or_congr_right ?_)
    rw [List.mem_singleton]
    exact ⟨fun ht => ⟨ht, rfl⟩, And.left⟩
  · refine List.nodup_append.mpr ⟨h.backlog_nodup, List.nodup_singleton _,
      fun t ht t' ht' heq => ?_⟩
    rw [List.mem_singleton.mp ht'] at heq
    exact (h.absent hjob).1 t ht (congrArg OpToken.index heq)
  · exact (List.mem_cons.mp hn).symm.imp_right fun hn => ⟨hn, rfl⟩

theorem Inv.schedule (h : b.Inv) (hjob : b.jobs token.index = none)
    (strategy : SubmissionStrategy) (tid : Nat) : (b.schedule token strategy tid).Inv := by
  refine h.admitted hjob ⟨rfl, fun t => ⟨.inl, fun ht => ht.elim id nofun⟩, h.backlog_nodup,
    fun entry hentry => ?_, ?_, fun t ht => .inl ht, h.ring_nodup, fun _ => rfl, rfl, .inl rfl,
    fun n hn => .inl hn, rfl, rfl⟩
  · rcases List.mem_cons.mp hentry with rfl | hentry
    · exact .inr ⟨rfl, rfl⟩
    · exact .inl hentry
  · refine List.nodup_cons.mpr ⟨fun hmem => ?_, h.wheel_nodup⟩
    obtain ⟨entry, hentry, heq⟩ := List.mem_map.mp hmem
    exact (h.absent hjob).2.2 entry hentry (congrArg OpToken.index heq)

/-! ## From the backlog to the ring -/

/-- Two tokens under which an operation is in flight in one slot are the same. -/
theorem Holds.token_eq {j' : UringJob} (h : b.Holds token j) (h' : b.Holds token' j')
    (hindex : token'.index = token.index) : token' = token ∧ j' = j := by
  have hjob := h'.1
  rw [hindex, h.1] at hjob
  cases hjob
  exact ⟨UringBooks.token_eq hindex (h'.2.symm.trans h.2), rfl⟩

theorem Inv.push (h : b.Inv) (hholds : b.Holds token j)
    (hqueued : j.data.submissionState = .queued) : (b.push token j).Inv := by
  have hback : ∀ i j', (b.push token j).jobs i = some j' →
      i = token.index ∧ j' = { j with data := { j.data with submissionState := .kernelSubmitted } } ∨
      i ≠ token.index ∧ b.jobs i = some j' := fun i j' hj =>
    (jobs_setJob.mp hj).imp_left fun hj => ⟨hj.1, (Option.some.inj hj.2).symm⟩
  have hother : ∀ t j', t.index ≠ token.index → b.Holds t j' → (b.push token j).Holds t j' :=
    fun t j' hne hholds => (holds_setJob rfl).mpr (.inr ⟨hne, hholds⟩)
  have hfresh := h.unpushed _ j hholds.1 hqueued
  have hlive := (h.custody.live token.index j.op.ident (by rw [hholds.1]; rfl)).1
  have hapart : ∀ t state, b.At t state → state ≠ .queued → t.index ≠ token.index := by
    rintro t state ⟨j', hholds', hstate⟩ hne hindex
    obtain ⟨-, rfl⟩ := hholds.token_eq hholds' hindex
    exact hne (hstate.symm.trans hqueued)
  refine ⟨fun i j' hj => ?_, fun t => ?_, h.backlog_nodup.erase token, fun entry hentry => ?_,
    h.wheel_nodup, fun t ht => ?_, ?_, fun i j' hj => ?_, ?_, ?_, fun n hn => ?_,
    fun i j' hj hq => ?_, fun n hn => ?_, fun i j' hj ho => ?_, h.cleaned⟩
  · rcases hback i j' hj with ⟨rfl, rfl⟩ | ⟨-, hj⟩
    · exact h.bounds _ j hholds.1
    · exact h.bounds i j' hj
  · show t ∈ b.backlog.erase token ↔ _
    rw [h.backlog_nodup.mem_erase_iff, h.backlog]
    constructor
    · rintro ⟨hne, j', hholds', hstate⟩
      refine ⟨j', hother t j' (fun hindex => hne ?_) hholds', hstate⟩
      exact (hholds.token_eq hholds' hindex).1
    · rintro ⟨j', hholds', hstate⟩
      rcases (holds_setJob rfl).mp hholds' with ⟨-, heq, -⟩ | ⟨hne, hholds'⟩
      · cases heq
        cases hstate
      · exact ⟨fun heq => hne (congrArg OpToken.index heq), j', hholds', hstate⟩
  · obtain ⟨j', hholds', hdata⟩ := h.wheel entry hentry
    refine ⟨j', hother _ j' (hapart _ .timer ⟨j', hholds', ?_⟩ nofun) hholds', hdata⟩
    rw [hdata]
  · rcases List.mem_append.mp ht with ht | ht
    · obtain ⟨j', hholds', hstate⟩ := h.ring t ht
      exact ⟨j', hother t j' (hapart t _ ⟨j', hholds', hstate⟩ nofun) hholds', hstate⟩
    · rw [List.mem_singleton.mp ht]
      exact ⟨_, (holds_setJob rfl).mpr (.inl ⟨rfl, rfl, hholds.2⟩), rfl⟩
  · refine List.nodup_append.mpr ⟨h.ring_nodup, List.nodup_singleton _, fun t ht t' ht' heq => ?_⟩
    rw [List.mem_singleton.mp ht'] at heq
    exact hapart t _ (h.ring t ht) nofun (congrArg OpToken.index heq)
  · rcases hback i j' hj with ⟨-, rfl⟩ | ⟨-, hj⟩
    · intro hne
      have htimer := h.timed _ j hholds.1 hne
      rw [hqueued] at htimer
      cases htimer
    · exact h.timed i j' hj
  · refine h.custody.congr fun k => ?_
    show (Function.update b.jobs token.index _ k).map _ = _
    rcases Classical.em (k = token.index) with rfl | hne
    · rw [Function.update_self, hholds.1]
      rfl
    · rw [Function.update_of_ne hne]
  · exact List.nodup_cons.mpr ⟨hfresh, h.pushed_nodup⟩
  · rcases List.mem_cons.mp hn with rfl | hn
    · exact hlive
    · exact h.pushed_lt n hn
  · rcases hback i j' hj with ⟨-, rfl⟩ | ⟨hne, hj⟩
    · cases hq
    · refine fun hmem => (List.mem_cons.mp hmem).elim (fun heq => hne ?_) (h.unpushed i j' hj hq)
      exact h.custody.apart i token.index j.op.ident (by rw [hj, ← heq]; rfl)
        (by rw [hholds.1]; rfl)
  · rcases h.deferred n hn with ⟨i, j', hj, hq, hident⟩ | hpushed | hdone
    · rcases Classical.em (i = token.index) with rfl | hne
      · rw [hholds.1] at hj
        cases hj
        exact .inr (.inl (List.mem_cons.mpr (.inl hident.symm)))
      · exact .inl ⟨i, j', jobs_setJob.mpr (.inr ⟨hne, hj⟩), hq, hident⟩
    · exact .inr (.inl (List.mem_cons_of_mem _ hpushed))
    · exact .inr (.inr hdone)
  · rcases hback i j' hj with ⟨-, rfl⟩ | ⟨-, hj⟩
    · exact h.orphaned _ j hholds.1 ho
    · exact h.orphaned i j' hj ho

/-! ## The end of an operation -/

/-- An operation ends, and its token is nowhere afterwards. -/
structure Finished (b b' : UringBooks) (token : OpToken) (j : UringJob) (fate : Fate) : Prop where
  jobs : b'.jobs = (b.setJob token none).jobs
  backlog : b'.backlog = b.backlog.erase token
  wheel : b'.wheel.Sublist b.wheel
  wheel_ne : ∀ entry ∈ b'.wheel, entry.2 ≠ token
  ring : b'.ring.Sublist b.ring
  ring_ne : ∀ t ∈ b'.ring, t ≠ token
  submitted : b'.submitted = b.submitted
  deferred : b'.deferred = b.deferred
  pushed : b'.pushed = b.pushed
  completions : b'.completions = (j.op.ident, fate) :: b.completions
  abandoned : b'.abandoned = b.abandoned

theorem Inv.finished (h : b.Inv) (hholds : b.Holds token j) {fate : Fate}
    (hfate : fate = .cleanedUp → j.op.ident ∈ b.abandoned) (hf : Finished b b' token j fate) :
    b'.Inv := by
  have hback : ∀ i j', b'.jobs i = some j' → i ≠ token.index ∧ b.jobs i = some j' := by
    intro i j' hj
    rw [hf.jobs] at hj
    exact (jobs_setJob.mp hj).elim (fun hj => absurd hj.2 nofun) id
  have hkeep : ∀ t j', t ≠ token → b.Holds t j' → b'.Holds t j' :=
    fun t j' hne hholds' => (holds_setJob hf.jobs).mpr
      (.inr ⟨fun hindex => hne (hholds.token_eq hholds' hindex).1, hholds'⟩)
  refine ⟨fun i j' hj => h.bounds i j' (hback i j' hj).2, fun t => ?_, ?_,
    fun entry hentry => ?_, h.wheel_nodup.sublist (hf.wheel.map Prod.snd), fun t ht => ?_,
    h.ring_nodup.sublist hf.ring, fun i j' hj => h.timed i j' (hback i j' hj).2, ?_, ?_,
    fun n hn => ?_, fun i j' hj => ?_, fun n hn => ?_, fun i j' hj => ?_, fun n hn => ?_⟩
  · rw [hf.backlog, h.backlog_nodup.mem_erase_iff, h.backlog]
    constructor
    · rintro ⟨hne, j', hholds', hstate⟩
      exact ⟨j', hkeep t j' hne hholds', hstate⟩
    · rintro ⟨j', hholds', hstate⟩
      obtain ⟨hne, hholds'⟩ := ((holds_setJob hf.jobs).mp hholds').resolve_left fun hleft =>
        absurd hleft.2.1 nofun
      exact ⟨fun heq => hne (congrArg OpToken.index heq), j', hholds', hstate⟩
  · rw [hf.backlog]
    exact h.backlog_nodup.erase token
  · obtain ⟨j', hholds', hdata⟩ := h.wheel entry (hf.wheel.subset hentry)
    exact ⟨j', hkeep _ j' (hf.wheel_ne entry hentry) hholds', hdata⟩
  · obtain ⟨j', hholds', hstate⟩ := h.ring t (hf.ring.subset ht)
    exact ⟨j', hkeep t j' (hf.ring_ne t ht) hholds', hstate⟩
  · rw [hf.completions, hf.submitted]
    refine h.custody.spend (i := token.index) ?_ ?_ fun k hk => ?_
    · rw [hholds.1]
      rfl
    · rw [hf.jobs]
      show (Function.update b.jobs token.index none token.index).map _ = none
      rw [Function.update_self]
      rfl
    · rw [hf.jobs]
      show (Function.update b.jobs token.index none k).map _ = _
      rw [Function.update_of_ne hk]
  · rw [hf.pushed]
    exact h.pushed_nodup
  · rw [hf.pushed] at hn
    rw [hf.submitted]
    exact h.pushed_lt n hn
  · rw [hf.pushed]
    exact h.unpushed i j' (hback i j' hj).2
  · rw [hf.deferred] at hn
    rw [hf.pushed, hf.completions]
    rcases h.deferred n hn with ⟨i, j', hj, hq, hident⟩ | hpushed | hdone
    · rcases Classical.em (i = token.index) with rfl | hne
      · rw [hholds.1] at hj
        cases hj
        exact .inr (.inr (List.mem_cons.mpr (.inl hident.symm)))
      · refine .inl ⟨i, j', ?_, hq, hident⟩
        rw [hf.jobs]
        exact jobs_setJob.mpr (.inr ⟨hne, hj⟩)
    · exact .inr (.inl hpushed)
    · exact .inr (.inr (List.mem_cons_of_mem _ hdone))
  · rw [hf.abandoned]
    exact h.orphaned i j' (hback i j' hj).2
  · rw [hf.completions] at hn
    rw [hf.abandoned]
    rcases List.mem_cons.mp hn with heq | hn
    · cases heq
      exact hfate rfl
    · exact h.cleaned n hn

/-- An operation that is not queued has no token in the backlog, and so on. -/
theorem Inv.erase_backlog (h : b.Inv) (hholds : b.Holds token j)
    (hstate : j.data.submissionState ≠ .queued) : b.backlog.erase token = b.backlog := by
  refine List.erase_of_not_mem fun hmem => ?_
  obtain ⟨j', hholds', hqueued⟩ := (h.backlog token).mp hmem
  obtain ⟨-, rfl⟩ := hholds.token_eq hholds' rfl
  exact hstate hqueued

theorem Inv.wheel_ne (h : b.Inv) (hholds : b.Holds token j)
    (hstate : j.data.submissionState ≠ .timer) : ∀ entry ∈ b.wheel, entry.2 ≠ token := by
  rintro entry hentry rfl
  obtain ⟨j', hholds', hdata⟩ := h.wheel entry hentry
  obtain ⟨-, rfl⟩ := hholds.token_eq hholds' rfl
  rw [hdata] at hstate
  exact hstate rfl

theorem Inv.ring_ne (h : b.Inv) (hholds : b.Holds token j)
    (hstate : j.data.submissionState ≠ .kernelSubmitted) : ∀ t ∈ b.ring, t ≠ token := by
  rintro t ht rfl
  obtain ⟨j', hholds', hsubmitted⟩ := h.ring t ht
  obtain ⟨-, rfl⟩ := hholds.token_eq hholds' rfl
  exact hstate hsubmitted

/-! ## Owners that give up -/

theorem Inv.giveUp (h : b.Inv) (j : UringJob) : (b.giveUp j).Inv :=
  ⟨h.bounds, h.backlog, h.backlog_nodup, h.wheel, h.wheel_nodup, h.ring, h.ring_nodup, h.timed,
    h.custody, h.pushed_nodup, h.pushed_lt, h.unpushed, h.deferred,
    fun i j' hj ho => List.mem_cons_of_mem _ (h.orphaned i j' hj ho),
    fun n hn => List.mem_cons_of_mem _ (h.cleaned n hn)⟩

theorem Inv.orphan (h : b.Inv) (hholds : b.Holds token j) (hident : j.op.ident ∈ b.abandoned) :
    (b.orphan token j).Inv := by
  have hback : ∀ i j', (b.orphan token j).jobs i = some j' → ∃ j₀, b.jobs i = some j₀ ∧
      j'.generation = j₀.generation ∧ j'.data = j₀.data ∧ j'.op = j₀.op ∧
      (j'.orphaned = j₀.orphaned ∨ j₀ = j) := by
    intro i j' hj
    rcases jobs_setJob.mp hj with ⟨rfl, heq⟩ | ⟨-, hj⟩
    · cases heq
      exact ⟨j, hholds.1, rfl, rfl, rfl, .inr rfl⟩
    · exact ⟨j', hj, rfl, rfl, rfl, .inl rfl⟩
  have hkeep : ∀ i j₀, b.jobs i = some j₀ → ∃ j', (b.orphan token j).jobs i = some j' ∧
      j'.generation = j₀.generation ∧ j'.data = j₀.data ∧ j'.op = j₀.op := by
    intro i j₀ hj
    rcases Classical.em (i = token.index) with rfl | hne
    · rw [hholds.1] at hj
      cases hj
      exact ⟨_, jobs_setJob.mpr (.inl ⟨rfl, rfl⟩), rfl, rfl, rfl⟩
    · exact ⟨j₀, jobs_setJob.mpr (.inr ⟨hne, hj⟩), rfl, rfl, rfl⟩
  have hat : ∀ t state, (b.orphan token j).At t state ↔ b.At t state := by
    intro t state
    constructor
    · rintro ⟨j', ⟨hj, hgen⟩, hstate⟩
      obtain ⟨j₀, hj₀, hgen₀, hdata, -⟩ := hback _ j' hj
      exact ⟨j₀, ⟨hj₀, hgen₀.symm.trans hgen⟩, by rw [← hdata]; exact hstate⟩
    · rintro ⟨j₀, ⟨hj, hgen⟩, hstate⟩
      obtain ⟨j', hj', hgen', hdata, -⟩ := hkeep _ j₀ hj
      exact ⟨j', ⟨hj', hgen'.trans hgen⟩, by rw [hdata]; exact hstate⟩
  refine ⟨fun i j' hj => ?_, fun t => (h.backlog t).trans (hat t _).symm, h.backlog_nodup,
    fun entry hentry => ?_, h.wheel_nodup, fun t ht => (hat t _).mpr (h.ring t ht), h.ring_nodup,
    fun i j' hj => ?_, ?_, h.pushed_nodup, h.pushed_lt, fun i j' hj => ?_, fun n hn => ?_,
    fun i j' hj ho => ?_, h.cleaned⟩
  · obtain ⟨j₀, hj₀, hgen, -⟩ := hback i j' hj
    rw [hgen]
    exact h.bounds i j₀ hj₀
  · obtain ⟨j₀, hholds₀, hdata₀⟩ := h.wheel entry hentry
    obtain ⟨j', hj', hgen, hdata, -⟩ := hkeep _ j₀ hholds₀.1
    exact ⟨j', ⟨hj', hgen.trans hholds₀.2⟩, hdata.trans hdata₀⟩
  · obtain ⟨j₀, hj₀, -, hdata, -⟩ := hback i j' hj
    rw [hdata]
    exact h.timed i j₀ hj₀
  · refine h.custody.congr fun k => ?_
    show (Function.update b.jobs token.index _ k).map _ = _
    rcases Classical.em (k = token.index) with rfl | hne
    · rw [Function.update_self, hholds.1]
      rfl
    · rw [Function.update_of_ne hne]
  · obtain ⟨j₀, hj₀, -, hdata, hop, -⟩ := hback i j' hj
    rw [hdata, hop]
    exact h.unpushed i j₀ hj₀
  · refine (h.deferred n hn).imp_left ?_
    rintro ⟨i, j₀, hj, hq, hn⟩
    obtain ⟨j', hj', -, hdata, hop⟩ := hkeep i j₀ hj
    exact ⟨i, j', hj', by rw [hdata]; exact hq, by rw [hop]; exact hn⟩
  · obtain ⟨j₀, hj₀, -, -, hop, hor | rfl⟩ := hback i j' hj
    · rw [hop]
      exact h.orphaned i j₀ hj₀ (hor.symm.trans ho)
    · rw [hop]
      exact hident

/-- The completion of an SQE goes astray. -/
theorem Inv.lose (h : b.Inv) {ring : List OpToken} (hring : ring.Sublist b.ring) :
    { b with ring := ring }.Inv :=
  ⟨h.bounds, h.backlog, h.backlog_nodup, h.wheel, h.wheel_nodup,
    fun t ht => h.ring t (hring.subset ht), h.ring_nodup.sublist hring, h.timed, h.custody,
    h.pushed_nodup, h.pushed_lt, h.unpushed, h.deferred, h.orphaned, h.cleaned⟩

end UringBooks

end Veloq.Driver
