import Mathlib.Tactic.Common
import Veloq.Foundation.Census
import Veloq.Runtime.SendTask
set_option autoImplicit false

/-!
# Runtime: runs of a `Send` task

While a reference is left the header is in one of the states of `Live`: `QUEUED` belongs
to one waker, entry or worker, `POLLING` to one worker, and the reference count is the sum
of the task's own reference and of those of the entry and of the workers that have
cleared the bit.  From the last reference on it is `Settled`.
-/

namespace Veloq.Runtime.SendTask

open Foundation

/-! ## Who holds what -/

/-- Who has set `QUEUED`, or has taken it over. -/
inductive Holder where
  | waker (k : Nat)
  | queue
  | worker (r : Nat)
  deriving DecidableEq

/-- Has entered the poll. -/
def WorkPc.polls : WorkPc → Bool
  | poll | exit | complete | release | leave _ => true
  | _ => false

/-- Polls a task that is not complete. -/
def WorkPc.drives : WorkPc → Bool
  | poll | exit | complete => true
  | _ => false

/-- Is going to acknowledge. -/
def WorkPc.settles : WorkPc → Bool
  | leave true | acknowledge => true
  | _ => false

namespace State

/-- `QUEUED` and what stands for it. -/
structure Held (s : State) (holder : Option Holder) : Prop where
  queued : s.queued = holder.isSome
  waker : ∀ k, s.wakers k ≠ .idle ↔ holder = some (.waker k)
  entries : s.entries = if holder = some .queue then 1 else 0
  worker : ∀ r, s.workers r = .clear ↔ holder = some (.worker r)

/-- `POLLING` and the worker that has set it. -/
structure Polled (s : State) (poller : Option Nat) : Prop where
  polling : s.polling = poller.isSome
  worker : ∀ r, (s.workers r).polls = true ↔ poller = some r

/-- The reference that goes with `QUEUED`, once it is counted. -/
def backing (s : State) : Option Holder → Nat
  | none => 0
  | some (.waker k) => if s.wakers k = .count then 0 else 1
  | some .queue => 1
  | some (.worker _) => 1

/-- How far the task is; `base` is its own reference. -/
structure Stage (s : State) (base : Nat) : Prop where
  pending : s.completed = false → base = 1 ∧ ∀ r, s.workers r ≠ .release ∧ s.workers r ≠ .leave false
  done : s.completed = true → (∀ r, (s.workers r).drives = false) ∧
    (base = 1 ∧ (∃ r, s.workers r = .release) ∨ base = 0 ∧ ∀ r, s.workers r ≠ .release)
  unsettled : s.acknowledgements = 0 ∧ ∀ r, (s.workers r).settles = false

/-- Before the last reference is given back. -/
structure Live (s : State) (holder : Option Holder) (poller : Option Nat) (base unrefs : Nat) :
    Prop where
  held : s.Held holder
  polled : s.Polled poller
  unref : Census (fun r => s.workers r = .unref) unrefs
  refCount : s.refCount = base + s.backing holder + unrefs
  left : 0 < s.refCount
  stage : s.Stage base

/-- From the last reference on. -/
structure Settled (s : State) : Prop where
  completed : s.completed = true
  entries : s.entries = 0
  wakers : ∀ k, s.wakers k = .idle
  workers : s.acknowledgements = 1 ∧ (∀ r, s.workers r = .idle) ∨
    s.acknowledgements = 0 ∧ ∃ r, (s.workers r).settles = true ∧ ∀ q, q ≠ r → s.workers q = .idle

/-- What holds between any two steps. -/
def Inv (s : State) : Prop :=
  (∃ holder poller base unrefs, s.Live holder poller base unrefs) ∨ s.Settled

/-! ## Frames -/

section Frames

variable {s s' : State} {holder : Option Holder} {poller : Option Nat} {r : Nat} {pc : WorkPc}

/-- A worker goes on and leaves `QUEUED` alone. -/
theorem Held.work (h : s.Held holder) (hworkers : s'.workers = Function.update s.workers r pc)
    (hwakers : s'.wakers = s.wakers) (hqueued : s'.queued = s.queued)
    (hentries : s'.entries = s.entries) (hold : s.workers r ≠ .clear) (hnew : pc ≠ .clear) :
    s'.Held holder where
  queued := hqueued.trans h.queued
  waker k := by
    rw [hwakers]
    exact h.waker k
  entries := hentries.trans h.entries
  worker q := by
    rw [hworkers]
    by_cases hq : q = r
    · subst hq
      rw [Function.update_self, ← h.worker q]
      exact ⟨fun hpc => absurd hpc hnew, fun hpc => absurd hpc hold⟩
    · rw [Function.update_of_ne hq]
      exact h.worker q

/-- A worker goes on outside the poll, or inside. -/
theorem Polled.work (h : s.Polled poller) (hworkers : s'.workers = Function.update s.workers r pc)
    (hpolling : s'.polling = s.polling) (hpolls : pc.polls = (s.workers r).polls) :
    s'.Polled poller where
  polling := hpolling.trans h.polling
  worker q := by
    rw [hworkers]
    by_cases hq : q = r
    · subst hq
      rw [Function.update_self, hpolls]
      exact h.worker q
    · rw [Function.update_of_ne hq]
      exact h.worker q

/-- A worker enters the poll that nobody is in. -/
theorem Polled.enter (h : s.Polled poller) (hworkers : s'.workers = Function.update s.workers r pc)
    (hfree : s.polling = false) (hpolling : s'.polling = true) (hpolls : pc.polls = true) :
    s'.Polled (some r) := by
  have hnone : poller = none := by
    rw [h.polling] at hfree
    exact Option.isSome_eq_false_iff.mp hfree |> Option.isNone_iff_eq_none.mp
  refine ⟨hpolling, fun q => ?_⟩
  rw [hworkers]
  by_cases hq : q = r
  · subst hq
    rw [Function.update_self]
    exact ⟨fun _ => rfl, fun _ => hpolls⟩
  · rw [Function.update_of_ne hq, h.worker q, hnone]
    exact ⟨fun hpoller => absurd hpoller (Option.some_ne_none q).symm,
      fun hpoller => absurd (Option.some.inj hpoller).symm hq⟩

/-- The worker in the poll leaves it. -/
theorem Polled.leave (h : s.Polled poller) (hworkers : s'.workers = Function.update s.workers r pc)
    (hpolling : s'.polling = false) (hin : (s.workers r).polls = true) (hout : pc.polls = false) :
    s'.Polled none := by
  have hpoller : poller = some r := (h.worker r).mp hin
  refine ⟨hpolling, fun q => ?_⟩
  rw [hworkers]
  by_cases hq : q = r
  · subst hq
    rw [Function.update_self, hout]
    exact ⟨fun hpc => absurd hpc Bool.false_ne_true,
      fun hpoller => absurd hpoller (Option.some_ne_none q).symm⟩
  · rw [Function.update_of_ne hq, h.worker q, hpoller]
    exact ⟨fun heq => absurd (Option.some.inj heq).symm hq,
      fun hpoller => absurd hpoller (Option.some_ne_none q).symm⟩

/-- A worker goes on and holds no reference of an entry before or after. -/
theorem unref_work {n : Nat} (h : Census (fun q => s.workers q = .unref) n)
    (hworkers : s'.workers = Function.update s.workers r pc) (hold : s.workers r ≠ .unref)
    (hnew : pc ≠ .unref) : Census (fun q => s'.workers q = .unref) n := by
  refine h.congr fun q => ?_
  rw [hworkers]
  by_cases hq : q = r
  · subst hq
    rw [Function.update_self]
    exact ⟨fun hpc => absurd hpc hnew, fun hpc => absurd hpc hold⟩
  · rw [Function.update_of_ne hq]

/-- A property of all workers survives a step of one of them to a place with the property. -/
theorem forall_work {p : WorkPc → Prop} (h : ∀ q, p (s.workers q))
    (hworkers : s'.workers = Function.update s.workers r pc) (hpc : p pc) :
    ∀ q, p (s'.workers q) := by
  intro q
  rw [hworkers]
  by_cases hq : q = r
  · subst hq
    rw [Function.update_self]
    exact hpc
  · rw [Function.update_of_ne hq]
    exact h q

/-- A worker goes on outside `finalize`. -/
theorem Stage.work {base : Nat} (h : s.Stage base)
    (hworkers : s'.workers = Function.update s.workers r pc) (hcompleted : s'.completed = s.completed)
    (hacks : s'.acknowledgements = s.acknowledgements) (hold : s.workers r ≠ .release)
    (hnew : pc ≠ .release ∧ pc ≠ .leave false) (hdrives : s.completed = true → pc.drives = false)
    (hsettles : pc.settles = false) : s'.Stage base where
  pending hc := by
    obtain ⟨hbase, hnone⟩ := h.pending (hcompleted.symm.trans hc)
    exact ⟨hbase, forall_work (p := fun pc => pc ≠ .release ∧ pc ≠ .leave false) hnone hworkers hnew⟩
  done hc := by
    obtain ⟨hdrive, hrelease⟩ := h.done (hcompleted.symm.trans hc)
    refine ⟨forall_work (p := fun pc => pc.drives = false) hdrive hworkers
      (hdrives (hcompleted.symm.trans hc)), ?_⟩
    refine hrelease.imp (fun hone => ⟨hone.1, ?_⟩) fun hzero => ⟨hzero.1, ?_⟩
    · obtain ⟨q, hq⟩ := hone.2
      refine ⟨q, ?_⟩
      rw [hworkers, Function.update_of_ne]
      · exact hq
      · rintro rfl
        exact hold hq
    · exact forall_work (p := fun pc => pc ≠ .release) hzero.2 hworkers hnew.1
  unsettled := ⟨hacks.trans h.unsettled.1,
    forall_work (p := fun pc => pc.settles = false) h.unsettled.2 hworkers hsettles⟩

theorem backing_congr (hwakers : s'.wakers = s.wakers) : s'.backing holder = s.backing holder := by
  unfold backing
  rw [hwakers]

end Frames

/-! ## Wakers -/

section Wakers

variable {s : State} {holder : Option Holder} {poller : Option Nat} {base unrefs k : Nat}

/-- What a waker does to `QUEUED` and its reference leaves the rest alone. -/
theorem Live.wakerStep {s' : State} {holder' : Option Holder} (h : s.Live holder poller base unrefs)
    (hheld : s'.Held holder') (hworkers : s'.workers = s.workers)
    (hpolling : s'.polling = s.polling) (hcompleted : s'.completed = s.completed)
    (hacks : s'.acknowledgements = s.acknowledgements)
    (hcount : s'.refCount + s.backing holder = s.refCount + s'.backing holder')
    (hleft : 0 < s'.refCount) : s'.Live holder' poller base unrefs where
  held := hheld
  polled := ⟨hpolling.trans h.polled.polling, fun r => by rw [hworkers]; exact h.polled.worker r⟩
  unref := h.unref.congr fun r => by rw [hworkers]
  refCount := by
    have heq := h.refCount
    omega
  left := hleft
  stage := by
    refine ⟨fun hc => ?_, fun hc => ?_, ?_⟩
    · rw [hworkers]
      exact h.stage.pending (hcompleted.symm.trans hc)
    · rw [hworkers]
      exact h.stage.done (hcompleted.symm.trans hc)
    · rw [hworkers, hacks]
      exact h.stage.unsettled

theorem Held.waker_ne {j : Nat} (h : s.Held holder) (hk : holder = some (.waker k)) (hj : j ≠ k) :
    s.wakers j = .idle := by
  by_contra hne
  have heq := (h.waker j).mp hne
  rw [hk] at heq
  exact hj (Holder.waker.inj (Option.some.inj heq)).symm

theorem Live.mark (h : s.Live holder poller base unrefs) :
    ∃ holder', (s.tryMarkQueued k).Live holder' poller base unrefs := by
  unfold tryMarkQueued
  split
  · exact ⟨holder, h⟩
  · rename_i hfree
    rw [Bool.or_eq_true, not_or] at hfree
    have hnone : holder = none := by
      cases hholder : holder with
      | none => rfl
      | some _ =>
        have hqueued := h.held.queued
        rw [hholder] at hqueued
        exact absurd hqueued hfree.1
    subst hnone
    have hidle : ∀ j, s.wakers j = .idle := fun j => by
      by_contra hne
      exact Option.some_ne_none _ ((h.held.waker j).mp hne).symm
    refine ⟨some (.waker k), h.wakerStep ⟨rfl, fun j => ?_, ?_, fun r => ?_⟩ rfl rfl rfl rfl ?_ h.left⟩
    · show Function.update s.wakers k .count j ≠ .idle ↔ _
      by_cases hj : j = k
      · subst hj
        rw [Function.update_self]
        exact ⟨fun _ => rfl, fun _ => WakePc.noConfusion⟩
      · rw [Function.update_of_ne hj, hidle j]
        exact ⟨fun hne => absurd rfl hne,
          fun heq => absurd (Holder.waker.inj (Option.some.inj heq)).symm hj⟩
    · exact h.held.entries
    · refine (h.held.worker r).trans ⟨fun heq => absurd heq (Option.some_ne_none _).symm,
        fun heq => Holder.noConfusion (Option.some.inj heq)⟩
    · have hcounting : Function.update s.wakers k .count k = .count := Function.update_self ..
      show s.refCount + 0 = s.refCount + if Function.update s.wakers k .count k = .count then 0 else 1
      rw [if_pos hcounting]

theorem Live.count (h : s.Live holder poller base unrefs) (hk : s.wakers k = .count) :
    ({ s.setWaker k .push with refCount := s.refCount + 1 } : State).Live holder poller base
      unrefs := by
  have hholder : holder = some (.waker k) := (h.held.waker k).mp (by rw [hk]; exact WakePc.noConfusion)
  refine h.wakerStep ⟨h.held.queued, fun j => ?_, h.held.entries, h.held.worker⟩ rfl rfl rfl rfl ?_
    (Nat.succ_pos _)
  · show Function.update s.wakers k .push j ≠ .idle ↔ _
    by_cases hj : j = k
    · subst hj
      rw [Function.update_self]
      exact ⟨fun _ => hholder, fun _ => WakePc.noConfusion⟩
    · rw [Function.update_of_ne hj]
      exact h.held.waker j
  · rw [hholder]
    have hpushing : Function.update s.wakers k .push k = .push := Function.update_self ..
    show s.refCount + 1 + (if s.wakers k = .count then 0 else 1) =
      s.refCount + if Function.update s.wakers k .push k = .count then 0 else 1
    rw [if_pos hk, if_neg (by rw [hpushing]; exact WakePc.noConfusion)]

theorem Live.push (h : s.Live holder poller base unrefs) (hk : s.wakers k = .push) :
    ({ s.setWaker k .idle with entries := s.entries + 1 } : State).Live (some .queue) poller base
      unrefs := by
  have hholder : holder = some (.waker k) := (h.held.waker k).mp (by rw [hk]; exact WakePc.noConfusion)
  have hentries : s.entries = 0 := by
    rw [h.held.entries, hholder]
    rfl
  refine h.wakerStep ⟨?_, fun j => ?_, ?_, fun r => ?_⟩ rfl rfl rfl rfl ?_ h.left
  · exact h.held.queued.trans (by rw [hholder]; rfl)
  · show Function.update s.wakers k .idle j ≠ .idle ↔ _
    refine ⟨fun hne => ?_, fun heq => Holder.noConfusion (Option.some.inj heq)⟩
    by_cases hj : j = k
    · subst hj
      exact absurd (Function.update_self ..) hne
    · rw [Function.update_of_ne hj] at hne
      exact absurd (h.held.waker_ne hholder hj) hne
  · show s.entries + 1 = _
    rw [hentries]
    rfl
  · refine (h.held.worker r).trans ?_
    rw [hholder]
    exact ⟨fun heq => Holder.noConfusion (Option.some.inj heq),
      fun heq => Holder.noConfusion (Option.some.inj heq)⟩
  · rw [hholder]
    show s.refCount + (if s.wakers k = .count then 0 else 1) = s.refCount + 1
    rw [if_neg (by rw [hk]; exact WakePc.noConfusion)]

end Wakers

/-! ## Workers -/

section Workers

variable {s : State} {holder : Option Holder} {poller : Option Nat} {base unrefs r : Nat}

/-- A worker goes on where it was with respect to the poll, the entry and the references. -/
theorem Live.move {s' : State} {pc : WorkPc} (h : s.Live holder poller base unrefs)
    (hworkers : s'.workers = Function.update s.workers r pc) (hwakers : s'.wakers = s.wakers)
    (hbits : s'.queued = s.queued ∧ s'.polling = s.polling ∧ s'.completed = s.completed)
    (hnumbers : s'.refCount = s.refCount ∧ s'.entries = s.entries ∧
      s'.acknowledgements = s.acknowledgements)
    (hold : s.workers r ≠ .clear ∧ s.workers r ≠ .unref ∧ s.workers r ≠ .release)
    (hnew : pc ≠ .clear ∧ pc ≠ .unref ∧ pc ≠ .release ∧ pc ≠ .leave false)
    (hpolls : pc.polls = (s.workers r).polls) (hdrives : s.completed = true → pc.drives = false)
    (hsettles : pc.settles = false) : s'.Live holder poller base unrefs where
  held := h.held.work hworkers hwakers hbits.1 hnumbers.2.1 hold.1 hnew.1
  polled := h.polled.work hworkers hbits.2.1 hpolls
  unref := unref_work h.unref hworkers hold.2.1 hnew.2.1
  refCount := by
    rw [hnumbers.1, backing_congr hwakers]
    exact h.refCount
  left := by
    rw [hnumbers.1]
    exact h.left
  stage := h.stage.work hworkers hbits.2.2 hnumbers.2.2 hold.2.2 hnew.2.2 hdrives hsettles

theorem Live.pop {n : Nat} (h : s.Live holder poller base unrefs) (hr : s.workers r = .idle)
    (hn : s.entries = n + 1) :
    ({ s.setWorker r .clear with entries := n } : State).Live (some (.worker r)) poller base
      unrefs := by
  have hentries := h.held.entries
  have hholder : holder = some .queue := by
    by_contra hne
    rw [if_neg hne] at hentries
    omega
  rw [if_pos hholder] at hentries
  have hidle : ∀ k, s.wakers k = .idle := fun k => by
    by_contra hne
    have heq := (h.held.waker k).mp hne
    rw [hholder] at heq
    exact Holder.noConfusion (Option.some.inj heq)
  refine ⟨⟨?_, fun k => ?_, ?_, fun q => ?_⟩, h.polled.work rfl rfl (by rw [hr]; rfl),
    unref_work h.unref rfl (by rw [hr]; exact WorkPc.noConfusion) WorkPc.noConfusion, ?_, h.left,
    h.stage.work rfl rfl rfl (by rw [hr]; exact WorkPc.noConfusion)
      ⟨WorkPc.noConfusion, WorkPc.noConfusion⟩ (fun _ => rfl) rfl⟩
  · exact h.held.queued.trans (by rw [hholder]; rfl)
  · exact ⟨fun hne => absurd (hidle k) hne, fun heq => Holder.noConfusion (Option.some.inj heq)⟩
  · show n = 0
    omega
  · show Function.update s.workers r .clear q = .clear ↔ _
    by_cases hq : q = r
    · subst hq
      rw [Function.update_self]
      exact ⟨fun _ => rfl, fun _ => rfl⟩
    · rw [Function.update_of_ne hq, h.held.worker q, hholder]
      exact ⟨fun heq => Holder.noConfusion (Option.some.inj heq),
        fun heq => absurd (Holder.worker.inj (Option.some.inj heq)).symm hq⟩
  · have hcount := h.refCount
    rw [hholder] at hcount
    exact hcount

/-- The bit is cleared, and its reference is the worker's. -/
theorem Live.clearQueued (h : s.Live holder poller base unrefs) (hr : s.workers r = .clear) :
    (s.clearQueued r).Live none poller base (unrefs + 1) := by
  have hholder : holder = some (.worker r) := (h.held.worker r).mp hr
  have hqueued : s.queued = true := by
    rw [h.held.queued, hholder]
    rfl
  have hworkers : (s.clearQueued r).workers = Function.update s.workers r .unref := by
    unfold State.clearQueued
    rw [hqueued]
    rfl
  have hidle : ∀ k, s.wakers k = .idle := fun k => by
    by_contra hne
    have heq := (h.held.waker k).mp hne
    rw [hholder] at heq
    exact Holder.noConfusion (Option.some.inj heq)
  refine ⟨⟨rfl, fun k => ?_, ?_, fun q => ?_⟩, h.polled.work hworkers rfl (by rw [hr]; rfl), ?_, ?_,
    h.left, h.stage.work hworkers rfl rfl (by rw [hr]; exact WorkPc.noConfusion)
      ⟨WorkPc.noConfusion, WorkPc.noConfusion⟩ (fun _ => rfl) rfl⟩
  · exact ⟨fun hne => absurd (hidle k) hne, fun heq => absurd heq (Option.some_ne_none _).symm⟩
  · exact h.held.entries.trans (by rw [hholder]; rfl)
  · rw [hworkers]
    refine ⟨fun heq => ?_, fun heq => absurd heq (Option.some_ne_none _).symm⟩
    by_cases hq : q = r
    · subst hq
      rw [Function.update_self] at heq
      exact WorkPc.noConfusion heq
    · rw [Function.update_of_ne hq, h.held.worker q, hholder] at heq
      exact absurd (Holder.worker.inj (Option.some.inj heq)).symm hq
  · refine h.unref.join (i := r) (by rw [hr]; exact WorkPc.noConfusion) fun q => ?_
    rw [hworkers]
    by_cases hq : q = r
    · subst hq
      rw [Function.update_self]
      exact ⟨fun _ => Or.inl rfl, fun _ => rfl⟩
    · rw [Function.update_of_ne hq]
      exact ⟨Or.inr, fun hor => hor.resolve_left hq⟩
  · have hcount := h.refCount
    rw [hholder] at hcount
    show s.refCount = base + 0 + (unrefs + 1)
    rw [hcount]
    show base + 1 + unrefs = _
    omega

/-- The workers at `unref` after one of them has gone on. -/
theorem unref_leave {s' : State} {pc : WorkPc} (h : Census (fun q => s.workers q = .unref) unrefs)
    (hworkers : s'.workers = Function.update s.workers r pc) (hr : s.workers r = .unref)
    (hpc : pc ≠ .unref) : Census (fun q => s'.workers q = .unref) (unrefs - 1) := by
  refine h.leave hr fun q => ?_
  rw [hworkers]
  by_cases hq : q = r
  · subst hq
    rw [Function.update_self]
    exact ⟨fun heq => absurd heq hpc, fun hand => absurd rfl hand.1⟩
  · rw [Function.update_of_ne hq]
    exact ⟨fun heq => ⟨hq, heq⟩, And.right⟩

/-- A reference that is not the last is given back. -/
theorem Live.clearQueuedRef (h : s.Live holder poller base unrefs) (hr : s.workers r = .unref)
    (hne : s.refCount ≠ 1) : (s.clearQueuedRef r).Live holder poller base (unrefs - 1) := by
  have hworkers : (s.clearQueuedRef r).workers = Function.update s.workers r .enter := by
    unfold State.clearQueuedRef
    rw [if_neg hne]
    rfl
  have hpos : 0 < unrefs := h.unref.pos hr
  have hleft := h.left
  have hcount := h.refCount
  refine ⟨h.held.work hworkers rfl rfl rfl (by rw [hr]; exact WorkPc.noConfusion) WorkPc.noConfusion,
    h.polled.work hworkers rfl (by rw [hr]; rfl),
    unref_leave h.unref hworkers hr WorkPc.noConfusion, ?_, ?_,
    h.stage.work hworkers rfl rfl (by rw [hr]; exact WorkPc.noConfusion)
      ⟨WorkPc.noConfusion, WorkPc.noConfusion⟩ (fun _ => rfl) rfl⟩
  · show s.refCount - 1 = base + s.backing holder + (unrefs - 1)
    omega
  · show 0 < s.refCount - 1
    omega

theorem Live.tryEnterPoll (h : s.Live holder poller base unrefs) (hr : s.workers r = .enter) :
    ∃ poller', (s.tryEnterPoll r).Live holder poller' base unrefs := by
  have hold : s.workers r ≠ .clear ∧ s.workers r ≠ .unref ∧ s.workers r ≠ .release := by
    rw [hr]
    exact ⟨WorkPc.noConfusion, WorkPc.noConfusion, WorkPc.noConfusion⟩
  unfold State.tryEnterPoll
  split
  · exact ⟨poller, h.move (r := r) rfl rfl ⟨rfl, rfl, rfl⟩ ⟨rfl, rfl, rfl⟩ hold
      ⟨WorkPc.noConfusion, WorkPc.noConfusion, WorkPc.noConfusion, WorkPc.noConfusion⟩
      (by rw [hr]; rfl) (fun _ => rfl) rfl⟩
  · rename_i hopen
    split
    · exact ⟨poller, h.move (r := r) rfl rfl ⟨rfl, rfl, rfl⟩ ⟨rfl, rfl, rfl⟩ hold
        ⟨WorkPc.noConfusion, WorkPc.noConfusion, WorkPc.noConfusion, WorkPc.noConfusion⟩
        (by rw [hr]; rfl) (fun _ => rfl) rfl⟩
    · rename_i hfree
      exact ⟨some r, h.held.work rfl rfl rfl rfl hold.1 WorkPc.noConfusion,
        h.polled.enter rfl (eq_false_of_ne_true hfree) rfl rfl,
        unref_work h.unref rfl hold.2.1 WorkPc.noConfusion, h.refCount, h.left,
        h.stage.work rfl rfl rfl hold.2.2 ⟨WorkPc.noConfusion, WorkPc.noConfusion⟩
          (fun hc => absurd hc hopen) rfl⟩

/-- The worker drives the task, so the task is not complete. -/
theorem Live.open_of_drives (h : s.Live holder poller base unrefs)
    (hr : (s.workers r).drives = true) : s.completed = false := by
  cases hc : s.completed with
  | false => rfl
  | true =>
    rw [(h.stage.done hc).1 r] at hr
    exact absurd hr Bool.false_ne_true

theorem Live.poll (h : s.Live holder poller base unrefs) (hr : s.workers r = .poll) (ready : Bool) :
    (s.setWorker r (if ready then .complete else .exit)).Live holder poller base unrefs := by
  have hold : s.workers r ≠ .clear ∧ s.workers r ≠ .unref ∧ s.workers r ≠ .release := by
    rw [hr]
    exact ⟨WorkPc.noConfusion, WorkPc.noConfusion, WorkPc.noConfusion⟩
  have hopen : s.completed = false := h.open_of_drives (r := r) (by rw [hr]; rfl)
  cases ready
  · exact h.move (r := r) rfl rfl ⟨rfl, rfl, rfl⟩ ⟨rfl, rfl, rfl⟩ hold
      ⟨WorkPc.noConfusion, WorkPc.noConfusion, WorkPc.noConfusion, WorkPc.noConfusion⟩
      (by rw [hr]; rfl) (fun hc => absurd (hopen.symm.trans hc) Bool.false_ne_true) rfl
  · exact h.move (r := r) rfl rfl ⟨rfl, rfl, rfl⟩ ⟨rfl, rfl, rfl⟩ hold
      ⟨WorkPc.noConfusion, WorkPc.noConfusion, WorkPc.noConfusion, WorkPc.noConfusion⟩
      (by rw [hr]; rfl) (fun hc => absurd (hopen.symm.trans hc) Bool.false_ne_true) rfl

theorem Live.exitPollToPending (h : s.Live holder poller base unrefs) (hr : s.workers r = .exit) :
    ∃ poller', (s.exitPollToPending r).Live holder poller' base unrefs := by
  have hold : s.workers r ≠ .clear ∧ s.workers r ≠ .unref ∧ s.workers r ≠ .release := by
    rw [hr]
    exact ⟨WorkPc.noConfusion, WorkPc.noConfusion, WorkPc.noConfusion⟩
  have hopen : s.completed = false := h.open_of_drives (r := r) (by rw [hr]; rfl)
  unfold State.exitPollToPending
  split
  · exact ⟨poller, h.move (r := r) rfl rfl ⟨rfl, rfl, rfl⟩ ⟨rfl, rfl, rfl⟩ hold
      ⟨WorkPc.noConfusion, WorkPc.noConfusion, WorkPc.noConfusion, WorkPc.noConfusion⟩
      (by rw [hr]; rfl) (fun hc => absurd (hopen.symm.trans hc) Bool.false_ne_true) rfl⟩
  · exact ⟨none, h.held.work rfl rfl rfl rfl hold.1 WorkPc.noConfusion,
      h.polled.leave rfl rfl (by rw [hr]; rfl) rfl,
      unref_work h.unref rfl hold.2.1 WorkPc.noConfusion, h.refCount, h.left,
      h.stage.work rfl rfl rfl hold.2.2 ⟨WorkPc.noConfusion, WorkPc.noConfusion⟩ (fun _ => rfl) rfl⟩

/-- A worker in the poll is the only one. -/
theorem Polled.ne_of_polls {q : Nat} (h : s.Polled poller) (hr : (s.workers r).polls = true)
    (hq : q ≠ r) : (s.workers q).polls = false := by
  cases hpolls : (s.workers q).polls with
  | false => rfl
  | true =>
    have heq := ((h.worker q).mp hpolls).symm.trans ((h.worker r).mp hr)
    exact absurd (Option.some.inj heq) hq

theorem WorkPc.not_drives {pc : WorkPc} (h : pc.polls = false) : pc.drives = false := by
  revert h
  cases pc <;> simp [WorkPc.polls, WorkPc.drives]

theorem Live.markCompleted (h : s.Live holder poller base unrefs) (hr : s.workers r = .complete) :
    (s.markCompleted r).Live holder poller base unrefs := by
  have hopen : s.completed = false := h.open_of_drives (r := r) (by rw [hr]; rfl)
  have hpolls : (s.workers r).polls = true := by
    rw [hr]
    rfl
  refine ⟨h.held.work rfl rfl rfl rfl (by rw [hr]; exact WorkPc.noConfusion) WorkPc.noConfusion,
    h.polled.work rfl rfl (by rw [hr]; rfl),
    unref_work h.unref rfl (by rw [hr]; exact WorkPc.noConfusion) WorkPc.noConfusion, h.refCount,
    h.left, ⟨fun hc => Bool.noConfusion hc, fun _ => ⟨fun q => ?_, Or.inl ⟨?_, r, ?_⟩⟩, ?_⟩⟩
  · show (Function.update s.workers r .release q).drives = false
    by_cases hq : q = r
    · subst hq
      rw [Function.update_self]
      rfl
    · rw [Function.update_of_ne hq]
      exact WorkPc.not_drives (h.polled.ne_of_polls hpolls hq)
  · exact (h.stage.pending hopen).1
  · exact Function.update_self ..
  · exact ⟨h.stage.unsettled.1,
      forall_work (p := fun pc => pc.settles = false) h.stage.unsettled.2 rfl rfl⟩

/-- A worker that releases the task's own reference has completed the task. -/
theorem Live.released (h : s.Live holder poller base unrefs) (hr : s.workers r = .release) :
    s.completed = true ∧ base = 1 := by
  cases hc : s.completed with
  | false => exact absurd hr ((h.stage.pending hc).2 r).1
  | true =>
    refine ⟨rfl, ?_⟩
    rcases (h.stage.done hc).2 with hone | hzero
    · exact hone.1
    · exact absurd hr (hzero.2 r)

/-- The task's own reference is given back, and it is not the last. -/
theorem Live.decrementRefCount (h : s.Live holder poller base unrefs) (hr : s.workers r = .release)
    (hne : s.refCount ≠ 1) : (s.decrementRefCount r).Live holder poller 0 unrefs := by
  have hworkers : (s.decrementRefCount r).workers = Function.update s.workers r (.leave false) := by
    unfold State.decrementRefCount
    rw [decide_eq_false hne]
    rfl
  obtain ⟨hc, hbase⟩ := h.released hr
  have hpolls : (s.workers r).polls = true := by
    rw [hr]
    rfl
  have hleft := h.left
  have hcount := h.refCount
  refine ⟨h.held.work hworkers rfl rfl rfl (by rw [hr]; exact WorkPc.noConfusion) WorkPc.noConfusion,
    h.polled.work hworkers rfl (by rw [hr]; rfl),
    unref_work h.unref hworkers (by rw [hr]; exact WorkPc.noConfusion) WorkPc.noConfusion, ?_, ?_,
    ⟨fun hopen => absurd (hc.symm.trans hopen) (Ne.symm Bool.false_ne_true), fun _ => ⟨?_, Or.inr ⟨rfl, fun q => ?_⟩⟩, ?_⟩⟩
  · show s.refCount - 1 = 0 + s.backing holder + unrefs
    omega
  · show 0 < s.refCount - 1
    omega
  · exact forall_work (p := fun pc => pc.drives = false) (h.stage.done hc).1 hworkers rfl
  · rw [hworkers]
    by_cases hq : q = r
    · subst hq
      rw [Function.update_self]
      exact WorkPc.noConfusion
    · rw [Function.update_of_ne hq]
      intro heq
      have hfalse := h.polled.ne_of_polls hpolls hq
      rw [heq] at hfalse
      exact Bool.noConfusion hfalse
  · exact ⟨h.stage.unsettled.1,
      forall_work (p := fun pc => pc.settles = false) h.stage.unsettled.2 hworkers rfl⟩

theorem Live.exitPoll (h : s.Live holder poller base unrefs) {last : Bool}
    (hr : s.workers r = .leave last) : (s.exitPoll r last).Live holder none base unrefs := by
  have hlast : last = false := by
    have hsettles := h.stage.unsettled.2 r
    rw [hr] at hsettles
    cases last
    · rfl
    · exact Bool.noConfusion hsettles
  subst hlast
  have hworkers : (s.exitPoll r false).workers = Function.update s.workers r .idle := rfl
  exact ⟨h.held.work hworkers rfl rfl rfl (by rw [hr]; exact WorkPc.noConfusion) WorkPc.noConfusion,
    h.polled.leave hworkers rfl (by rw [hr]; rfl) rfl,
    unref_work h.unref hworkers (by rw [hr]; exact WorkPc.noConfusion) WorkPc.noConfusion,
    h.refCount, h.left, h.stage.work hworkers rfl rfl (by rw [hr]; exact WorkPc.noConfusion)
      ⟨WorkPc.noConfusion, WorkPc.noConfusion⟩ (fun _ => rfl) rfl⟩

/-! ## The last reference -/

/-- Without a counted reference `QUEUED` is clear, unless a waker has yet to count its own. -/
theorem free_of_backing (hback : s.backing holder = 0) (hwakers : ∀ k, s.wakers k ≠ .count) :
    holder = none := by
  cases hholder : holder with
  | none => rfl
  | some who =>
    rw [hholder] at hback
    cases who with
    | waker k =>
      simp only [backing, if_neg (hwakers k)] at hback
      exact absurd hback Nat.one_ne_zero
    | queue => exact absurd hback Nat.one_ne_zero
    | worker q => exact absurd hback Nat.one_ne_zero

/-- What the last reference leaves behind: the other references are gone. -/
theorem Live.last_reference (h : s.Live holder poller base unrefs)
    (hgives : (s.workers r).gives = true) (hone : s.refCount = 1) :
    s.completed = true ∧ s.backing holder = 0 ∧ (∀ q, q ≠ r → s.workers q ≠ .unref) ∧
      ∀ q, q ≠ r → s.workers q ≠ .release := by
  have hcount := h.refCount
  cases hr : s.workers r with
  | unref =>
    have hpos := h.unref.pos hr
    have hbase : base = 0 := by omega
    have hc : s.completed = true := by
      cases hc : s.completed with
      | true => rfl
      | false => exact absurd ((h.stage.pending hc).1.symm.trans hbase) Nat.one_ne_zero
    refine ⟨hc, by omega, fun q hq hu => ?_, fun q _ => ?_⟩
    · have hothers := (h.unref.leave hr (q := fun j => j ≠ r ∧ s.workers j = .unref)
        fun j => Iff.rfl).pos (i := q) ⟨hq, hu⟩
      omega
    · rcases (h.stage.done hc).2 with hown | hnone
      · exact absurd (hown.1.symm.trans hbase) Nat.one_ne_zero
      · exact hnone.2 q
  | release =>
    obtain ⟨hc, hbase⟩ := h.released hr
    refine ⟨hc, by omega, fun q _ hu => ?_, fun q hq hrel => ?_⟩
    · have hpos := h.unref.pos hu
      omega
    · have hfalse := h.polled.ne_of_polls (r := r) (by rw [hr]; rfl) hq
      rw [hrel] at hfalse
      exact Bool.noConfusion hfalse
  | _ =>
    rw [hr] at hgives
    exact absurd hgives Bool.false_ne_true

/-- Where a worker can be that takes no part any more. -/
theorem WorkPc.idle_of {pc : WorkPc} (hclear : pc ≠ .clear) (hunref : pc ≠ .unref)
    (hrelease : pc ≠ .release) (hunbacked : pc.unbacked = false) (hdrives : pc.drives = false)
    (hsettles : pc.settles = false) : pc = .idle := by
  cases pc with
  | idle => rfl
  | clear => exact absurd rfl hclear
  | unref => exact absurd rfl hunref
  | enter => exact absurd hunbacked (Ne.symm Bool.false_ne_true)
  | poll => exact absurd hdrives (Ne.symm Bool.false_ne_true)
  | exit => exact absurd hdrives (Ne.symm Bool.false_ne_true)
  | complete => exact absurd hdrives (Ne.symm Bool.false_ne_true)
  | release => exact absurd rfl hrelease
  | leave last =>
    cases last
    · exact absurd hunbacked (Ne.symm Bool.false_ne_true)
    · exact absurd hsettles (Ne.symm Bool.false_ne_true)
  | acknowledge => exact absurd hsettles (Ne.symm Bool.false_ne_true)

/-- When the last reference is given back with care, only the worker that does so has
anything left to do. -/
theorem Live.last (h : s.Live holder poller base unrefs) (hgives : (s.workers r).gives = true)
    (hone : s.refCount = 1) (hwakers : ∀ k, s.wakers k ≠ .count)
    (hothers : ∀ q, q ≠ r → (s.workers q).unbacked = false) :
    s.completed = true ∧ s.entries = 0 ∧ (∀ k, s.wakers k = .idle) ∧
      ∀ q, q ≠ r → s.workers q = .idle := by
  obtain ⟨hc, hback, hunref, hrelease⟩ := h.last_reference hgives hone
  have hnone := free_of_backing hback hwakers
  subst hnone
  refine ⟨hc, h.held.entries, fun k => ?_, fun q hq => ?_⟩
  · by_contra hne
    exact Option.some_ne_none _ ((h.held.waker k).mp hne).symm
  · refine WorkPc.idle_of (fun hclear => ?_) (hunref q hq) (hrelease q hq) (hothers q hq)
      ((h.stage.done hc).1 q) (h.stage.unsettled.2 q)
    exact Option.some_ne_none _ ((h.held.worker q).mp hclear).symm

/-- The worker that gave the last reference back is going to acknowledge. -/
theorem Live.settled {s' : State} {pc : WorkPc} (h : s.Live holder poller base unrefs)
    (hlast : s.completed = true ∧ s.entries = 0 ∧ (∀ k, s.wakers k = .idle) ∧
      ∀ q, q ≠ r → s.workers q = .idle)
    (hworkers : s'.workers = Function.update s.workers r pc) (hwakers : s'.wakers = s.wakers)
    (hcompleted : s'.completed = s.completed) (hentries : s'.entries = s.entries)
    (hacks : s'.acknowledgements = s.acknowledgements) (hsettles : pc.settles = true) :
    s'.Settled where
  completed := hcompleted.trans hlast.1
  entries := hentries.trans hlast.2.1
  wakers k := by
    rw [hwakers]
    exact hlast.2.2.1 k
  workers := by
    refine Or.inr ⟨hacks.trans h.stage.unsettled.1, r, ?_, fun q hq => ?_⟩
    · rw [hworkers, Function.update_self]
      exact hsettles
    · rw [hworkers, Function.update_of_ne hq]
      exact hlast.2.2.2 q hq

end Workers

/-! ## After the last reference -/

section Settling

variable {s : State} {r : Nat}

/-- Only the worker that is going to acknowledge has a step left. -/
theorem Settled.settles (h : s.Settled) (hr : s.workers r ≠ .idle) :
    s.acknowledgements = 0 ∧ (s.workers r).settles = true ∧ ∀ q, q ≠ r → s.workers q = .idle := by
  rcases h.workers with ⟨_, hidle⟩ | ⟨hacks, q, hq, hothers⟩
  · exact absurd (hidle r) hr
  · have hqr : q = r := by
      by_contra hne
      exact hr (hothers r (Ne.symm hne))
    subst hqr
    exact ⟨hacks, hq, hothers⟩

theorem Settled.exitPoll (h : s.Settled) {last : Bool} (hr : s.workers r = .leave last) :
    (s.exitPoll r last).Settled := by
  obtain ⟨hacks, hsettles, hothers⟩ := h.settles (r := r) (by rw [hr]; exact WorkPc.noConfusion)
  have hlast : last = true := by
    rw [hr] at hsettles
    cases last
    · exact Bool.noConfusion hsettles
    · rfl
  subst hlast
  refine ⟨h.completed, h.entries, h.wakers, Or.inr ⟨hacks, r, ?_, fun q hq => ?_⟩⟩
  · show (Function.update s.workers r .acknowledge r).settles = true
    rw [Function.update_self]
    rfl
  · exact (Function.update_of_ne hq ..).trans (hothers q hq)

theorem Settled.acknowledgeCompletion (h : s.Settled) (hr : s.workers r = .acknowledge) :
    (s.acknowledgeCompletion r).Settled := by
  obtain ⟨hacks, _, hothers⟩ := h.settles (r := r) (by rw [hr]; exact WorkPc.noConfusion)
  refine ⟨h.completed, h.entries, h.wakers, Or.inl ⟨?_, fun q => ?_⟩⟩
  · show s.acknowledgements + 1 = 1
    rw [hacks]
  · by_cases hq : q = r
    · subst hq
      exact Function.update_self ..
    · exact (Function.update_of_ne hq ..).trans (hothers q hq)

end Settling

/-! ## Every careful step -/

variable {s s' : State}

theorem Inv.init : State.init.Inv := by
  refine Or.inl ⟨none, none, 1, 0, ⟨rfl, fun k => ?_, rfl, fun r => ?_⟩, ⟨rfl, fun r => ?_⟩,
    Census.zero fun r => WorkPc.noConfusion, rfl, Nat.one_pos, ⟨fun _ => ⟨rfl, fun r => ?_⟩, ?_, ?_⟩⟩
  · exact ⟨fun hne => absurd rfl hne, fun heq => absurd heq (Option.some_ne_none _).symm⟩
  · exact ⟨fun hpc => WorkPc.noConfusion hpc, fun heq => absurd heq (Option.some_ne_none _).symm⟩
  · exact ⟨fun hpc => absurd hpc Bool.false_ne_true, fun heq => absurd heq (Option.some_ne_none _).symm⟩
  · exact ⟨WorkPc.noConfusion, WorkPc.noConfusion⟩
  · exact fun hc => Bool.noConfusion hc
  · exact ⟨rfl, fun r => rfl⟩

theorem Live.advance {holder : Option Holder} {poller : Option Nat} {base unrefs r : Nat}
    (h : s.Live holder poller base unrefs) (hcare : Careful s (.advance r))
    (hs : s.step (.advance r) = some s') : s'.Inv := by
  unfold step at hs
  cases hr : s.workers r <;> simp only [hr] at hs
  case idle => cases hs
  case clear =>
    obtain rfl := Option.some.inj hs
    exact Or.inl ⟨_, _, _, _, h.clearQueued hr⟩
  case unref =>
    obtain rfl := Option.some.inj hs
    by_cases hone : s.refCount = 1
    · have hgives : (s.workers r).gives = true := by rw [hr]; rfl
      obtain ⟨hwakers, hothers⟩ := hcare hgives hone
      have hworkers : (s.clearQueuedRef r).workers = Function.update s.workers r .acknowledge := by
        unfold State.clearQueuedRef
        rw [if_pos hone]
        rfl
      exact Or.inr (h.settled (h.last hgives hone hwakers hothers) hworkers rfl rfl rfl rfl rfl)
    · exact Or.inl ⟨_, _, _, _, h.clearQueuedRef hr hone⟩
  case enter =>
    obtain rfl := Option.some.inj hs
    obtain ⟨poller', h'⟩ := h.tryEnterPoll hr
    exact Or.inl ⟨_, _, _, _, h'⟩
  case poll => cases hs
  case exit =>
    obtain rfl := Option.some.inj hs
    obtain ⟨poller', h'⟩ := h.exitPollToPending hr
    exact Or.inl ⟨_, _, _, _, h'⟩
  case complete =>
    obtain rfl := Option.some.inj hs
    exact Or.inl ⟨_, _, _, _, h.markCompleted hr⟩
  case release =>
    obtain rfl := Option.some.inj hs
    by_cases hone : s.refCount = 1
    · have hgives : (s.workers r).gives = true := by rw [hr]; rfl
      obtain ⟨hwakers, hothers⟩ := hcare hgives hone
      have hworkers :
          (s.decrementRefCount r).workers = Function.update s.workers r (.leave true) := by
        unfold State.decrementRefCount
        rw [decide_eq_true hone]
        rfl
      exact Or.inr (h.settled (h.last hgives hone hwakers hothers) hworkers rfl rfl rfl rfl rfl)
    · exact Or.inl ⟨_, _, _, _, h.decrementRefCount hr hone⟩
  case leave last =>
    obtain rfl := Option.some.inj hs
    exact Or.inl ⟨_, _, _, _, h.exitPoll hr⟩
  case acknowledge =>
    have hsettles := h.stage.unsettled.2 r
    rw [hr] at hsettles
    exact Bool.noConfusion hsettles

theorem Settled.advance {r : Nat} (h : s.Settled) (hs : s.step (.advance r) = some s') :
    s'.Settled := by
  unfold step at hs
  cases hr : s.workers r <;> simp only [hr] at hs
  case leave last =>
    obtain rfl := Option.some.inj hs
    exact h.exitPoll hr
  case acknowledge =>
    obtain rfl := Option.some.inj hs
    exact h.acknowledgeCompletion hr
  case idle => cases hs
  case poll => cases hs
  all_goals
    obtain ⟨_, hsettles, _⟩ := h.settles (r := r) (by rw [hr]; exact WorkPc.noConfusion)
    rw [hr] at hsettles
    exact Bool.noConfusion hsettles

theorem Live.step {e : Event} {holder : Option Holder} {poller : Option Nat} {base unrefs : Nat}
    (h : s.Live holder poller base unrefs) (hcare : Careful s e) (hs : s.step e = some s') :
    s'.Inv := by
  cases e with
  | mark k =>
    unfold State.step at hs
    cases hk : s.wakers k <;> simp only [hk] at hs
    case idle =>
      obtain rfl := Option.some.inj hs
      obtain ⟨holder', h'⟩ := h.mark (k := k)
      exact Or.inl ⟨_, _, _, _, h'⟩
    all_goals cases hs
  | wake k =>
    unfold State.step at hs
    cases hk : s.wakers k <;> simp only [hk] at hs
    case idle => cases hs
    case count =>
      obtain rfl := Option.some.inj hs
      exact Or.inl ⟨_, _, _, _, h.count hk⟩
    case push =>
      obtain rfl := Option.some.inj hs
      exact Or.inl ⟨_, _, _, _, h.push hk⟩
  | pop r =>
    unfold State.step at hs
    cases hr : s.workers r <;> cases hn : s.entries <;> simp only [hr, hn] at hs
    case idle.succ n =>
      obtain rfl := Option.some.inj hs
      exact Or.inl ⟨_, _, _, _, h.pop hr hn⟩
    all_goals cases hs
  | poll r ready =>
    unfold State.step at hs
    cases hr : s.workers r <;> simp only [hr] at hs
    case poll =>
      obtain rfl := Option.some.inj hs
      exact Or.inl ⟨_, _, _, _, h.poll hr ready⟩
    all_goals cases hs
  | advance r => exact h.advance hcare hs

theorem Settled.step {e : Event} (h : s.Settled) (hs : s.step e = some s') : s'.Settled := by
  cases e with
  | mark k =>
    simp only [State.step, h.wakers k, State.tryMarkQueued, h.completed, Bool.or_true, if_true] at hs
    obtain rfl := Option.some.inj hs
    exact h
  | wake k =>
    simp only [State.step, h.wakers k] at hs
    cases hs
  | pop r =>
    unfold State.step at hs
    rw [h.entries] at hs
    cases hr : s.workers r <;> simp only [hr] at hs <;> cases hs
  | poll r ready =>
    unfold State.step at hs
    cases hr : s.workers r <;> simp only [hr] at hs
    case poll =>
      obtain ⟨_, hsettles, _⟩ := h.settles (r := r) (by rw [hr]; exact WorkPc.noConfusion)
      rw [hr] at hsettles
      exact Bool.noConfusion hsettles
    all_goals cases hs
  | advance r => exact h.advance hs

theorem Inv.step {e : Event} (h : s.Inv) (hcare : Careful s e) (hs : Step s e s') : s'.Inv := by
  rcases h with ⟨holder, poller, base, unrefs, h⟩ | h
  · exact h.step hcare hs
  · exact Or.inr (h.step hs)

/-! ## Runs -/

theorem Live.sound {holder : Option Holder} {poller : Option Nat} {base unrefs : Nat}
    (h : s.Live holder poller base unrefs) : Sound s where
  atMostOnce := by
    rw [h.stage.unsettled.1]
    exact Nat.zero_le 1
  alone r hr := by
    have hsettles := h.stage.unsettled.2 r
    rw [hr] at hsettles
    exact Bool.noConfusion hsettles
  untouched hacks := absurd (h.stage.unsettled.1.symm.trans hacks) Nat.zero_ne_one
  atLeastOnce hc hentries hwakers hworkers := by
    -- everybody rests, so the task's own reference is the only one that could be left
    have hcount := h.refCount
    have hleft := h.left
    have hbase : base = 0 := by
      rcases (h.stage.done hc).2 with ⟨_, r, hr⟩ | hzero
      · rw [hworkers r] at hr
        exact WorkPc.noConfusion hr
      · exact hzero.1
    have hunrefs : unrefs = 0 := by
      by_contra hne
      obtain ⟨r, hr⟩ := h.unref.exists_of_pos (Nat.pos_of_ne_zero hne)
      rw [hworkers r] at hr
      exact WorkPc.noConfusion hr
    have hback : s.backing holder = 0 := by
      cases hholder : holder with
      | none => rfl
      | some who =>
        cases who with
        | waker k => exact absurd (hwakers k) ((h.held.waker k).mpr hholder)
        | queue =>
          have heq := h.held.entries
          rw [hholder, if_pos rfl] at heq
          omega
        | worker r =>
          have hr := (h.held.worker r).mpr hholder
          rw [hworkers r] at hr
          exact WorkPc.noConfusion hr
    omega

theorem Settled.sound (h : s.Settled) : Sound s where
  atMostOnce := by
    rcases h.workers with ⟨hacks, _⟩ | ⟨hacks, _⟩ <;> omega
  alone r hr := by
    obtain ⟨hacks, _, hothers⟩ := h.settles (r := r) (by rw [hr]; exact WorkPc.noConfusion)
    exact ⟨h.completed, hacks, h.entries, h.wakers, hothers⟩
  untouched hacks := by
    rcases h.workers with ⟨_, hidle⟩ | ⟨hzero, _⟩
    · exact ⟨h.completed, h.entries, h.wakers, hidle⟩
    · exact absurd (hzero.symm.trans hacks) Nat.zero_ne_one
  atLeastOnce _ _ _ hworkers := by
    rcases h.workers with ⟨hacks, _⟩ | ⟨_, r, hr, _⟩
    · exact hacks
    · rw [hworkers r] at hr
      exact absurd hr Bool.false_ne_true

end State

/-- The states reached by steps that are all allowed where they are taken. -/
abbrev Reached (allowed : State → Event → Prop) : State → Prop :=
  Run Step allowed (· = State.init)

/-- While the last reference is given back with care, the task is acknowledged once and left
alone from then on. -/
theorem send_task_acknowledged_once (s : State) (h : Reached Careful s) : Sound s := by
  have hinv : s.Inv := by
    refine Run.invariant ?_ (fun s e s' => State.Inv.step) h
    rintro s rfl
    exact State.Inv.init
  rcases hinv with ⟨holder, poller, base, unrefs, hlive⟩ | hsettled
  · exact hlive.sound
  · exact hsettled.sound

/-! ## Two runs -/

/-- Who takes the step. -/
def Event.agent : Event → Nat
  | mark k | wake k => k
  | pop r | poll r _ | advance r => r

/-- Only the first `n` wakers and workers have begun. -/
def Within (n : Nat) (s : State) : Prop :=
  ∀ j, n ≤ j → s.wakers j = .idle ∧ s.workers j = .idle

/-- Everybody else stays where they are. -/
theorem step_others {s s' : State} {e : Event} (hs : s.step e = some s') {j : Nat}
    (hj : j ≠ e.agent) : s'.wakers j = s.wakers j ∧ s'.workers j = s.workers j := by
  have hworker : ∀ pc, Function.update s.workers e.agent pc j = s.workers j :=
    fun pc => Function.update_of_ne hj ..
  have hwaker : ∀ pc, Function.update s.wakers e.agent pc j = s.wakers j :=
    fun pc => Function.update_of_ne hj ..
  cases e with
  | mark k =>
    unfold State.step at hs
    cases hk : s.wakers k <;> simp only [hk] at hs <;> cases hs
    unfold State.tryMarkQueued
    split
    · exact ⟨rfl, rfl⟩
    · exact ⟨hwaker _, rfl⟩
  | wake k =>
    unfold State.step at hs
    cases hk : s.wakers k <;> simp only [hk] at hs <;> cases hs
    · exact ⟨hwaker _, rfl⟩
    · exact ⟨hwaker _, rfl⟩
  | pop r =>
    unfold State.step at hs
    cases hr : s.workers r <;> cases hn : s.entries <;> simp only [hr, hn] at hs <;> cases hs
    exact ⟨rfl, hworker _⟩
  | poll r ready =>
    unfold State.step at hs
    cases hr : s.workers r <;> simp only [hr] at hs <;> cases hs
    exact ⟨rfl, hworker _⟩
  | advance r =>
    unfold State.step at hs
    cases hr : s.workers r <;> simp only [hr] at hs <;> cases hs
    case enter.refl =>
      unfold State.tryEnterPoll
      split
      · exact ⟨rfl, hworker _⟩
      · split <;> exact ⟨rfl, hworker _⟩
    case exit.refl =>
      unfold State.exitPollToPending
      split <;> exact ⟨rfl, hworker _⟩
    all_goals exact ⟨rfl, hworker _⟩

theorem Within.step {n : Nat} {s s' : State} {e : Event} (h : Within n s) (he : e.agent < n)
    (hs : s.step e = some s') : Within n s' := by
  intro j hj
  obtain ⟨hwaker, hworker⟩ := step_others hs (j := j) (by omega)
  rw [hwaker, hworker]
  exact h j hj

/-- It is enough to look at those that have begun. -/
def carefulTest (n : Nat) (s : State) : Event → Bool
  | .advance r => decide ((s.workers r).gives = true → s.refCount = 1 →
      (∀ k < n, s.wakers k ≠ .count) ∧ ∀ q < n, q ≠ r → (s.workers q).unbacked = false)
  | _ => true

theorem careful_of_test {n : Nat} (s : State) (e : Event) (h : Within n s)
    (htest : carefulTest n s e = true) : Careful s e := by
  cases e with
  | advance r =>
    intro hgives hone
    obtain ⟨hwakers, hothers⟩ := of_decide_eq_true htest hgives hone
    refine ⟨fun k => ?_, fun q hq => ?_⟩
    · by_cases hk : k < n
      · exact hwakers k hk
      · rw [(h k (Nat.not_lt.mp hk)).1]
        exact WakePc.noConfusion
    · by_cases hlt : q < n
      · exact hothers q hlt hq
      · rw [(h q (Nat.not_lt.mp hlt)).2]
        rfl
  | _ => trivial

/-- The task is spawned and polled by worker 0, woken during the poll, seen by worker 1,
polled again and completed. -/
def wokenTask : List Event :=
  [.mark 0, .wake 0, .wake 0, .pop 0, .advance 0, .advance 0, .advance 0, .mark 0, .wake 0, .wake 0,
    .pop 1, .advance 1, .advance 1, .advance 1, .poll 0 false, .advance 0, .poll 0 true, .advance 0,
    .advance 0, .advance 0, .advance 0]

def wokenState : State :=
  (replay State.step (carefulTest 2) .init wokenTask).get (by decide +kernel)

/-- The completed task was acknowledged once. -/
theorem send_task_woken_acknowledged :
    wokenState.completed = true ∧ wokenState.acknowledgements = 1 ∧ Sound wokenState := by
  have hreplay : replay State.step (carefulTest 2) .init wokenTask = some wokenState :=
    (Option.some_get _).symm
  have hstart : Reached Careful State.init := .start rfl
  have hlt : ∀ e ∈ wokenTask, e.agent < 2 := by decide +kernel
  have hrun : Reached Careful wokenState :=
    hstart.replay_within (p := Within 2) (fun _ _ _ h => h)
      (fun e he s s' hw hs => hw.step (hlt e he) hs) careful_of_test (fun _ _ => ⟨rfl, rfl⟩) hreplay
  exact ⟨by decide +kernel, by decide +kernel, send_task_acknowledged_once wokenState hrun⟩

/-- Waker 1 has set `QUEUED` and not counted its reference yet when worker 0 completes the
task; worker 1 then runs the late entry. -/
def lateWake : List Event :=
  [.mark 0, .wake 0, .wake 0, .pop 0, .advance 0, .advance 0, .advance 0, .mark 1, .poll 0 true,
    .advance 0, .advance 0, .advance 0, .advance 0, .wake 1, .wake 1, .pop 1, .advance 1, .advance 1,
    .advance 1]

def lateState : State :=
  (replay State.step (fun _ _ => true) .init lateWake).get (by decide +kernel)

/-- The task is acknowledged twice. -/
theorem send_task_acknowledged_twice : ¬ ∀ s, Reached Always s → Sound s := by
  intro hsound
  have hreplay : replay State.step (fun _ _ => true) .init lateWake = some lateState :=
    (Option.some_get _).symm
  have hstart : Reached Always State.init := .start rfl
  have hrun : Reached Always lateState :=
    hstart.replay (fun _ _ _ h => h) (fun _ _ _ => trivial) hreplay
  exact absurd (hsound lateState hrun).atMostOnce (by decide +kernel)

end Veloq.Runtime.SendTask
