import Veloq.Local.Channel
set_option autoImplicit false

/-!
# Local: which wake-ups the channels with waiter lists lose

While somebody waits on a side, the messages (or the free places) are at most as many as the
futures of that side that were woken.  In the middle of a call the account may be open:
`Inv spare extra` allows for `extra` that is still to be handed on, and keeps `spare` that
the polled future will not need.
-/

namespace Veloq.Local

open Veloq.Foundation
open Spsc (ChannelCapacity)

variable {α : Type}

namespace Channel

variable {s s' : Channel α} {f g : Nat} {side : Side} {spare extra : Side → Nat}

/-- The closed account, and the account with one on `side`. -/
def zero (_ : Side) : Nat := 0

def one (side other : Side) : Nat := if other = side then 1 else 0

/-- The lists and the account. -/
structure Core (spare extra : Side → Nat) (s : Channel α) : Prop where
  nodup : ∀ side, (s.waiters side).Nodup
  linked : ∀ side, ∀ f ∈ s.waiters side, (s.futures f).role.side = side ∧
    (s.futures f).stage = .pending ∧ (s.futures f).waker = true ∧ (s.futures f).notified = false
  served : ∀ side, s.waiters side ≠ [] →
    Backed (fun _ => False) (s.Woken side) (s.avail side + spare side) (extra side)

/-- Nobody waits for what cannot come. -/
structure Ends (s : Channel α) : Prop where
  senders : s.txCount = 0 → s.waiters .recv = []
  receivers : s.rxCount = 0 → s.isClosed = true
  room : s.isClosed = true ∨ s.capacity = .unbounded → s.waiters .send = []

/-- What holds between the calls. -/
structure Inv (s : Channel α) : Prop where
  core : Core zero zero s
  ends : Ends s

theorem Inv.new (flavor : Flavor) (capacity : ChannelCapacity) :
    Inv (new flavor capacity : Channel α) :=
  ⟨⟨fun _ => List.nodup_nil, fun _ _ hf => absurd hf List.not_mem_nil, fun _ h => absurd rfl h⟩,
    ⟨fun _ => rfl, fun h => absurd h Nat.one_ne_zero, fun _ => rfl⟩⟩

/-- Empty lists stay empty, and nobody leaves the channel. -/
structure Shrinks (s s' : Channel α) : Prop where
  nil : ∀ side, s.waiters side = [] → s'.waiters side = []
  txCount : s'.txCount = s.txCount
  rxCount : s'.rxCount = s.rxCount
  isClosed : s'.isClosed = s.isClosed
  capacity : s'.capacity = s.capacity

theorem Ends.shrinks (h : s.Ends) (hs : Shrinks s s') : s'.Ends := by
  refine ⟨fun ht => hs.nil _ (h.senders ?_), fun hr => ?_, fun hr => hs.nil _ (h.room ?_)⟩
  · exact hs.txCount ▸ ht
  · rw [hs.isClosed]
    exact h.receivers (hs.rxCount ▸ hr)
  · rw [hs.isClosed, hs.capacity] at hr
    exact hr

/-! ## The state of a future -/

theorem setFuture_self (s : Channel α) (f : Nat) (t : Waiter α) :
    (s.setFuture f t).futures f = t := Function.update_self ..

theorem setFuture_of_ne {t : Waiter α} (h : g ≠ f) :
    (s.setFuture f t).futures g = s.futures g := Function.update_of_ne h ..

theorem setWaiters_self (s : Channel α) (side : Side) (nodes : List Nat) :
    (s.setWaiters side nodes).waiters side = nodes := Function.update_self ..

theorem setWaiters_of_ne {side other : Side} {nodes : List Nat} (h : other ≠ side) :
    (s.setWaiters side nodes).waiters other = s.waiters other := Function.update_of_ne h ..

/-- Nobody is in the lists of both sides. -/
theorem Core.notMem_other (h : Core spare extra s) {other : Side} (hf : f ∈ s.waiters side)
    (hne : other ≠ side) : f ∉ s.waiters other := by
  intro hf'
  exact hne ((h.linked other f hf').1.symm.trans (h.linked side f hf).1)

theorem Core.not_woken (h : Core spare extra s) (hf : f ∈ s.waiters side) {other : Side} :
    ¬ s.Woken other f := by
  rintro ⟨-, -, hn⟩
  rw [(h.linked side f hf).2.2.2] at hn
  cases hn

/-! ## Waking -/

theorem shrinks_pop {rest : List Nat} (hwaiters : s.waiters side = g :: rest) (t : Waiter α) :
    Shrinks s ((s.setWaiters side rest).setFuture f t) := by
  refine ⟨fun other ho => ?_, rfl, rfl, rfl, rfl⟩
  refine (setWaiters_of_ne (s := s) ?_).trans ho
  rintro rfl
  rw [hwaiters] at ho
  cases ho

/-- The first of a list is popped and woken: what was to be handed on is. -/
theorem Core.wakeFront (h : Core spare extra s) {rest : List Nat} {extra' : Side → Nat}
    (hwaiters : s.waiters side = g :: rest) (hextra : extra side ≤ extra' side + 1)
    (hother : ∀ other, other ≠ side → extra other ≤ extra' other) :
    Core spare extra' ((s.setWaiters side rest).wake g) := by
  have hnodup := h.nodup side
  rw [hwaiters, List.nodup_cons] at hnodup
  have hmem : g ∈ s.waiters side := by
    rw [hwaiters]
    exact List.mem_cons_self ..
  have hself : ((s.setWaiters side rest).wake g).futures g =
      { s.futures g with waker := false, notified := true } := setFuture_self ..
  have hne : ∀ k, k ≠ g → ((s.setWaiters side rest).wake g).futures k = s.futures k :=
    fun k hk => setFuture_of_ne hk
  have hlist : ((s.setWaiters side rest).wake g).waiters side = rest := setWaiters_self ..
  have hlists : ∀ other, other ≠ side →
      ((s.setWaiters side rest).wake g).waiters other = s.waiters other :=
    fun other ho => setWaiters_of_ne ho
  have hsub : ∀ other, ∀ k ∈ ((s.setWaiters side rest).wake g).waiters other,
      k ∈ s.waiters other ∧ k ≠ g := by
    intro other k hk
    by_cases ho : other = side
    · subst ho
      rw [hlist] at hk
      rw [hwaiters]
      exact ⟨List.mem_cons_of_mem g hk, fun heq => hnodup.1 (heq ▸ hk)⟩
    · rw [hlists other ho] at hk
      exact ⟨hk, fun heq => h.notMem_other hmem ho (heq ▸ hk)⟩
  have hwoken : ∀ other k, s.Woken other k →
      Woken ((s.setWaiters side rest).wake g) other k := by
    intro other k hk
    unfold Woken
    rw [hne k fun heq => h.not_woken hmem (heq ▸ hk)]
    exact hk
  refine ⟨fun other => ?_, fun other k hk => ?_, fun other hother' => ?_⟩
  · by_cases ho : other = side
    · subst ho
      rw [hlist]
      exact hnodup.2
    · rw [hlists other ho]
      exact h.nodup other
  · obtain ⟨hk, hkg⟩ := hsub other k hk
    rw [hne k hkg]
    exact h.linked other k hk
  · have hback := h.served other fun hnil => hother' ((shrinks_pop hwaiters _).nil other hnil)
    by_cases ho : other = side
    · subst ho
      refine Backed.lend (i := g) (hback.mono (fun _ => id) (fun _ => id) hextra)
        (h.not_woken hmem) ?_ (fun _ => id) (hwoken other)
      unfold Woken
      rw [hself]
      exact ⟨(h.linked other g hmem).1, (h.linked other g hmem).2.1, rfl⟩
    · exact hback.mono (fun _ => id) (hwoken other) (hother other ho)

/-- What `wake_up_all` leaves behind. -/
structure Emptied (side : Side) (s s' : Channel α) : Prop where
  nil : s'.waiters side = []
  shrinks : Shrinks s s'
  core : Core zero zero s'

theorem Shrinks.trans {s'' : Channel α} (h : Shrinks s s') (h' : Shrinks s' s'') :
    Shrinks s s'' :=
  ⟨fun side hs => h'.nil side (h.nil side hs), h'.txCount.trans h.txCount,
    h'.rxCount.trans h.rxCount, h'.isClosed.trans h.isClosed, h'.capacity.trans h.capacity⟩

theorem Core.wakeEach {nodes : List Nat} (h : Core zero zero s)
    (hnodes : s.waiters side = nodes) :
    ∃ s', Channel.wakeEach side nodes s = some s' ∧ Emptied side s s' := by
  induction nodes generalizing s with
  | nil => exact ⟨s, rfl, hnodes, ⟨fun _ => id, rfl, rfl, rfl, rfl⟩, h⟩
  | cons g rest ih =>
    have hwaker : (s.futures g).waker = true :=
      (h.linked side g (by rw [hnodes]; exact List.mem_cons_self ..)).2.2.1
    have hcore : Core zero zero ((s.setWaiters side rest).wake g) :=
      h.wakeFront hnodes (Nat.zero_le _) fun _ _ => Nat.le_refl 0
    obtain ⟨s', hs', hemptied⟩ := ih hcore (setWaiters_self ..)
    refine ⟨s', ?_, hemptied.nil, (shrinks_pop hnodes _).trans hemptied.shrinks, hemptied.core⟩
    unfold Channel.wakeEach
    rw [if_pos hwaker]
    exact hs'

theorem Core.wakeUpAll (h : Core zero zero s) (side : Side) :
    ∃ s', s.wakeUpAll side = some s' ∧ Emptied side s s' := h.wakeEach rfl

/-- Both lists are emptied, one after the other. -/
theorem Core.wakeBoth (h : Core zero zero s) (first second : Side) (hne : first ≠ second) :
    ∃ s', ((s.wakeUpAll first).bind fun s => s.wakeUpAll second) = some s' ∧
      (∀ side, s'.waiters side = []) ∧ Shrinks s s' ∧ Core zero zero s' := by
  obtain ⟨s₁, hs₁, hemptied₁⟩ := h.wakeUpAll first
  obtain ⟨s₂, hs₂, hemptied₂⟩ := hemptied₁.core.wakeUpAll second
  refine ⟨s₂, ?_, fun side => ?_, hemptied₁.shrinks.trans hemptied₂.shrinks, hemptied₂.core⟩
  · rw [hs₁, Option.bind_some, hs₂]
  · by_cases hside : side = second
    · rw [hside]
      exact hemptied₂.nil
    · have hfirst : side = first := by
        cases side <;> cases first <;> cases second <;> simp_all
      rw [hfirst]
      exact hemptied₂.shrinks.nil first hemptied₁.nil

/-! ## The account -/

/-- The accounts of a side on which nobody waits do not count. -/
theorem Core.relax (h : Core spare extra s) {spare' extra' : Side → Nat}
    (hle : ∀ side, s.waiters side ≠ [] → spare' side ≤ spare side ∧ extra side ≤ extra' side) :
    Core spare' extra' s := by
  refine ⟨h.nodup, h.linked, fun side hne => ?_⟩
  obtain ⟨hspare, hextra⟩ := hle side hne
  exact ((h.served side hne).fewer (Nat.add_le_add_left hspare _)).mono (fun _ => id)
    (fun _ => id) hextra

/-- What is kept pays for what is to be handed on. -/
theorem Core.settle (h : Core (one side) (one side) s) : Core zero zero s := by
  refine ⟨h.nodup, h.linked, fun other hne => ?_⟩
  have hback := h.served other hne
  by_cases ho : other = side
  · simp only [one, if_pos ho] at hback
    exact Backed.succ_iff.mp hback
  · simpa only [one, if_neg ho, zero] using hback

/-- A message is put into the channel. -/
theorem Core.pushed (h : Core zero extra s) (item : α) (hfull : s.isFull = false)
    (hsend : extra .send ≤ 1) (hrecv : extra .recv = 0) :
    Core zero (one .recv) { s with channel := s.channel ++ [item] } := by
  refine ⟨h.nodup, h.linked, fun side hne => ?_⟩
  have hback := h.served side hne
  cases side with
  | recv =>
    rw [hrecv] at hback
    show Backed _ _ ((s.channel ++ [item]).length + 0) 1
    rw [List.length_append]
    exact Backed.succ_iff.mpr hback
  | send =>
    show Backed _ _ (avail { s with channel := s.channel ++ [item] } .send + 0) 0
    unfold avail isFull at *
    dsimp only at *
    split at hback
    · exact .of_le (Nat.le_refl 0) fun _ => id
    · rename_i x hcapacity
      simp only [hcapacity, decide_eq_false_iff_not] at hfull ⊢
      rw [List.length_append, List.length_singleton]
      refine Backed.succ_iff.mp ((hback.fewer ?_).mono (fun _ => id) (fun _ => id) hsend)
      unfold zero
      omega

/-- A message is taken out of the channel. -/
theorem Core.popped (h : Core zero zero s) {item : α} {rest : List α}
    (hchannel : s.channel = item :: rest) :
    Core (one .recv) (one .send) { s with channel := rest } := by
  refine ⟨h.nodup, h.linked, fun side hne => ?_⟩
  have hback := h.served side hne
  cases side with
  | recv =>
    show Backed _ _ (rest.length + 1) 0
    have hlen : s.avail .recv = rest.length + 1 := by
      unfold avail
      rw [hchannel, List.length_cons]
    rw [hlen] at hback
    exact hback
  | send =>
    show Backed _ _ (avail { s with channel := rest } .send + 0) 1
    refine (Backed.succ_iff.mpr hback).fewer ?_
    unfold avail zero
    dsimp only
    split
    · omega
    · rw [hchannel, List.length_cons]
      omega

theorem shrinks_rest (channel : List α) : Shrinks s { s with channel := channel } :=
  ⟨fun _ => id, rfl, rfl, rfl, rfl⟩

/-! ## The parts of a call -/

theorem Core.push (h : Core zero extra s) (item : α)
    (hsend : s.waiters .send ≠ [] → s.isClosed = true ∨ s.isFull = true → extra .send = 0)
    (hle : extra .send ≤ 1) (hrecv : extra .recv = 0) :
    ∃ result s', s.push item = some (result, s') ∧ Core zero zero s' ∧ Shrinks s s' := by
  have hstay : s.isClosed = true ∨ s.isFull = true → Core zero zero s := by
    refine fun hor => h.relax fun side hne => ⟨Nat.le_refl 0, ?_⟩
    cases side with
    | recv => exact Nat.le_of_eq hrecv
    | send => exact Nat.le_of_eq (hsend hne hor)
  unfold Channel.push
  split
  · rename_i hclosed
    exact ⟨_, _, rfl, hstay (.inl hclosed), ⟨fun _ => id, rfl, rfl, rfl, rfl⟩⟩
  · split
    · rename_i hfull
      exact ⟨_, _, rfl, hstay (.inr hfull), ⟨fun _ => id, rfl, rfl, rfl, rfl⟩⟩
    · rename_i hfull
      have hpushed := h.pushed item (Bool.eq_false_iff.mpr hfull) hle hrecv
      dsimp only
      split
      · rename_i hnil
        refine ⟨_, _, rfl, hpushed.relax fun side hne => ⟨Nat.le_refl 0, ?_⟩, shrinks_rest _⟩
        cases side with
        | recv => exact absurd hnil hne
        | send => exact Nat.le_refl 0
      · rename_i g rest hwaiters
        have hwaker : (s.futures g).waker = true :=
          (h.linked .recv g (by rw [hwaiters]; exact List.mem_cons_self ..)).2.2.1
        rw [if_pos hwaker]
        refine ⟨_, _, rfl, hpushed.wakeFront hwaiters (Nat.le_refl 1) fun other ho => ?_,
          (shrinks_rest (s.channel ++ [item])).trans
            (shrinks_pop (s := { s with channel := s.channel ++ [item] }) hwaiters _)⟩
        unfold one
        rw [if_neg ho]
        exact Nat.le_refl 0

theorem Core.wakeSender (h : Core spare (one .send) s) :
    Core spare zero s.wakeSender ∧ Shrinks s s.wakeSender := by
  unfold Channel.wakeSender
  split
  · rename_i hnil
    refine ⟨h.relax fun side hne => ⟨Nat.le_refl _, ?_⟩, ⟨fun _ => id, rfl, rfl, rfl, rfl⟩⟩
    cases side with
    | recv => exact Nat.le_refl 0
    | send => exact absurd hnil hne
  · rename_i g rest hwaiters
    have hwaker : (s.futures g).waker = true :=
      (h.linked .send g (by rw [hwaiters]; exact List.mem_cons_self ..)).2.2.1
    rw [if_pos hwaker]
    refine ⟨h.wakeFront hwaiters (Nat.le_refl 1) fun other ho => ?_, shrinks_pop hwaiters _⟩
    unfold one
    rw [if_neg ho]
    exact Nat.le_refl 0

theorem shrinks_remove (s : Channel α) (side : Side) (f : Nat) (stage : Stage) :
    Shrinks s (s.remove side f stage) := by
  refine ⟨fun other ho => ?_, rfl, rfl, rfl, rfl⟩
  by_cases hside : other = side
  · subst hside
    refine (setWaiters_self ..).trans ?_
    rw [ho]
    rfl
  · exact (setWaiters_of_ne hside).trans ho

/-- A future leaves its list and the ranks of the woken. -/
theorem Core.leave (h : Core spare extra s) {spare' extra' : Side → Nat} {stage : Stage}
    (hrole : (s.futures f).role.side = side)
    (hside : s.waiters side ≠ [] → Backed (fun _ => False) (fun g => g ≠ f ∧ s.Woken side g)
      (s.avail side + spare' side) (extra' side))
    (hother : ∀ other, other ≠ side → spare' other = spare other ∧ extra' other = extra other) :
    Core spare' extra' (s.remove side f stage) := by
  have hne : ∀ g, g ≠ f → (s.remove side f stage).futures g = s.futures g :=
    fun g hg => setFuture_of_ne hg
  have hself : (s.remove side f stage).waiters side = (s.waiters side).erase f :=
    setWaiters_self ..
  have hlists : ∀ other, other ≠ side → (s.remove side f stage).waiters other = s.waiters other :=
    fun other ho => setWaiters_of_ne ho
  have hsub : ∀ other, ∀ g ∈ (s.remove side f stage).waiters other,
      g ∈ s.waiters other ∧ g ≠ f := by
    intro other g hg
    by_cases ho : other = side
    · subst ho
      rw [hself] at hg
      obtain ⟨hgf, hmem⟩ := (h.nodup other).mem_erase_iff.mp hg
      exact ⟨hmem, hgf⟩
    · rw [hlists other ho] at hg
      refine ⟨hg, ?_⟩
      rintro rfl
      exact ho ((h.linked other g hg).1.symm.trans hrole)
  have hwoken : ∀ other g, g ≠ f → s.Woken other g → (s.remove side f stage).Woken other g := by
    intro other g hg hw
    unfold Woken
    rw [hne g hg]
    exact hw
  refine ⟨fun other => ?_, fun other g hg => ?_, fun other hnil => ?_⟩
  · by_cases ho : other = side
    · subst ho
      rw [hself]
      exact (h.nodup other).erase f
    · rw [hlists other ho]
      exact h.nodup other
  · obtain ⟨hmem, hgf⟩ := hsub other g hg
    rw [hne g hgf]
    exact h.linked other g hmem
  · have hnil' : s.waiters other ≠ [] :=
      fun hn => hnil ((shrinks_remove s side f stage).nil other hn)
    by_cases ho : other = side
    · subst ho
      exact (hside hnil').mono (fun _ => id) (fun g hg => hwoken other g hg.1 hg.2) (Nat.le_refl _)
    · rw [(hother other ho).1, (hother other ho).2]
      refine (h.served other hnil').mono (fun _ => id) (fun g hw => hwoken other g ?_ hw)
        (Nat.le_refl _)
      rintro rfl
      exact ho (hw.1.symm.trans hrole)

/-- A polled future leaves: if it was woken, its place is to be made up for. -/
theorem Core.finish (h : Core spare zero s) {stage : Stage}
    (hrole : (s.futures f).role.side = side) :
    Core spare (one side) (s.remove side f stage) := by
  refine h.leave hrole (fun hnil => ?_) fun other ho => ⟨rfl, ?_⟩
  · refine ((h.served side hnil).spend f (fun _ => id) fun g hg hw => ⟨hg, hw⟩).mono (fun _ => id)
      (fun _ => id) ?_
    unfold one
    rw [if_pos rfl]
    exact Nat.le_refl 1
  · unfold one
    rw [if_neg ho]
    rfl

/-- A future waits for what is not there. -/
theorem Core.register (h : Core zero zero s) (hrole : (s.futures f).role.side = side)
    (havail : s.avail side = 0) : Core zero zero (s.register side f) := by
  have hself : (s.register side f).futures f =
      { s.futures f with stage := .pending, waker := true, notified := false } := by
    unfold Channel.register
    dsimp only
    split
    · exact setFuture_self ..
    · exact setFuture_self ..
  have hne : ∀ g, g ≠ f → (s.register side f).futures g = s.futures g := by
    intro g hg
    unfold Channel.register
    dsimp only
    split
    · exact setFuture_of_ne hg
    · exact setFuture_of_ne hg
  have hlists : ∀ other, other ≠ side → (s.register side f).waiters other = s.waiters other := by
    intro other ho
    unfold Channel.register
    dsimp only
    split
    · rfl
    · exact setWaiters_of_ne ho
  have hlist : ((s.register side f).waiters side).Nodup ∧
      ∀ g ∈ (s.register side f).waiters side, g = f ∨ g ∈ s.waiters side := by
    unfold Channel.register
    dsimp only
    split
    · exact ⟨h.nodup side, fun g hg => .inr hg⟩
    · rename_i hnot
      rw [setWaiters_self]
      refine ⟨List.nodup_append.mpr ⟨h.nodup side, List.nodup_singleton f, ?_⟩, fun g hg => ?_⟩
      · intro a ha b hb
        rw [List.mem_singleton.mp hb]
        rintro rfl
        exact hnot ha
      · rw [List.mem_append, List.mem_singleton] at hg
        exact hg.symm
  have havail' : ∀ other, (s.register side f).avail other = s.avail other := by
    intro other
    unfold Channel.register
    dsimp only
    split
    · cases other <;> rfl
    · cases other <;> rfl
  refine ⟨fun other => ?_, fun other g hg => ?_, fun other hnil => ?_⟩
  · by_cases ho : other = side
    · rw [ho]
      exact hlist.1
    · rw [hlists other ho]
      exact h.nodup other
  · by_cases hgf : g = f
    · subst hgf
      rw [hself]
      refine ⟨?_, rfl, rfl, rfl⟩
      by_cases ho : other = side
      · rw [ho]
        exact hrole
      · rw [hlists other ho] at hg
        exact (h.linked other g hg).1
    · rw [hne g hgf]
      by_cases ho : other = side
      · subst ho
        exact h.linked other g ((hlist.2 g hg).resolve_left hgf)
      · rw [hlists other ho] at hg
        exact h.linked other g hg
  · rw [havail']
    by_cases ho : other = side
    · rw [ho, havail]
      exact .of_le (Nat.le_refl 0) fun _ => id
    · rw [hlists other ho] at hnil
      refine (h.served other hnil).mono (fun _ => id) (fun g hw => ?_) (Nat.le_refl _)
      unfold Woken
      rw [hne g]
      · exact hw
      · rintro rfl
        exact ho (hw.1.symm.trans hrole)

/-! ## The calls -/

theorem avail_send_of_full (hfull : s.isFull = true) :
    s.avail .send = 0 ∧ s.capacity ≠ .unbounded := by
  unfold isFull at hfull
  unfold avail
  split at hfull
  · cases hfull
  · rename_i x hcapacity
    have hle : x ≤ s.channel.length := of_decide_eq_true hfull
    rw [hcapacity]
    exact ⟨Nat.sub_eq_zero_of_le hle, ChannelCapacity.noConfusion⟩

theorem isFull_of_avail (havail : s.avail .send = 0) (hcapacity : s.capacity ≠ .unbounded) :
    s.isFull = true := by
  unfold avail at havail
  unfold isFull
  cases hc : s.capacity with
  | unbounded => exact absurd hc hcapacity
  | bounded x =>
    rw [hc] at havail
    exact decide_eq_true (Nat.sub_eq_zero_iff_le.mp havail)

theorem pos_of_isOpen (h : s.isOpen = true) : 0 < s.txCount := by
  unfold isOpen at h
  split at h
  · exact of_decide_eq_true (Bool.and_eq_true_iff.mp h).1
  · exact of_decide_eq_true h

/-- Waking a sender changes the role of nobody. -/
theorem role_wakeSender (s : Channel α) (f : Nat) :
    (s.wakeSender.futures f).role = (s.futures f).role := by
  have hwake : ∀ (c : Channel α) g, ((c.wake g).futures f).role = (c.futures f).role := by
    intro c g
    by_cases hf : f = g
    · subst hf
      unfold wake
      rw [setFuture_self]
    · unfold wake
      rw [setFuture_of_ne hf]
  unfold Channel.wakeSender
  split
  · rfl
  · split
    · exact hwake _ _
    · rfl

/-- A message is taken out and a sender gets to know. -/
theorem Core.received (h : Core zero zero s) {item : α} {rest : List α}
    (hchannel : s.channel = item :: rest) :
    Core (one .recv) zero (Channel.wakeSender { s with channel := rest }) ∧
      Shrinks s (Channel.wakeSender { s with channel := rest }) := by
  obtain ⟨hcore, hshrinks⟩ := (h.popped hchannel).wakeSender
  exact ⟨hcore, (shrinks_rest rest).trans hshrinks⟩

theorem Inv.recvOne (h : s.Inv) : s.recvOne.2.Inv := by
  unfold Channel.recvOne
  split
  · rename_i item rest hchannel
    obtain ⟨hcore, hshrinks⟩ := h.core.received hchannel
    exact ⟨hcore.relax fun _ _ => ⟨Nat.zero_le _, Nat.le_refl 0⟩, h.ends.shrinks hshrinks⟩
  · split
    · exact h
    · exact h

theorem Inv.tryRecv (h : s.Inv) : s.tryRecv.2.Inv := by
  have hrecv := h.recvOne
  unfold Channel.tryRecv
  split
  · rename_i s' heq
    rw [heq] at hrecv
    exact hrecv
  · rename_i s' heq
    rw [heq] at hrecv
    exact hrecv
  · rename_i s' heq
    rw [heq] at hrecv
    exact hrecv

/-- The lists are not closed for the side on which a future begins to wait. -/
theorem Ends.register (h : s.Ends) {side : Side}
    (hside : match side with
      | .recv => 0 < s.txCount
      | .send => s.isClosed = false ∧ s.capacity ≠ .unbounded) : (s.register side f).Ends := by
  have hlists : ∀ other, other ≠ side → (s.register side f).waiters other = s.waiters other := by
    intro other ho
    unfold Channel.register
    dsimp only
    split
    · rfl
    · exact setWaiters_of_ne ho
  have hrest : (s.register side f).txCount = s.txCount ∧ (s.register side f).rxCount = s.rxCount ∧
      (s.register side f).isClosed = s.isClosed ∧ (s.register side f).capacity = s.capacity := by
    unfold Channel.register
    dsimp only
    split
    · exact ⟨rfl, rfl, rfl, rfl⟩
    · exact ⟨rfl, rfl, rfl, rfl⟩
  obtain ⟨htx, hrx, hclosed, hcapacity⟩ := hrest
  refine ⟨fun hzero => ?_, fun hzero => ?_, fun hor => ?_⟩
  · rw [htx] at hzero
    cases side with
    | recv => exact absurd hzero (Nat.ne_of_gt hside)
    | send => exact (hlists .recv Side.noConfusion).trans (h.senders hzero)
  · rw [hclosed]
    exact h.receivers (hrx ▸ hzero)
  · rw [hclosed, hcapacity] at hor
    cases side with
    | recv => exact (hlists .send Side.noConfusion).trans (h.room hor)
    | send =>
      rw [hside.1] at hor
      exact absurd (hor.resolve_left Bool.false_ne_true) hside.2

theorem Inv.pollRecv (h : s.Inv) (after : Stage) (hrole : (s.futures f).role.side = .recv) :
    (s.pollRecv f after).2.Inv := by
  unfold Channel.pollRecv Channel.recvOne
  cases hchannel : s.channel with
  | nil =>
    have havail : s.avail .recv = 0 := by
      unfold avail
      rw [hchannel]
      rfl
    dsimp only
    by_cases hopen : s.isOpen = true
    · rw [if_pos hopen]
      exact ⟨h.core.register hrole havail, h.ends.register (pos_of_isOpen hopen)⟩
    · rw [if_neg hopen]
      refine ⟨h.core.leave hrole (fun _ => ?_) fun _ _ => ⟨rfl, rfl⟩,
        h.ends.shrinks (shrinks_remove ..)⟩
      rw [havail]
      exact .of_le (Nat.le_refl 0) fun _ => id
  | cons item rest =>
    obtain ⟨hcore, hshrinks⟩ := h.core.received hchannel
    have hrole' : ((Channel.wakeSender { s with channel := rest }).futures f).role.side = .recv := by
      rw [role_wakeSender]
      exact hrole
    exact ⟨(hcore.finish hrole').settle,
      h.ends.shrinks (hshrinks.trans (shrinks_remove ..))⟩

theorem Inv.pollSend (h : s.Inv) (item : α) (hrole : (s.futures f).role.side = .send) :
    ∃ result s', s.pollSend f item = some (result, s') ∧ s'.Inv := by
  unfold Channel.pollSend
  by_cases hready : s.waitForRoom = true
  · rw [if_pos hready]
    have hfinish : Core zero (one .send) (s.remove .send f .done) := h.core.finish hrole
    -- A future that is ready has found room, or the channel closed and nobody waiting.
    have hroom : (s.remove .send f .done).waiters .send ≠ [] →
        (s.remove .send f .done).isClosed = true ∨ (s.remove .send f .done).isFull = true →
          one .send .send = 0 := by
      intro hne hor
      refine absurd ((shrinks_remove ..).nil .send (h.ends.room (.inl ?_))) hne
      refine hor.elim id fun hfull => ?_
      have hfull' : s.isFull = true := hfull
      simpa [waitForRoom, hfull'] using hready
    obtain ⟨result, s', hpush, hcore, hshrinks⟩ := hfinish.push item hroom (Nat.le_refl 1) rfl
    rw [hpush]
    exact ⟨.ready (.sent result), s', rfl, hcore,
      h.ends.shrinks ((shrinks_remove ..).trans hshrinks)⟩
  · rw [if_neg hready]
    obtain ⟨hclosed, hfull⟩ : s.isClosed = false ∧ s.isFull = true := by
      simpa [waitForRoom] using hready
    obtain ⟨havail, hcapacity⟩ := avail_send_of_full hfull
    exact ⟨.pending, _, rfl, h.core.register hrole havail,
      h.ends.register ⟨hclosed, hcapacity⟩⟩

theorem Inv.poll (h : s.Inv) (f : Nat) : ∃ result s', s.poll f = some (result, s') ∧ s'.Inv := by
  unfold Channel.poll
  split
  · rename_i item hrole
    exact h.pollSend item (by rw [hrole]; rfl)
  · rename_i hrole
    exact ⟨_, _, rfl, h.pollRecv .done (by rw [hrole]; rfl)⟩
  · rename_i hrole
    exact ⟨_, _, rfl, h.pollRecv .idle (by rw [hrole]; rfl)⟩

theorem Inv.dropFuture (h : s.Inv) (hcare : s.Careful (.dropFuture f)) :
    (s.dropFuture f).Inv := by
  refine ⟨h.core.leave rfl (fun hne => ?_) fun _ _ => ⟨rfl, rfl⟩,
    h.ends.shrinks (shrinks_remove ..)⟩
  by_cases hw : s.Woken (s.futures f).role.side f
  · exact hcare _ hw hne
  · refine (h.core.served _ hne).mono (fun _ => id) (fun g hg => ⟨?_, hg⟩) (Nat.le_refl _)
    rintro rfl
    exact hw hg

theorem Inv.create (h : s.Inv) (role : Role α) (hstage : (s.futures f).stage = .fresh) :
    (s.setFuture f { role := role, stage := .idle, waker := false, notified := false }).Inv := by
  have hne : ∀ {side : Side} {g : Nat}, g ∈ s.waiters side ∨ s.Woken side g → g ≠ f := by
    rintro side g hg rfl
    have hpending : (s.futures g).stage = .pending :=
      hg.elim (fun hmem => (h.core.linked side g hmem).2.1) fun hw => hw.2.1
    rw [hstage] at hpending
    cases hpending
  refine ⟨⟨h.core.nodup, fun side g hg => ?_, fun side hnil => ?_⟩, h.ends.shrinks
    ⟨fun _ => id, rfl, rfl, rfl, rfl⟩⟩
  · rw [setFuture_of_ne (hne (.inl hg))]
    exact h.core.linked side g hg
  · refine (h.core.served side hnil).mono (fun _ => id) (fun g hg => ?_) (Nat.le_refl _)
    unfold Woken
    rw [setFuture_of_ne (hne (.inr hg))]
    exact hg

/-- Everybody is woken: there is nothing to wait for any more. -/
theorem Inv.of_nil (hcore : Core zero zero s) (hnil : ∀ side, s.waiters side = [])
    (hreceivers : s.rxCount = 0 → s.isClosed = true) : s.Inv :=
  ⟨hcore, fun _ => hnil .recv, hreceivers, fun _ => hnil .send⟩

theorem Inv.dropSender (h : s.Inv) : ∃ s', s.dropSender = some s' ∧ s'.Inv := by
  have hcore : Core zero zero { s with txCount := s.txCount - 1 } :=
    ⟨h.core.nodup, h.core.linked, h.core.served⟩
  unfold Channel.dropSender
  dsimp only
  split
  · obtain ⟨s', hs', hnil, hshrinks, hcore'⟩ := hcore.wakeBoth .send .recv Side.noConfusion
    refine ⟨s', hs', .of_nil hcore' hnil fun hr => ?_⟩
    rw [hshrinks.isClosed]
    exact h.ends.receivers (hshrinks.rxCount ▸ hr)
  · rename_i hpos
    exact ⟨_, rfl, hcore, fun ht => absurd ht hpos, h.ends.receivers, h.ends.room⟩

theorem Core.close (h : Core zero zero s) : ∃ s', s.close = some s' ∧ s'.Inv := by
  have hcore : Core zero zero { s with isClosed := true } := ⟨h.nodup, h.linked, h.served⟩
  obtain ⟨s', hs', hnil, hshrinks, hcore'⟩ := hcore.wakeBoth .recv .send Side.noConfusion
  exact ⟨s', hs', .of_nil hcore' hnil fun _ => hshrinks.isClosed⟩

theorem Inv.dropReceiver (h : s.Inv) : ∃ s', s.dropReceiver = some s' ∧ s'.Inv := by
  have hcore : Core zero zero { s with rxCount := s.rxCount - 1 } :=
    ⟨h.core.nodup, h.core.linked, h.core.served⟩
  unfold Channel.dropReceiver
  dsimp only
  split
  · split
    · exact hcore.close
    · rename_i hpos
      exact ⟨_, rfl, hcore, h.ends.senders, fun hr => absurd hr hpos, h.ends.room⟩
  · exact hcore.close

/-! ## Runs -/

/-- A call that is possible does not panic, and a careful one keeps the account. -/
theorem Inv.step {e : Event α} (h : s.Inv) (henabled : s.enabled e = true) (hcare : s.Careful e) :
    ∃ s', s.step e = some s' ∧ s'.Inv := by
  cases e with
  | trySend item =>
    obtain ⟨result, s', hpush, hcore, hshrinks⟩ :=
      h.core.push item (fun _ _ => rfl) (Nat.zero_le 1) rfl
    refine ⟨s', ?_, hcore, h.ends.shrinks hshrinks⟩
    show Option.map _ (s.push item) = some s'
    rw [hpush]
    rfl
  | tryRecv => exact ⟨_, rfl, h.tryRecv⟩
  | create f role =>
    have hstage := (Bool.and_eq_true_iff.mp henabled).1
    exact ⟨_, rfl, h.create role (of_decide_eq_true hstage)⟩
  | poll f =>
    obtain ⟨result, s', hpoll, hinv⟩ := h.poll f
    refine ⟨s', ?_, hinv⟩
    show Option.map _ (s.poll f) = some s'
    rw [hpoll]
    rfl
  | dropFuture f => exact ⟨_, rfl, h.dropFuture hcare⟩
  | cloneSender =>
    exact ⟨_, rfl, ⟨h.core.nodup, h.core.linked, h.core.served⟩,
      fun ht => absurd ht (Nat.succ_ne_zero _), h.ends.receivers, h.ends.room⟩
  | dropSender => exact h.dropSender
  | cloneReceiver =>
    exact ⟨_, rfl, ⟨h.core.nodup, h.core.linked, h.core.served⟩, h.ends.senders,
      fun hr => absurd hr (Nat.succ_ne_zero _), h.ends.room⟩
  | dropReceiver => exact h.dropReceiver

theorem Inv.of_run {flavor : Flavor} {capacity : ChannelCapacity}
    (h : Run ChannelStep Careful (fun s => s = (.new flavor capacity : Channel α)) s) : s.Inv := by
  refine h.invariant ?_ fun s e s' hinv hcare hstep => ?_
  · rintro s rfl
    exact .new flavor capacity
  · obtain ⟨s'', hs'', hinv'⟩ := hinv.step hstep.1 hcare
    rw [hstep.2] at hs''
    cases hs''
    exact hinv'

/-- Whoever was woken has been polled or dropped since. -/
def Quiescent (s : Channel α) : Prop :=
  ∀ f, (s.futures f).stage = .pending → (s.futures f).notified = false

theorem Inv.avail_eq_zero (h : s.Inv) (hquiet : s.Quiescent) (hf : f ∈ s.waiters side) :
    s.avail side = 0 := by
  have hle := (h.core.served side (List.ne_nil_of_mem hf)).le_of_no_credit
    fun g hw => by
      have hn := hquiet g hw.2.1
      rw [hw.2.2] at hn
      cases hn
  exact Nat.le_zero.mp hle

end Channel

/-- In a run in which every wake-up finds a user, nobody waits for what is there or cannot
come any more. -/
theorem local_channel_no_lost_wakeup {flavor : Flavor} {capacity : ChannelCapacity}
    {s : Channel α} (h : Run ChannelStep Channel.Careful (fun s => s = .new flavor capacity) s)
    (hquiet : s.Quiescent) :
    (∀ f ∈ s.waiters .recv, s.channel = [] ∧ s.txCount ≠ 0) ∧
      ∀ f ∈ s.waiters .send, s.isFull = true ∧ s.rxCount ≠ 0 := by
  have hinv := Channel.Inv.of_run h
  refine ⟨fun f hf => ⟨?_, fun hzero => ?_⟩, fun f hf => ⟨?_, fun hzero => ?_⟩⟩
  · exact List.eq_nil_of_length_eq_zero (hinv.avail_eq_zero hquiet hf)
  · rw [hinv.ends.senders hzero] at hf
    cases hf
  · refine Channel.isFull_of_avail (hinv.avail_eq_zero hquiet hf) fun hcapacity => ?_
    rw [hinv.ends.room (.inr hcapacity)] at hf
    cases hf
  · rw [hinv.ends.room (.inl (hinv.ends.receivers hzero))] at hf
    cases hf

namespace Channel

/-- A test for careful calls: no woken future is dropped. -/
def carefulTest (s : Channel Nat) : Event Nat → Bool
  | .dropFuture f => !(s.futures f).notified
  | _ => true

theorem careful_of_test (s : Channel Nat) (e : Event Nat) (h : carefulTest s e = true) :
    s.Careful e := by
  cases e with
  | dropFuture f =>
    intro side hw
    simp [carefulTest, hw.2.2] at h
  | trySend | tryRecv | create | poll | cloneSender | dropSender | cloneReceiver
  | dropReceiver => trivial

/-- One call of a run that is replayed. -/
def attempt (s : Channel Nat) (e : Event Nat) : Option (Channel Nat) :=
  if s.enabled e then s.step e else none

theorem step_of_attempt (s : Channel Nat) (e : Event Nat) (s' : Channel Nat)
    (h : s.attempt e = some s') : ChannelStep s e s' := by
  unfold attempt at h
  split at h
  · rename_i henabled
    exact ⟨henabled, h⟩
  · cases h

end Channel

/-- Two receives wait, and a message is put into the channel. -/
def twoReceives : List (Event Nat) :=
  [.create 0 .recv, .poll 0, .create 1 .recv, .poll 1, .trySend 7]

def newNat : Channel Nat := .new .mpmc (.bounded 1)

def receivedChannel : Channel Nat :=
  (replay Channel.attempt Channel.carefulTest newNat (twoReceives ++ [.poll 0])).get
    (by decide +kernel)

theorem local_channel_second_waits :
    Run ChannelStep Channel.Careful (fun s => s = newNat) receivedChannel ∧
      receivedChannel.Quiescent ∧ 1 ∈ receivedChannel.waiters .recv ∧
      receivedChannel.channel = [] ∧ receivedChannel.txCount ≠ 0 := by
  have hreplay : replay Channel.attempt Channel.carefulTest newNat (twoReceives ++ [.poll 0]) =
      some receivedChannel := (Option.some_get _).symm
  have hstart : Run ChannelStep Channel.Careful (fun s => s = newNat) newNat := Run.start rfl
  have hrun := hstart.replay Channel.step_of_attempt Channel.careful_of_test hreplay
  have hquiet : receivedChannel.Quiescent := by
    intro f
    rcases f with _ | _ | f
    · decide +kernel
    · decide +kernel
    · exact fun _ => rfl
  have hmem : 1 ∈ receivedChannel.waiters .recv := by decide +kernel
  exact ⟨hrun, hquiet, hmem, (local_channel_no_lost_wakeup hrun hquiet).1 1 hmem⟩

/-- The receive that the message has woken is dropped. -/
def droppedChannel : Channel Nat :=
  (replay Channel.attempt (fun _ _ => true) newNat (twoReceives ++ [.dropFuture 0])).get
    (by decide +kernel)

theorem local_channel_loses_wakeup :
    Run ChannelStep Always (fun s => s = newNat) droppedChannel ∧ droppedChannel.Quiescent ∧
      1 ∈ droppedChannel.waiters .recv ∧ droppedChannel.channel = [7] := by
  have hreplay : replay Channel.attempt (fun _ _ => true) newNat
      (twoReceives ++ [.dropFuture 0]) = some droppedChannel := (Option.some_get _).symm
  have hstart : Run ChannelStep Always (fun s => s = newNat) newNat := Run.start rfl
  refine ⟨hstart.replay Channel.step_of_attempt (fun _ _ _ => trivial) hreplay, fun f => ?_,
    by decide +kernel, by decide +kernel⟩
  rcases f with _ | _ | f
  · decide +kernel
  · decide +kernel
  · exact fun _ => rfl

end Veloq.Local
