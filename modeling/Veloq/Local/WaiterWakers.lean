import Veloq.Local.ChannelRuns
import Veloq.Local.ChannelFifo
set_option autoImplicit false

/-!
# Local: the wakers of linked waiters

A node is linked only after its slot was filled, and whoever takes the waker takes the node
out of its list too.  So the `expect`s on the wake and close paths find a waker, and a node
that was popped is not woken again before its future has been polled and linked it anew.

`split` may be called on a channel that is in use: it sets the counts back, so here a call
need not wait for a handle that the counts know of.
-/

namespace Veloq.Local

open Veloq.Foundation
open Spsc (ChannelCapacity)

variable {α : Type}

/-- The calls on a channel, and `State::split` on one that was split before. -/
inductive Call (α : Type) where
  | event (e : Event α)
  | split
  deriving DecidableEq, Repr

namespace Channel

variable (s : Channel α)

/-- `State::split`: MPMC also reopens the channel. -/
def split : Channel α :=
  match s.flavor with
  | .mpmc => { s with txCount := 1, rxCount := 1, isClosed := false }
  | .mpsc => { s with txCount := 1 }

/-- The future is in a state for the call, and the flavor has it. -/
def callable : Call α → Bool
  | .event (.create f _) => decide ((s.futures f).stage = .fresh)
  | .event (.poll f) => decide ((s.futures f).stage = .idle ∨ (s.futures f).stage = .pending)
  | .event (.dropFuture f) =>
      decide ((s.futures f).stage = .idle ∨ (s.futures f).stage = .pending ∨
        (s.futures f).stage = .done)
  | .event .cloneReceiver => decide (s.flavor = .mpmc)
  | _ => true

/-- The state after a call, if no `expect` fires.  After a second `split` a count can be
zero when a handle is dropped; then it wraps. -/
def perform : Call α → Option (Channel α)
  | .split => some s.split
  | .event .dropSender =>
      if s.txCount = 0 then some { s with txCount := 2 ^ 64 - 1 } else s.dropSender
  | .event .dropReceiver =>
      if s.flavor = .mpmc ∧ s.rxCount = 0 then some { s with rxCount := 2 ^ 64 - 1 }
      else s.dropReceiver
  | .event e => s.step e

/-- The node of `f` is in a list. -/
def IsLinked (f : Nat) : Prop := ∃ side, f ∈ s.waiters side

instance (f : Nat) : Decidable (s.IsLinked f) :=
  decidable_of_iff (f ∈ s.waiters .send ∨ f ∈ s.waiters .recv) (by
    constructor
    · rintro (h | h)
      · exact ⟨.send, h⟩
      · exact ⟨.recv, h⟩
    · rintro ⟨side, h⟩
      cases side with
      | send => exact .inl h
      | recv => exact .inr h)

/-- A waker is taken from the slot of a node only to be woken. -/
def Taken (s s' : Channel α) (f : Nat) : Prop :=
  (s.futures f).waker = true ∧ (s'.futures f).waker = false

instance (s s' : Channel α) (f : Nat) : Decidable (Taken s s' f) :=
  inferInstanceAs (Decidable (_ ∧ _))

/-! ## Nodes leave -/

section Leaving

variable {s s' : Channel α} {f g : Nat} {side : Side}

/-- Some nodes leave their lists, and those whose waker was taken are among them. -/
structure Leaves (s s' : Channel α) : Prop where
  sublist : ∀ side, (s'.waiters side).Sublist (s.waiters side)
  same : ∀ side, ∀ f ∈ s'.waiters side, s'.futures f = s.futures f
  kept : ∀ f, (s'.futures f).waker = true → (s.futures f).waker = true
  taken : ∀ f, Taken s s' f → s.IsLinked f ∧ ¬ s'.IsLinked f
  role : ∀ f, (s'.futures f).role = (s.futures f).role
  fresh : ∀ f, (s'.futures f).stage = .fresh → (s.futures f).stage = .fresh
  flavor : s'.flavor = s.flavor

theorem Leaves.of_eq (hwaiters : s'.waiters = s.waiters) (hfutures : s'.futures = s.futures)
    (hflavor : s'.flavor = s.flavor) : Leaves s s' := by
  refine ⟨fun side => ?_, fun _ f _ => congrFun hfutures f, fun f h => ?_, ?_, fun f => ?_,
    fun f h => ?_, hflavor⟩
  · rw [hwaiters]
  · rwa [hfutures] at h
  · rintro f ⟨hbefore, hafter⟩
    rw [hfutures, hbefore] at hafter
    cases hafter
  · rw [hfutures]
  · rwa [hfutures] at h

theorem Leaves.refl (s : Channel α) : Leaves s s := .of_eq rfl rfl rfl

theorem Leaves.unlinked (h : Leaves s s') (hf : ¬ s.IsLinked f) : ¬ s'.IsLinked f :=
  fun ⟨side, hmem⟩ => hf ⟨side, (h.sublist side).subset hmem⟩

theorem Leaves.trans {s'' : Channel α} (h : Leaves s s') (h' : Leaves s' s'') : Leaves s s'' := by
  refine ⟨fun side => (h'.sublist side).trans (h.sublist side), fun side f hf => ?_,
    fun f hf => h.kept f (h'.kept f hf), ?_, fun f => (h'.role f).trans (h.role f),
    fun f hf => h.fresh f (h'.fresh f hf), h'.flavor.trans h.flavor⟩
  · exact (h'.same side f hf).trans (h.same side f ((h'.sublist side).subset hf))
  · rintro f ⟨hbefore, hafter⟩
    cases hmid : (s'.futures f).waker with
    | false =>
      obtain ⟨hlinked, hleft⟩ := h.taken f ⟨hbefore, hmid⟩
      exact ⟨hlinked, h'.unlinked hleft⟩
    | true =>
      obtain ⟨⟨side, hmem⟩, hleft⟩ := h'.taken f ⟨hmid, hafter⟩
      exact ⟨⟨side, (h.sublist side).subset hmem⟩, hleft⟩

theorem Linked.leaves (h : s.Linked) (hleaves : Leaves s s') : s'.Linked := by
  refine ⟨fun side => (hleaves.sublist side).nodup (h.nodup side), fun side f hmem => ?_⟩
  rw [hleaves.same side f hmem]
  exact h.node side f ((hleaves.sublist side).subset hmem)

/-- What is true of the future that changed and of its old state is true of all. -/
theorem forall_setFuture {p : Waiter α → Waiter α → Prop} {t : Waiter α} {nodes : List Nat}
    (hself : p t (s.futures f)) (hrefl : ∀ u, p u u) (g : Nat) :
    p (((s.setWaiters side nodes).setFuture f t).futures g) (s.futures g) := by
  rcases Classical.em (g = f) with rfl | hne
  · rw [setFuture_self]
    exact hself
  · rw [setFuture_of_ne hne]
    exact hrefl _

/-- A linked waiter has a waker. -/
theorem Linked.waker (h : s.Linked) {rest : List Nat} (hwaiters : s.waiters side = g :: rest) :
    (s.futures g).waker = true :=
  (h.node side g (by rw [hwaiters]; exact List.mem_cons_self ..)).2.2

/-- The first node is popped and its waker woken. -/
theorem Linked.leaves_front (h : s.Linked) {rest : List Nat}
    (hwaiters : s.waiters side = g :: rest) : Leaves s ((s.setWaiters side rest).wake g) := by
  have hfewer := h.wakeFront hwaiters
  have hmem : g ∈ s.waiters side := by
    rw [hwaiters]
    exact List.mem_cons_self ..
  have hother : ∀ f, f ≠ g → ((s.setWaiters side rest).wake g).futures f = s.futures f :=
    fun f hne => setFuture_of_ne hne
  have hself : (((s.setWaiters side rest).wake g).futures g).waker = false :=
    congrArg Waiter.waker (setFuture_self ..)
  refine ⟨hfewer.sublist, hfewer.same, fun f hf => ?_, ?_,
    forall_setFuture (p := fun t u => t.role = u.role) rfl fun _ => rfl,
    forall_setFuture (p := fun t u => t.stage = .fresh → u.stage = .fresh) id fun _ => id, rfl⟩
  · rcases Classical.em (f = g) with rfl | hne
    · rw [hself] at hf
      cases hf
    · rwa [hother f hne] at hf
  · rintro f ⟨hbefore, hafter⟩
    obtain rfl : f = g := by
      refine Classical.byContradiction fun hne => ?_
      rw [hother f hne, hbefore] at hafter
      cases hafter
    refine ⟨⟨side, hmem⟩, ?_⟩
    rintro ⟨other, hlinked⟩
    have hwaker := ((h.fewer hfewer).node other f hlinked).2.2
    rw [hself] at hwaker
    cases hwaker

/-- A node is taken out of its list, with its waker. -/
theorem Linked.leaves_remove (h : s.Linked) (hside : (s.futures f).role.side = side)
    {stage : Stage} (hstage : stage ≠ .fresh) : Leaves s (s.remove side f stage) := by
  have hfewer := h.remove hside stage
  have hwaker : ∀ g, ((s.remove side f stage).futures g).waker = (s.futures g).waker :=
    forall_setFuture (p := fun t u => t.waker = u.waker) rfl fun _ => rfl
  refine ⟨hfewer.sublist, hfewer.same, fun g hg => hwaker g ▸ hg, ?_,
    forall_setFuture (p := fun t u => t.role = u.role) rfl fun _ => rfl,
    forall_setFuture (p := fun t u => t.stage = .fresh → u.stage = .fresh)
      (fun hfresh => absurd hfresh hstage) fun _ => id, rfl⟩
  rintro g ⟨hbefore, hafter⟩
  rw [hwaker, hbefore] at hafter
  cases hafter

/-- `wake_up_all` meets a waker in every node. -/
theorem Linked.leaves_each {nodes : List Nat} (h : s.Linked) (hwaiters : s.waiters side = nodes) :
    ∃ s', Channel.wakeEach side nodes s = some s' ∧ Leaves s s' := by
  induction nodes generalizing s with
  | nil => exact ⟨s, rfl, .refl s⟩
  | cons g rest ih =>
    have hfront := h.leaves_front hwaiters
    obtain ⟨s', hs', hrest⟩ := ih (h.leaves hfront) (setWaiters_self ..)
    refine ⟨s', ?_, hfront.trans hrest⟩
    unfold Channel.wakeEach
    rw [if_pos (h.waker hwaiters)]
    exact hs'

theorem Linked.leaves_both (h : s.Linked) (first second : Side) :
    ∃ s', ((s.wakeUpAll first).bind fun s => s.wakeUpAll second) = some s' ∧ Leaves s s' := by
  obtain ⟨s₁, h₁, hfirst⟩ := h.leaves_each (rfl : s.waiters first = _)
  obtain ⟨s₂, h₂, hsecond⟩ := (h.leaves hfirst).leaves_each (rfl : s₁.waiters second = _)
  refine ⟨s₂, ?_, hfirst.trans hsecond⟩
  unfold Channel.wakeUpAll
  rw [h₁]
  exact h₂

theorem Linked.leaves_push (h : s.Linked) (item : α) :
    ∃ result s', s.push item = some (result, s') ∧ Leaves s s' := by
  unfold Channel.push
  split
  · exact ⟨_, s, rfl, .refl s⟩
  · split
    · exact ⟨_, s, rfl, .refl s⟩
    · have hsame : Leaves s { s with channel := s.channel ++ [item] } := .of_eq rfl rfl rfl
      dsimp only
      split
      · exact ⟨_, _, rfl, hsame⟩
      · rename_i g rest hwaiters
        rw [if_pos (h.waker hwaiters)]
        exact ⟨_, _, rfl, hsame.trans ((h.leaves hsame).leaves_front hwaiters)⟩

theorem Linked.leaves_sender (h : s.Linked) : Leaves s s.wakeSender := by
  unfold Channel.wakeSender
  split
  · exact .refl s
  · rename_i g rest hwaiters
    rw [if_pos (h.waker hwaiters)]
    exact h.leaves_front hwaiters

theorem Linked.leaves_recvOne (h : s.Linked) : Leaves s s.recvOne.2 := by
  unfold Channel.recvOne
  split
  · rename_i item rest hchannel
    have hsame : Leaves s { s with channel := rest } := .of_eq rfl rfl rfl
    exact hsame.trans (h.leaves hsame).leaves_sender
  · split
    · exact .refl s
    · exact .refl s

/-! ## A node is linked -/

theorem register_self (s : Channel α) (side : Side) (f : Nat) : (s.register side f).futures f =
    { s.futures f with stage := .pending, waker := true, notified := false } := by
  unfold Channel.register
  dsimp only
  split
  · exact setFuture_self ..
  · exact setFuture_self ..

theorem register_of_ne (hne : g ≠ f) : (s.register side f).futures g = s.futures g := by
  unfold Channel.register
  dsimp only
  split
  · exact setFuture_of_ne hne
  · exact setFuture_of_ne hne

theorem mem_register (s : Channel α) (side : Side) (f : Nat) :
    f ∈ (s.register side f).waiters side := by
  unfold Channel.register
  dsimp only
  split
  · assumption
  · rw [setWaiters_self]
    exact List.mem_append_right _ (List.mem_singleton_self f)

theorem mem_of_register {other : Side} (hne : g ≠ f)
    (hg : g ∈ (s.register side f).waiters other) : g ∈ s.waiters other := by
  unfold Channel.register at hg
  dsimp only at hg
  split at hg
  · exact hg
  · rcases Classical.em (other = side) with rfl | hother
    · rw [setWaiters_self] at hg
      exact (List.mem_append.mp hg).resolve_right fun h => hne (List.mem_singleton.mp h)
    · rwa [setWaiters_of_ne hother] at hg

/-! ## Calls -/

/-- What a call may do to the waiters. -/
inductive Moved (s : Channel α) : Call α → Channel α → Prop
  /-- Some nodes leave their lists. -/
  | leaves {c : Call α} {s' : Channel α} (leaves : Leaves s s') : Moved s c s'
  /-- A poll returns `Pending`: the slot is filled and the node linked. -/
  | registered (f : Nat) (stage : (s.futures f).stage ≠ .fresh) :
      Moved s (.event (.poll f)) (s.register (s.futures f).role.side f)
  | created {c : Call α} (f : Nat) (role : Role α) (stage : (s.futures f).stage = .fresh) :
      Moved s c (s.setFuture f { role := role, stage := .idle, waker := false, notified := false })

theorem recvOne_pending {s₁ : Channel α} (h : s.recvOne = (.pending, s₁)) : s₁ = s := by
  unfold Channel.recvOne at h
  split at h
  · cases h
  · split at h
    · exact (Prod.mk.inj h).2.symm
    · cases h

theorem Linked.moved_recv (h : s.Linked) (hside : (s.futures f).role.side = .recv)
    (hstage : (s.futures f).stage ≠ .fresh) {after : Stage} (hafter : after ≠ .fresh) :
    Moved s (.event (.poll f)) (s.pollRecv f after).2 := by
  have hleaves := h.leaves_recvOne
  unfold Channel.pollRecv
  split
  · rename_i s₁ hone
    rw [recvOne_pending hone]
    exact hside ▸ .registered f hstage
  · rename_i item s₁ hone
    rw [hone] at hleaves
    have hside₁ : (s₁.futures f).role.side = .recv := by rw [hleaves.role f, hside]
    exact .leaves (hleaves.trans ((h.leaves hleaves).leaves_remove hside₁ hafter))

theorem Linked.moved_send (h : s.Linked) {item : α} (hside : (s.futures f).role.side = .send)
    (hstage : (s.futures f).stage ≠ .fresh) :
    ∃ result s', s.pollSend f item = some (result, s') ∧ Moved s (.event (.poll f)) s' := by
  unfold Channel.pollSend
  split
  · have hremove := h.leaves_remove hside (show Stage.done ≠ .fresh from fun h => by cases h)
    obtain ⟨result, s', hpush, hleaves⟩ := (h.leaves hremove).leaves_push item
    refine ⟨.ready (.sent result), s', ?_, .leaves (hremove.trans hleaves)⟩
    rw [hpush]
    rfl
  · exact ⟨_, _, rfl, hside ▸ .registered f hstage⟩

theorem Linked.moved_poll (h : s.Linked) (hstage : (s.futures f).stage ≠ .fresh) :
    ∃ result s', s.poll f = some (result, s') ∧ Moved s (.event (.poll f)) s' := by
  unfold Channel.poll
  split
  · rename_i item hrole
    exact h.moved_send (by rw [hrole]; rfl) hstage
  · rename_i hrole
    exact ⟨_, _, rfl, h.moved_recv (by rw [hrole]; rfl) hstage (fun h => by cases h)⟩
  · rename_i hrole
    exact ⟨_, _, rfl, h.moved_recv (by rw [hrole]; rfl) hstage (fun h => by cases h)⟩

theorem Linked.moved_dropSender (h : s.Linked) : ∃ s', s.dropSender = some s' ∧ Leaves s s' := by
  have hsame : Leaves s { s with txCount := s.txCount - 1 } := .of_eq rfl rfl rfl
  unfold Channel.dropSender
  dsimp only
  split
  · obtain ⟨s', hs', hleaves⟩ := (h.leaves hsame).leaves_both .send .recv
    exact ⟨s', hs', hsame.trans hleaves⟩
  · exact ⟨_, rfl, hsame⟩

theorem Linked.moved_close (h : s.Linked) : ∃ s', s.close = some s' ∧ Leaves s s' := by
  have hsame : Leaves s { s with isClosed := true } := .of_eq rfl rfl rfl
  obtain ⟨s', hs', hleaves⟩ := (h.leaves hsame).leaves_both .recv .send
  exact ⟨s', hs', hsame.trans hleaves⟩

theorem Linked.moved_dropReceiver (h : s.Linked) :
    ∃ s', s.dropReceiver = some s' ∧ Leaves s s' := by
  have hsame : Leaves s { s with rxCount := s.rxCount - 1 } := .of_eq rfl rfl rfl
  have hclose : ∃ s', Channel.close { s with rxCount := s.rxCount - 1 } = some s' ∧
      Leaves s s' := by
    obtain ⟨s', hs', hleaves⟩ := (h.leaves hsame).moved_close
    exact ⟨s', hs', hsame.trans hleaves⟩
  unfold Channel.dropReceiver
  split
  · dsimp only
    split
    · exact hclose
    · exact ⟨_, rfl, hsame⟩
  · exact hclose

/-- No `expect` fires, whatever is called. -/
theorem Linked.perform (h : s.Linked) {c : Call α} (hcallable : s.callable c = true) :
    ∃ s', s.perform c = some s' ∧ Moved s c s' := by
  cases c with
  | split =>
    refine ⟨s.split, rfl, .leaves ?_⟩
    unfold Channel.split
    split
    · exact .of_eq rfl rfl rfl
    · exact .of_eq rfl rfl rfl
  | event e =>
    cases e with
    | trySend item =>
      obtain ⟨result, s', hpush, hleaves⟩ := h.leaves_push item
      refine ⟨s', ?_, .leaves hleaves⟩
      show Option.map _ (s.push item) = _
      rw [hpush]
      rfl
    | tryRecv =>
      refine ⟨s.tryRecv.2, rfl, .leaves ?_⟩
      have hsame : s.tryRecv.2 = s.recvOne.2 := by
        unfold Channel.tryRecv
        split <;> rename_i hone <;> rw [hone]
      rw [hsame]
      exact h.leaves_recvOne
    | create f role => exact ⟨_, rfl, .created f role (of_decide_eq_true hcallable)⟩
    | poll f =>
      have hstage : (s.futures f).stage ≠ .fresh := by
        intro hfresh
        rcases of_decide_eq_true hcallable with hidle | hpending
        · exact Stage.noConfusion (hfresh.symm.trans hidle)
        · exact Stage.noConfusion (hfresh.symm.trans hpending)
      obtain ⟨result, s', hpoll, hmoved⟩ := h.moved_poll hstage
      refine ⟨s', ?_, hmoved⟩
      show Option.map _ (s.poll f) = _
      rw [hpoll]
      rfl
    | dropFuture f =>
      exact ⟨_, rfl, .leaves (h.leaves_remove rfl fun h => by cases h)⟩
    | cloneSender => exact ⟨_, rfl, .leaves (.of_eq rfl rfl rfl)⟩
    | cloneReceiver => exact ⟨_, rfl, .leaves (.of_eq rfl rfl rfl)⟩
    | dropSender =>
      simp only [Channel.perform]
      split
      · exact ⟨_, rfl, .leaves (.of_eq rfl rfl rfl)⟩
      · obtain ⟨s', hs', hleaves⟩ := h.moved_dropSender
        exact ⟨s', hs', .leaves hleaves⟩
    | dropReceiver =>
      simp only [Channel.perform]
      split
      · exact ⟨_, rfl, .leaves (.of_eq rfl rfl rfl)⟩
      · obtain ⟨s', hs', hleaves⟩ := h.moved_dropReceiver
        exact ⟨s', hs', .leaves hleaves⟩

end Leaving

end Channel

/-! ## Runs -/

/-- The channel, with the wakes of every node since it was linked last. -/
structure Watched (α : Type) where
  channel : Channel α
  wakes : Nat → Nat

namespace Watched

def new (flavor : Flavor) (capacity : ChannelCapacity) : Watched α :=
  { channel := .new flavor capacity
    wakes := fun _ => 0 }

def record (w : Watched α) (s' : Channel α) : Watched α :=
  { channel := s'
    wakes := fun f =>
      if ¬ w.channel.IsLinked f ∧ s'.IsLinked f then 0
      else if Channel.Taken w.channel s' f then w.wakes f + 1
      else w.wakes f }

def next (w : Watched α) (c : Call α) : Option (Watched α) :=
  if w.channel.callable c = true then (w.channel.perform c).map w.record else none

end Watched

/-- The steps as a relation. -/
def WatchedStep (w : Watched α) (c : Call α) (w' : Watched α) : Prop := w.next c = some w'

namespace Watched

open Channel

variable {w w' : Watched α} {c : Call α}

/-- Wakers are in the slots of nodes that were not woken since they were linked. -/
structure Inv (w : Watched α) : Prop where
  linked : w.channel.Linked
  once : ∀ f, w.wakes f ≤ 1
  armed : ∀ f, (w.channel.futures f).waker = true → w.wakes f = 0
  fresh : ∀ f, (w.channel.futures f).stage = .fresh → (w.channel.futures f).waker = false

theorem Inv.new (flavor : Flavor) (capacity : ChannelCapacity) :
    Inv (Watched.new flavor capacity : Watched α) where
  linked := ⟨fun _ => List.nodup_nil, fun _ _ hmem => absurd hmem List.not_mem_nil⟩
  once _ := Nat.zero_le 1
  armed _ _ := rfl
  fresh _ _ := rfl

/-- Whoever is woken was linked, and is not any more. -/
theorem Inv.taken (h : w.Inv) {s' : Channel α} (hmoved : Moved w.channel c s') {f : Nat}
    (htaken : Taken w.channel s' f) : w.channel.IsLinked f ∧ ¬ s'.IsLinked f := by
  obtain ⟨hbefore, hafter⟩ := htaken
  cases hmoved with
  | leaves hleaves => exact hleaves.taken f ⟨hbefore, hafter⟩
  | registered g hstage =>
    exfalso
    rcases Classical.em (f = g) with rfl | hne
    · rw [register_self] at hafter
      cases hafter
    · rw [register_of_ne hne, hbefore] at hafter
      cases hafter
  | created g role hstage =>
    exfalso
    rcases Classical.em (f = g) with rfl | hne
    · rw [h.fresh f hstage] at hbefore
      cases hbefore
    · rw [setFuture_of_ne hne, hbefore] at hafter
      cases hafter

/-- Nobody is linked but by a poll. -/
theorem linked_by_poll {s s' : Channel α} (hmoved : Moved s c s') {f : Nat}
    (hbefore : ¬ s.IsLinked f) (hafter : s'.IsLinked f) : c = .event (.poll f) := by
  cases hmoved with
  | leaves hleaves => exact absurd hafter (hleaves.unlinked hbefore)
  | registered g hstage =>
    refine Classical.byContradiction fun hne => hbefore ?_
    obtain ⟨side, hmem⟩ := hafter
    exact ⟨side, mem_of_register (fun hfg => hne (by rw [hfg])) hmem⟩
  | created g role hstage => exact absurd hafter hbefore

theorem Inv.step (h : w.Inv) (hs : WatchedStep w c w') : w'.Inv := by
  obtain ⟨hcallable, hnext⟩ := Option.ite_none_right_eq_some.mp hs
  obtain ⟨s', hperform, hmoved⟩ := h.linked.perform hcallable
  rw [hperform] at hnext
  obtain rfl := Option.some.inj hnext
  have hlinked : s'.Linked := by
    cases hmoved with
    | leaves hleaves => exact h.linked.leaves hleaves
    | registered f hstage => exact h.linked.register rfl
    | created f role hstage =>
      refine ⟨h.linked.nodup, fun side g hg => ?_⟩
      have hne : g ≠ f := by
        rintro rfl
        exact Stage.noConfusion (hstage.symm.trans (h.linked.node side g hg).2.1)
      rw [setFuture_of_ne hne]
      exact h.linked.node side g hg
  have harmed : ∀ f, (s'.futures f).waker = true → (w.record s').wakes f = 0 := by
    intro f hwaker
    simp only [record]
    split
    · rfl
    · rename_i hsame
      have hbefore : (w.channel.futures f).waker = true := by
        cases hmoved with
        | leaves hleaves => exact hleaves.kept f hwaker
        | registered g hstage =>
          rcases Classical.em (f = g) with rfl | hne
          · have hmem : w.channel.IsLinked f :=
              Classical.byContradiction fun hnot => hsame ⟨hnot, _, mem_register ..⟩
            obtain ⟨side, hmem⟩ := hmem
            exact (h.linked.node side f hmem).2.2
          · rwa [register_of_ne hne] at hwaker
        | created g role hstage =>
          rcases Classical.em (f = g) with rfl | hne
          · rw [setFuture_self] at hwaker
            cases hwaker
          · rwa [setFuture_of_ne hne] at hwaker
      rw [if_neg fun htaken => Bool.false_ne_true (htaken.2.symm.trans hwaker)]
      exact h.armed f hbefore
  refine ⟨hlinked, fun f => ?_, harmed, fun f hfresh => ?_⟩
  · simp only [record]
    split
    · exact Nat.zero_le 1
    · split
      · rename_i htaken
        rw [h.armed f htaken.1]
      · exact h.once f
  · cases hmoved with
    | leaves hleaves =>
      have hbefore := h.fresh f (hleaves.fresh f hfresh)
      exact Bool.eq_false_iff.mpr fun hwaker =>
        Bool.false_ne_true (hbefore.symm.trans (hleaves.kept f hwaker))
    | registered g hstage =>
      rcases Classical.em (f = g) with rfl | hne
      · simp only [record, register_self] at hfresh
        cases hfresh
      · simp only [record, register_of_ne hne] at hfresh ⊢
        exact h.fresh f hfresh
    | created g role hstage =>
      rcases Classical.em (f = g) with rfl | hne
      · simp only [record, setFuture_self]
      · simp only [record, setFuture_of_ne hne] at hfresh ⊢
        exact h.fresh f hfresh

end Watched

/-- In every state that calls on a local channel can reach, whatever the flavor and the
capacity, every linked waiter holds a waker that was not woken since, and no `expect` of the
next call fires.  Whoever is woken was linked and is not any more, and only a poll of the same
future links it again; hence nobody is woken twice. -/
theorem linked_waiters_hold_wakers {flavor : Flavor} {capacity : ChannelCapacity} {w : Watched α}
    (h : Run WatchedStep (fun _ _ => True) (· = .new flavor capacity) w) :
    (∀ side, ∀ f ∈ w.channel.waiters side,
      (w.channel.futures f).waker = true ∧ w.wakes f = 0) ∧
    (∀ f, w.wakes f ≤ 1) ∧
    ∀ c, w.channel.callable c = true → ∃ s', w.channel.perform c = some s' ∧
      ∀ f, (Channel.Taken w.channel s' f → w.channel.IsLinked f ∧ ¬ s'.IsLinked f) ∧
        (¬ w.channel.IsLinked f → s'.IsLinked f → c = .event (.poll f)) := by
  have hinv : w.Inv := by
    refine h.invariant ?_ fun _ _ _ hinv _ hs => hinv.step hs
    rintro _ rfl
    exact .new flavor capacity
  refine ⟨fun side f hf => ?_, hinv.once, fun c hcallable => ?_⟩
  · have hwaker := (hinv.linked.node side f hf).2.2
    exact ⟨hwaker, hinv.armed f hwaker⟩
  · obtain ⟨s', hperform, hmoved⟩ := hinv.linked.perform hcallable
    exact ⟨s', hperform, fun f => ⟨hinv.taken hmoved, Watched.linked_by_poll hmoved⟩⟩

/-- Two receivers wait, a message wakes the first one and the end of the sender the second;
the third waits on the channel that was split again. -/
theorem linked_waiters_hold_wakers_of_three : ∃ w : Watched Nat,
    w.channel.waiters .recv = [2] ∧ w.wakes 0 = 1 ∧ w.wakes 1 = 1 ∧
    (w.channel.futures 2).waker = true ∧ w.wakes 2 = 0 ∧
    ∃ s', w.channel.perform (.event (.trySend 8)) = some s' ∧ ¬ s'.IsLinked 0 := by
  have hreplay : ((replay Watched.next (fun _ _ => true) (.new .mpsc (.bounded 1))
      [.event (.create 0 .recv), .event (.poll 0), .event (.create 1 .recv), .event (.poll 1),
        .event (.trySend 7), .event .dropSender, .event (.poll 0), .split,
        .event (.create 2 .recv), .event (.poll 2)]).map fun w : Watched Nat =>
      (w.channel.waiters .recv, w.wakes 0, w.wakes 1, w.channel.callable (.event (.trySend 8)),
        decide (w.channel.IsLinked 0))) = some ([2], 1, 1, true, false) := by decide +kernel
  obtain ⟨w, hw, hfacts⟩ := Option.map_eq_some_iff.mp hreplay
  simp only [Prod.mk.injEq, decide_eq_false_iff_not] at hfacts
  obtain ⟨hrecv, hfirst, hsecond, hcallable, hleft⟩ := hfacts
  have hstart : Run WatchedStep (fun _ _ => True) (· = Watched.new .mpsc (.bounded 1))
      (.new .mpsc (.bounded 1) : Watched Nat) := Run.start rfl
  obtain ⟨hlinked, -, hnext⟩ := linked_waiters_hold_wakers
    (hstart.replay (fun _ _ _ hs => hs) (fun _ _ _ => trivial) hw)
  obtain ⟨hwaker, hwakes⟩ := hlinked .recv 2 (by rw [hrecv]; exact List.mem_singleton_self 2)
  obtain ⟨s', hperform, hnode⟩ := hnext (.event (.trySend 8)) hcallable
  refine ⟨w, hrecv, hfirst, hsecond, hwaker, hwakes, s', hperform, fun hlink => ?_⟩
  cases (hnode 0).2 hleft hlink

end Veloq.Local
