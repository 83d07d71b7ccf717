import Veloq.Local.ChannelRuns
set_option autoImplicit false

/-!
# Local: the MPMC channel is a bounded queue that closes in order

What the calls return, and a record of what was accepted and of what was received: the second
is a prefix of the first, and the rest is in the channel.  A `send` future borrows the handle
it came from, so it is polled only while there is a sender.
-/

namespace Veloq.Local

open Veloq.Foundation
open Spsc (ChannelCapacity)

variable {α : Type}

/-- What a call returns. -/
inductive Reply (α : Type) where
  /-- `try_send` or a `send` future, for this item. -/
  | sent (item : α) (result : Except (SendError α) Unit)
  | tried (result : Except TryRecvError α)
  /-- A `recv` future or a stream. -/
  | received (item : Option α)
  | pending
  | nothing

namespace Reply

/-- The item that the channel has accepted. -/
def accepted : Reply α → List α
  | sent item (.ok _) => [item]
  | _ => []

/-- The item that the caller has received. -/
def obtained : Reply α → List α
  | tried (.ok item) => [item]
  | received (some item) => [item]
  | _ => []

end Reply

/-- The event gets a message, or tries to. -/
def Event.receives (futures : Nat → Waiter α) : Event α → Bool
  | tryRecv => true
  | poll f => decide ((futures f).role.side = .recv)
  | _ => false

/-- The item that the event sends. -/
def Event.sends (futures : Nat → Waiter α) : Event α → Option α
  | trySend item => some item
  | poll f =>
      match (futures f).role with
      | .send item => some item
      | _ => none
  | _ => none

namespace Channel

variable (s : Channel α)

/-- What a poll of `f` returns. -/
def replyOfPoll (f : Nat) : PollResult (Output α) → Reply α
  | .pending => .pending
  | .ready (.received item) => .received item
  | .ready (.sent result) =>
      match (s.futures f).role with
      | .send item => .sent item result
      | _ => .nothing

/-- A call: what it returns and the state after it, if it does not panic. -/
def call : Event α → Option (Reply α × Channel α)
  | .trySend item => (s.push item).map fun (result, s') => (.sent item result, s')
  | .tryRecv => some (.tried s.tryRecv.1, s.tryRecv.2)
  | .poll f => (s.poll f).map fun (result, s') => (s.replyOfPoll f result, s')
  | e => (s.step e).map fun s' => (.nothing, s')

theorem step_of_call (e : Event α) : s.step e = (s.call e).map (·.2) := by
  cases e with
  | trySend item =>
    show Option.map _ (s.push item) = Option.map _ (Option.map _ (s.push item))
    rw [Option.map_map]
    rfl
  | tryRecv => rfl
  | poll f =>
    show Option.map _ (s.poll f) = Option.map _ (Option.map _ (s.poll f))
    rw [Option.map_map]
    rfl
  | create f role => rfl
  | dropFuture f => rfl
  | cloneSender => rfl
  | dropSender =>
    show s.dropSender = Option.map _ (Option.map _ s.dropSender)
    rw [Option.map_map]
    exact Option.map_id'.symm
  | cloneReceiver => rfl
  | dropReceiver =>
    show s.dropReceiver = Option.map _ (Option.map _ s.dropReceiver)
    rw [Option.map_map]
    exact Option.map_id'.symm

end Channel

/-- The channel, with what it has accepted and what was received. -/
structure Session (α : Type) where
  channel : Channel α
  accepted : List α
  received : List α

namespace Session

def new (capacity : ChannelCapacity) : Session α :=
  { channel := .new .mpmc capacity
    accepted := []
    received := [] }

def record (s : Session α) (reply : Reply α) (channel : Channel α) : Session α :=
  { channel := channel
    accepted := s.accepted ++ reply.accepted
    received := s.received ++ reply.obtained }

def next (s : Session α) (e : Event α) : Option (Session α) :=
  if s.channel.enabled e = true then
    (s.channel.call e).map fun (reply, channel) => s.record reply channel
  else
    none

/-- A `send` future is polled only while the sender it borrows exists. -/
def Lent (s : Session α) : Event α → Prop
  | .poll f => (s.channel.futures f).role.side = .send → 0 < s.channel.txCount
  | _ => True

end Session

/-- The steps as a relation. -/
def SessionStep (s : Session α) (e : Event α) (s' : Session α) : Prop := s.next e = some s'

/-! ## The nodes of the waiters -/

namespace Channel

variable {s s' : Channel α} {f g : Nat} {side : Side}

/-- Every node in a list has a waker, and belongs there. -/
structure Linked (s : Channel α) : Prop where
  nodup : ∀ side, (s.waiters side).Nodup
  node : ∀ side, ∀ f ∈ s.waiters side, (s.futures f).role.side = side ∧
    (s.futures f).stage = .pending ∧ (s.futures f).waker = true

/-- Some nodes leave their lists; the messages and the handles stay. -/
structure Fewer (s s' : Channel α) : Prop where
  sublist : ∀ side, (s'.waiters side).Sublist (s.waiters side)
  same : ∀ side, ∀ f ∈ s'.waiters side, s'.futures f = s.futures f
  flavor : s'.flavor = s.flavor
  capacity : s'.capacity = s.capacity
  channel : s'.channel = s.channel
  txCount : s'.txCount = s.txCount
  rxCount : s'.rxCount = s.rxCount
  isClosed : s'.isClosed = s.isClosed

theorem Fewer.refl (s : Channel α) : Fewer s s :=
  ⟨fun _ => List.Sublist.refl _, fun _ _ _ => rfl, rfl, rfl, rfl, rfl, rfl, rfl⟩

theorem Fewer.trans {s'' : Channel α} (h : Fewer s s') (h' : Fewer s' s'') : Fewer s s'' :=
  ⟨fun side => (h'.sublist side).trans (h.sublist side),
    fun side f hf => (h'.same side f hf).trans (h.same side f ((h'.sublist side).subset hf)),
    h'.flavor.trans h.flavor, h'.capacity.trans h.capacity, h'.channel.trans h.channel,
    h'.txCount.trans h.txCount, h'.rxCount.trans h.rxCount, h'.isClosed.trans h.isClosed⟩

theorem Linked.fewer (h : s.Linked) (hf : Fewer s s') : s'.Linked := by
  refine ⟨fun side => (hf.sublist side).nodup (h.nodup side), fun side f hmem => ?_⟩
  rw [hf.same side f hmem]
  exact h.node side f ((hf.sublist side).subset hmem)

theorem Linked.notMem_other (h : s.Linked) {other : Side} (hf : f ∈ s.waiters side)
    (hne : other ≠ side) : f ∉ s.waiters other := fun hmem =>
  hne ((h.node other f hmem).1.symm.trans (h.node side f hf).1)

/-- A node leaves its list, and the future may change. -/
theorem fewer_leave (nodes : List Nat) (hsub : nodes.Sublist (s.waiters side))
    (hleft : g ∉ nodes) (hside : ∀ other, other ≠ side → g ∉ s.waiters other) (t : Waiter α) :
    Fewer s ((s.setWaiters side nodes).setFuture g t) := by
  have hwaiters : ∀ other, other ≠ side →
      ((s.setWaiters side nodes).setFuture g t).waiters other = s.waiters other := fun other hne =>
    setWaiters_of_ne hne
  refine ⟨fun other => ?_, fun other f hf => ?_, rfl, rfl, rfl, rfl, rfl, rfl⟩
  · rcases Classical.em (other = side) with rfl | hne
    · rw [show ((s.setWaiters other nodes).setFuture g t).waiters other = nodes from
        setWaiters_self ..]
      exact hsub
    · rw [hwaiters other hne]
  · refine setFuture_of_ne ?_
    rintro rfl
    rcases Classical.em (other = side) with rfl | hne
    · rw [show ((s.setWaiters other nodes).setFuture f t).waiters other = nodes from
        setWaiters_self ..] at hf
      exact hleft hf
    · rw [hwaiters other hne] at hf
      exact hside other hne hf

/-- The first node is taken out and woken. -/
theorem Linked.wakeFront (h : s.Linked) {rest : List Nat} (hwaiters : s.waiters side = g :: rest) :
    Fewer s ((s.setWaiters side rest).wake g) := by
  have hnodup : (g :: rest).Nodup := hwaiters ▸ h.nodup side
  have hmem : g ∈ s.waiters side := by
    rw [hwaiters]
    exact List.mem_cons_self ..
  exact fewer_leave rest (hwaiters ▸ List.sublist_cons_self ..) (List.nodup_cons.mp hnodup).1
    (fun other hne => h.notMem_other hmem hne) _

theorem Linked.remove (h : s.Linked) (hside : (s.futures f).role.side = side) (stage : Stage) :
    Fewer s (s.remove side f stage) := by
  refine fewer_leave _ List.erase_sublist (h.nodup side).not_mem_erase (fun other hne hmem => ?_) _
  exact hne ((h.node other f hmem).1.symm.trans hside)

theorem Linked.wakeSender (h : s.Linked) : Fewer s s.wakeSender := by
  unfold Channel.wakeSender
  split
  · exact .refl s
  · rename_i g rest hwaiters
    rw [if_pos (h.node .send g (by rw [hwaiters]; exact List.mem_cons_self ..)).2.2]
    exact h.wakeFront hwaiters

theorem Linked.wakeEach {nodes : List Nat} (h : s.Linked) (hwaiters : s.waiters side = nodes) :
    ∃ s', wakeEach side nodes s = some s' ∧ Fewer s s' := by
  induction nodes generalizing s with
  | nil => exact ⟨s, rfl, .refl s⟩
  | cons g rest ih =>
    have hwaker := (h.node side g (by rw [hwaiters]; exact List.mem_cons_self ..)).2.2
    have hfewer := h.wakeFront hwaiters
    obtain ⟨s', hs', hfewer'⟩ := ih (h.fewer hfewer) (setWaiters_self ..)
    refine ⟨s', ?_, hfewer.trans hfewer'⟩
    unfold Channel.wakeEach
    rw [if_pos hwaker]
    exact hs'

theorem Linked.wakeUpAll (h : s.Linked) (side : Side) :
    ∃ s', s.wakeUpAll side = some s' ∧ Fewer s s' :=
  h.wakeEach rfl

theorem Linked.wakeBoth (h : s.Linked) (first second : Side) :
    ∃ s', ((s.wakeUpAll first).bind fun s => s.wakeUpAll second) = some s' ∧ Fewer s s' := by
  obtain ⟨s₁, h₁, hfewer₁⟩ := h.wakeUpAll first
  obtain ⟨s₂, h₂, hfewer₂⟩ := (h.fewer hfewer₁).wakeUpAll second
  refine ⟨s₂, ?_, hfewer₁.trans hfewer₂⟩
  rw [h₁]
  exact h₂

/-- The future is linked, with a waker, and the messages and the handles stay. -/
theorem Linked.register (h : s.Linked) (hside : (s.futures f).role.side = side) :
    (s.register side f).Linked := by
  unfold Channel.register
  dsimp only
  obtain ⟨t, ht⟩ : ∃ t, t = { s.futures f with stage := .pending, waker := true, notified := false } :=
    ⟨_, rfl⟩
  have hnode : t.role.side = side ∧ t.stage = .pending ∧ t.waker = true := by
    rw [ht]
    exact ⟨hside, rfl, rfl⟩
  rw [← ht]
  have hset : ∀ other, ∀ g ∈ s.waiters other, ((s.setFuture f t).futures g).role.side = other ∧
      ((s.setFuture f t).futures g).stage = .pending ∧
      ((s.setFuture f t).futures g).waker = true := by
    intro other g hg
    rcases Classical.em (g = f) with rfl | hne
    · rw [setFuture_self, ← (h.node other g hg).1, hside]
      exact hnode
    · rw [setFuture_of_ne hne]
      exact h.node other g hg
  split
  · exact ⟨h.nodup, hset⟩
  · rename_i hmem
    refine ⟨fun other => ?_, fun other g hg => ?_⟩
    · rcases Classical.em (other = side) with rfl | hne
      · rw [setWaiters_self]
        exact List.nodup_append.mpr ⟨h.nodup other, List.nodup_singleton f, fun a ha b hb hab =>
          hmem (List.mem_singleton.mp hb ▸ hab ▸ ha)⟩
      · rw [setWaiters_of_ne hne]
        exact h.nodup other
    · rcases Classical.em (other = side) with rfl | hne
      · rw [setWaiters_self] at hg
        rcases List.mem_append.mp hg with hold | hnew
        · exact hset other g hold
        · rw [List.mem_singleton.mp hnew]
          show ((s.setFuture f t).futures f).role.side = other ∧
            ((s.setFuture f t).futures f).stage = .pending ∧
            ((s.setFuture f t).futures f).waker = true
          rw [setFuture_self]
          exact hnode
      · rw [setWaiters_of_ne hne] at hg
        exact hset other g hg

/-- The handles stay, and so does what was agreed on the channel. -/
structure Stable (s s' : Channel α) : Prop where
  flavor : s'.flavor = s.flavor
  capacity : s'.capacity = s.capacity
  txCount : s'.txCount = s.txCount
  rxCount : s'.rxCount = s.rxCount
  isClosed : s'.isClosed = s.isClosed

theorem stable_register (s : Channel α) (side : Side) (f : Nat) :
    Stable s (s.register side f) ∧ (s.register side f).channel = s.channel := by
  unfold Channel.register
  dsimp only
  split
  · exact ⟨⟨rfl, rfl, rfl, rfl, rfl⟩, rfl⟩
  · exact ⟨⟨rfl, rfl, rfl, rfl, rfl⟩, rfl⟩

/-! ## What a call does to the messages -/

/-- What becomes of an item that is offered. -/
inductive Offered (s s' : Channel α) (item : α) : Except (SendError α) Unit → Prop
  | accepted (isOpen : s.isClosed = false) (room : s.isFull = false)
      (channel : s'.channel = s.channel ++ [item]) : Offered s s' item (.ok ())
  | closed (isClosed : s.isClosed = true) (channel : s'.channel = s.channel) :
      Offered s s' item (.error (.closed item))
  | full (isOpen : s.isClosed = false) (full : s.isFull = true)
      (channel : s'.channel = s.channel) : Offered s s' item (.error (.full item))

theorem Linked.push (h : s.Linked) (item : α) : ∃ result s', s.push item = some (result, s') ∧
    s'.Linked ∧ Stable s s' ∧ Offered s s' item result := by
  unfold Channel.push
  split
  case isTrue hclosed => exact ⟨_, s, rfl, h, ⟨rfl, rfl, rfl, rfl, rfl⟩, .closed hclosed rfl⟩
  case isFalse hopen =>
    rw [Bool.not_eq_true] at hopen
    split
    case isTrue hfull => exact ⟨_, s, rfl, h, ⟨rfl, rfl, rfl, rfl, rfl⟩, .full hopen hfull rfl⟩
    case isFalse hroom =>
      rw [Bool.not_eq_true] at hroom
      have hpushed : Linked { s with channel := s.channel ++ [item] } := ⟨h.nodup, h.node⟩
      dsimp only
      split
      case h_1 => exact ⟨_, _, rfl, hpushed, ⟨rfl, rfl, rfl, rfl, rfl⟩, .accepted hopen hroom rfl⟩
      case h_2 g rest hwaiters =>
        have hwaker := (h.node .recv g (by rw [hwaiters]; exact List.mem_cons_self ..)).2.2
        rw [if_pos hwaker]
        have hfewer := hpushed.wakeFront hwaiters
        exact ⟨_, _, rfl, hpushed.fewer hfewer, ⟨rfl, rfl, rfl, rfl, rfl⟩,
          .accepted hopen hroom hfewer.channel⟩

/-- What `recv_one` finds. -/
inductive Found (s s' : Channel α) : PollResult (Option α) → Prop
  | item {item : α} (channel : s.channel = item :: s'.channel) : Found s s' (.ready (some item))
  | pending (channel : s.channel = []) (channel' : s'.channel = []) (isOpen : s.isOpen = true) :
      Found s s' .pending
  | closed (channel : s.channel = []) (channel' : s'.channel = []) (isOpen : s.isOpen = false) :
      Found s s' (.ready none)

theorem Linked.recvOne (h : s.Linked) : s.recvOne.2.Linked ∧ Stable s s.recvOne.2 ∧
    Found s s.recvOne.2 s.recvOne.1 ∧
    ∀ f, (s.recvOne.2.futures f).role = (s.futures f).role := by
  unfold Channel.recvOne
  split
  case h_1 item rest hchannel =>
    have hrest : Linked { s with channel := rest } := ⟨h.nodup, h.node⟩
    have hfewer := hrest.wakeSender
    refine ⟨hrest.fewer hfewer, ⟨hfewer.flavor, hfewer.capacity, hfewer.txCount, hfewer.rxCount,
      hfewer.isClosed⟩, .item ?_, fun f => role_wakeSender _ f⟩
    rw [hfewer.channel]
    exact hchannel
  case h_2 hchannel =>
    split
    case isTrue hopen => exact ⟨h, ⟨rfl, rfl, rfl, rfl, rfl⟩, .pending hchannel hchannel hopen,
      fun _ => rfl⟩
    case isFalse hopen =>
      rw [Bool.not_eq_true] at hopen
      exact ⟨h, ⟨rfl, rfl, rfl, rfl, rfl⟩, .closed hchannel hchannel hopen, fun _ => rfl⟩

/-! ## What a call does -/

/-- What a call on an MPMC channel returns and does to the messages and the handles. -/
inductive Effect (s s' : Channel α) (e : Event α) : Reply α → Prop
  | offer {item : α} {result : Except (SendError α) Unit} (sends : e.sends s.futures = some item)
      (silent : e.receives s.futures = false) (stable : Stable s s')
      (offered : Offered s s' item result)
      (full : (∃ f, e = .poll f) → s.isClosed = true ∨ s.isFull = false) :
      Effect s s' e (.sent item result)
  | obtain {item : α} {reply : Reply α} (receives : e.receives s.futures = true)
      (silent : e.sends s.futures = none) (stable : Stable s s')
      (reply_eq : reply = .tried (.ok item) ∨ reply = .received (some item))
      (channel : s.channel = item :: s'.channel) : Effect s s' e reply
  | ended {reply : Reply α} (receives : e.receives s.futures = true)
      (silent : e.sends s.futures = none) (stable : Stable s s')
      (reply_eq : reply = .tried (.error .closed) ∨ reply = .received none)
      (channel : s.channel = []) (channel' : s'.channel = []) (isOpen : s.isOpen = false) :
      Effect s s' e reply
  | wait {reply : Reply α} (stable : Stable s s')
      (reply_eq : reply = .tried (.error .empty) ∨ reply = .pending)
      (channel : s'.channel = s.channel)
      (receives : e.receives s.futures = true → s.channel = [] ∧ s.isOpen = true)
      (sends : e.sends s.futures ≠ none → s.isClosed = false) : Effect s s' e reply
  | other (receives : e.receives s.futures = false) (silent : e.sends s.futures = none)
      (channel : s'.channel = s.channel) (flavor : s'.flavor = s.flavor)
      (capacity : s'.capacity = s.capacity)
      (txCount : s.txCount = 0 → s'.txCount = 0)
      (rxCount : s.rxCount = 0 → s'.rxCount = 0)
      (isClosed : s.isClosed = true ∨ s'.rxCount = 0 ∧ s.rxCount ≠ 0 → s'.isClosed = true) :
      Effect s s' e .nothing

theorem Linked.pollSend (h : s.Linked) {item : α} (hrole : (s.futures f).role = .send item) :
    ∃ reply s', s.call (.poll f) = some (reply, s') ∧ s'.Linked ∧ Effect s s' (.poll f) reply := by
  have hside : (s.futures f).role.side = .send := by
    rw [hrole]
    rfl
  have hsends : Event.sends s.futures (.poll f) = some item := by
    simp only [Event.sends, hrole]
  have hsilent : Event.receives s.futures (.poll f) = false := by
    refine decide_eq_false ?_
    rw [hside]
    exact Side.noConfusion
  have hpoll : s.poll f = s.pollSend f item := by
    unfold Channel.poll
    rw [hrole]
  show ∃ reply s', Option.map _ (s.poll f) = some (reply, s') ∧ _
  rw [hpoll]
  unfold Channel.pollSend
  split
  case isTrue hready =>
    have hremoved := h.remove hside .done
    obtain ⟨result, s', hpush, hlinked, hstable, hoffered⟩ := (h.fewer hremoved).push item
    rw [hpush]
    have hready : s.isClosed = true ∨ s.isFull = false := by
      rcases Bool.or_eq_true_iff.mp hready with hc | hc
      · exact .inl hc
      · exact .inr ((Bool.not_eq_true' _).mp hc)
    refine ⟨_, s', rfl, hlinked, ?_⟩
    have hreply : s.replyOfPoll f (.ready (.sent result)) = .sent item result := by
      simp only [replyOfPoll, hrole]
    have hfull : (s.remove .send f .done).isFull = s.isFull := rfl
    show Effect s s' (.poll f) (s.replyOfPoll f (.ready (.sent result)))
    rw [hreply]
    refine .offer hsends hsilent ⟨hstable.flavor, hstable.capacity, hstable.txCount,
      hstable.rxCount, hstable.isClosed⟩ ?_ fun _ => hready
    cases hoffered with
    | accepted isOpen room channel => exact .accepted isOpen room channel
    | closed isClosed channel => exact .closed isClosed channel
    | full isOpen full channel => exact .full isOpen full channel
  case isFalse hnot =>
    obtain ⟨hstable, hchannel⟩ := stable_register s .send f
    have hopen : s.isClosed = false := by
      rw [Bool.eq_false_iff]
      intro hc
      exact hnot (by rw [waitForRoom, hc]; rfl)
    refine ⟨_, _, rfl, h.register hside, .wait hstable (.inr rfl) hchannel (fun hr => ?_)
      fun _ => hopen⟩
    exact absurd (hsilent.symm.trans hr) Bool.false_ne_true

theorem Linked.pollRecv (h : s.Linked) (after : Stage) (hside : (s.futures f).role.side = .recv)
    (hpoll : s.poll f = some (s.pollRecv f after)) :
    ∃ reply s', s.call (.poll f) = some (reply, s') ∧ s'.Linked ∧ Effect s s' (.poll f) reply := by
  have hreceives : Event.receives s.futures (.poll f) = true := decide_eq_true hside
  have hsilent : Event.sends s.futures (.poll f) = none := by
    cases hrole : (s.futures f).role with
    | send item =>
      rw [hrole] at hside
      exact Side.noConfusion hside
    | recv => simp only [Event.sends, hrole]
    | stream => simp only [Event.sends, hrole]
  obtain ⟨hlinked, hstable, hfound, hroles⟩ := h.recvOne
  show ∃ reply s', Option.map _ (s.poll f) = some (reply, s') ∧ _
  rw [hpoll]
  unfold Channel.pollRecv
  cases hone : s.recvOne with
  | mk result s₁ =>
    rw [hone] at hlinked hstable hfound hroles
    have hside₁ : (s₁.futures f).role.side = .recv := by
      rw [hroles f]
      exact hside
    have hremoved := hlinked.remove hside₁ after
    have hstable' : Stable s (s₁.remove .recv f after) :=
      ⟨hremoved.flavor.trans hstable.flavor, hremoved.capacity.trans hstable.capacity,
        hremoved.txCount.trans hstable.txCount, hremoved.rxCount.trans hstable.rxCount,
        hremoved.isClosed.trans hstable.isClosed⟩
    cases hfound with
    | item channel =>
      exact ⟨_, _, rfl, hlinked.fewer hremoved,
        .obtain hreceives hsilent hstable' (.inr rfl) channel⟩
    | closed channel channel' isOpen =>
      exact ⟨_, _, rfl, hlinked.fewer hremoved,
        .ended hreceives hsilent hstable' (.inr rfl) channel channel' isOpen⟩
    | pending channel channel' isOpen =>
      obtain ⟨hreg, hchannel⟩ := stable_register s₁ .recv f
      refine ⟨_, _, rfl, hlinked.register hside₁, .wait ⟨hreg.flavor.trans hstable.flavor,
        hreg.capacity.trans hstable.capacity, hreg.txCount.trans hstable.txCount,
        hreg.rxCount.trans hstable.rxCount, hreg.isClosed.trans hstable.isClosed⟩ (.inr rfl)
        ?_ (fun _ => ⟨channel, isOpen⟩) fun hs => absurd hsilent hs⟩
      rw [hchannel, channel, channel']

/-- A call that is possible does not panic, and has one of these effects. -/
theorem Linked.call {e : Event α} (h : s.Linked) (hflavor : s.flavor = .mpmc)
    (henabled : s.enabled e = true) :
    ∃ reply s', s.call e = some (reply, s') ∧ s'.Linked ∧ Effect s s' e reply := by
  cases e with
  | trySend item =>
    obtain ⟨result, s', hpush, hlinked, hstable, hoffered⟩ := h.push item
    refine ⟨.sent item result, s', ?_, hlinked, .offer rfl rfl hstable hoffered ?_⟩
    · show Option.map _ (s.push item) = _
      rw [hpush]
      rfl
    · rintro ⟨f, hf⟩
      cases hf
  | tryRecv =>
    obtain ⟨hlinked, hstable, hfound, -⟩ := h.recvOne
    refine ⟨.tried s.tryRecv.1, s.tryRecv.2, rfl, ?_⟩
    unfold Channel.tryRecv
    cases hone : s.recvOne with
    | mk result s₁ =>
      rw [hone] at hlinked hstable hfound
      cases hfound with
      | item channel => exact ⟨hlinked, .obtain rfl rfl hstable (.inl rfl) channel⟩
      | closed channel channel' isOpen =>
        exact ⟨hlinked, .ended rfl rfl hstable (.inl rfl) channel channel' isOpen⟩
      | pending channel channel' isOpen =>
        exact ⟨hlinked, .wait hstable (.inl rfl) (channel'.trans channel.symm)
          (fun _ => ⟨channel, isOpen⟩) fun hs => absurd rfl hs⟩
  | create f role =>
    have hfresh := of_decide_eq_true (Bool.and_eq_true_iff.mp henabled).1
    refine ⟨.nothing, _, rfl, ⟨h.nodup, fun side g hg => ?_⟩,
      .other rfl rfl rfl rfl rfl id id fun hc => ?_⟩
    · have hne : g ≠ f := by
        rintro rfl
        exact Stage.noConfusion (hfresh.symm.trans (h.node side g hg).2.1)
      rw [setFuture_of_ne hne]
      exact h.node side g hg
    · exact hc.resolve_right fun hr => hr.2 hr.1
  | poll f =>
    cases hrole : (s.futures f).role with
    | send item => exact h.pollSend hrole
    | recv =>
      exact h.pollRecv .done (by rw [hrole]; rfl) (by unfold Channel.poll; rw [hrole])
    | stream =>
      exact h.pollRecv .idle (by rw [hrole]; rfl) (by unfold Channel.poll; rw [hrole])
  | dropFuture f =>
    have hremoved := h.remove (f := f) rfl .dropped
    refine ⟨.nothing, _, rfl, h.fewer hremoved, .other rfl rfl rfl rfl rfl id id fun hc => ?_⟩
    exact hc.resolve_right fun hr => hr.2 hr.1
  | cloneSender =>
    have hpos := of_decide_eq_true henabled
    refine ⟨.nothing, _, rfl, ⟨h.nodup, h.node⟩, .other rfl rfl rfl rfl rfl (fun hz => ?_) id
      fun hc => hc.resolve_right fun hr => hr.2 hr.1⟩
    exact absurd hz (Nat.ne_of_gt hpos)
  | cloneReceiver =>
    have hpos := (of_decide_eq_true henabled).2
    refine ⟨.nothing, _, rfl, ⟨h.nodup, h.node⟩, .other rfl rfl rfl rfl rfl id (fun hz => ?_)
      fun hc => hc.resolve_right fun hr => Nat.succ_ne_zero _ hr.1⟩
    exact absurd hz (Nat.ne_of_gt hpos)
  | dropSender =>
    have hpos := of_decide_eq_true henabled
    have hfewer : ∃ s', s.dropSender = some s' ∧
        s'.Linked ∧ Fewer { s with txCount := s.txCount - 1 } s' := by
      have hlinked : Linked { s with txCount := s.txCount - 1 } := ⟨h.nodup, h.node⟩
      unfold Channel.dropSender
      dsimp only
      split
      · obtain ⟨s', hs', hfewer⟩ := hlinked.wakeBoth .send .recv
        exact ⟨s', hs', hlinked.fewer hfewer, hfewer⟩
      · exact ⟨_, rfl, hlinked, .refl _⟩
    obtain ⟨s', hs', hlinked, hfewer⟩ := hfewer
    refine ⟨.nothing, s', ?_, hlinked, .other rfl rfl hfewer.channel
      hfewer.flavor hfewer.capacity (fun hz => absurd hz (Nat.ne_of_gt hpos)) (fun hz => ?_)
      fun hc => ?_⟩
    · show Option.map _ s.dropSender = _
      rw [hs']
      rfl
    · exact hfewer.rxCount.trans hz
    · rw [hfewer.isClosed]
      exact hc.resolve_right fun hr => hr.2 (hfewer.rxCount.symm.trans hr.1)
  | dropReceiver =>
    have hpos := of_decide_eq_true henabled
    have hfewer : ∃ s' closed, s.dropReceiver = some s' ∧ s'.Linked ∧
        (closed = true ∨ closed = s.isClosed ∧ s.rxCount - 1 ≠ 0) ∧
        Fewer { s with
          rxCount := s.rxCount - 1
          isClosed := closed } s' := by
      have hlinked : ∀ closed, Linked { s with
          rxCount := s.rxCount - 1
          isClosed := closed } := fun _ => ⟨h.nodup, h.node⟩
      unfold Channel.dropReceiver
      dsimp only
      rw [hflavor]
      dsimp only
      split
      case isTrue hzero =>
        obtain ⟨s', hs', hfewer⟩ := (hlinked true).wakeBoth .recv .send
        rw [hflavor] at hs' hfewer
        exact ⟨s', true, hs', (hflavor ▸ hlinked true).fewer hfewer, .inl rfl, hfewer⟩
      case isFalse hne =>
        exact ⟨_, s.isClosed, rfl, hflavor ▸ hlinked s.isClosed, .inr ⟨rfl, hne⟩, .refl _⟩
    obtain ⟨s', closed, hs', hlinked, hclosed, hfewer⟩ := hfewer
    refine ⟨.nothing, s', ?_, hlinked, .other rfl rfl hfewer.channel
      hfewer.flavor hfewer.capacity (fun hz => ?_) (fun hz => absurd hz (Nat.ne_of_gt hpos))
      fun hc => ?_⟩
    · show Option.map _ s.dropReceiver = _
      rw [hs']
      rfl
    · exact hfewer.txCount.trans hz
    · rw [hfewer.isClosed]
      rcases hclosed with hclosed | ⟨hclosed, hne⟩
      · exact hclosed
      · exact hclosed.trans (hc.resolve_right fun hr => hne (hfewer.rxCount.symm.trans hr.1))

end Channel

namespace Session

variable {s s' : Session α} {e : Event α} {capacity : ChannelCapacity}

/-- The record of a session agrees with its channel. -/
structure Kept (capacity : ChannelCapacity) (s : Session α) : Prop where
  linked : s.channel.Linked
  flavor : s.channel.flavor = .mpmc
  room : s.channel.capacity = capacity
  balance : s.accepted = s.received ++ s.channel.channel
  bounded : ∀ x, capacity = .bounded x → s.channel.channel.length ≤ x
  closed : s.channel.rxCount = 0 → s.channel.isClosed = true

theorem Kept.new (capacity : ChannelCapacity) : Kept capacity (new capacity : Session α) :=
  ⟨⟨fun _ => List.nodup_nil, fun _ _ hf => absurd hf List.not_mem_nil⟩, rfl, rfl, rfl,
    fun _ _ => Nat.zero_le _, fun hz => absurd hz Nat.one_ne_zero⟩

/-- One more message fits. -/
theorem length_of_room {c : Channel α} (hroom : c.isFull = false) (hcapacity : c.capacity = capacity)
    (item : α) : ∀ x, capacity = .bounded x → (c.channel ++ [item]).length ≤ x := by
  intro x hx
  unfold Channel.isFull at hroom
  rw [hcapacity, hx] at hroom
  have hlt : ¬ x ≤ c.channel.length := of_decide_eq_false hroom
  rw [List.length_append, List.length_singleton]
  omega

/-- The messages stay as they are. -/
theorem Kept.same (h : Kept capacity s) {reply : Reply α} {c : Channel α} (hlinked : c.Linked)
    (hflavor : c.flavor = s.channel.flavor) (hroom : c.capacity = s.channel.capacity)
    (hchannel : c.channel = s.channel.channel) (hclosed : c.rxCount = 0 → c.isClosed = true)
    (haccepted : reply.accepted = []) (hobtained : reply.obtained = []) :
    Kept capacity (s.record reply c) := by
  refine ⟨hlinked, hflavor.trans h.flavor, hroom.trans h.room, ?_, fun x hx => ?_, hclosed⟩
  · show s.accepted ++ reply.accepted = (s.received ++ reply.obtained) ++ c.channel
    rw [haccepted, hobtained, hchannel, List.append_nil, List.append_nil]
    exact h.balance
  · show c.channel.length ≤ x
    rw [hchannel]
    exact h.bounded x hx

theorem Kept.effect (h : Kept capacity s) {reply : Reply α} {c : Channel α}
    (hlinked : c.Linked) (heffect : Channel.Effect s.channel c e reply) :
    Kept capacity (s.record reply c) := by
  have hclosed : Channel.Stable s.channel c → c.rxCount = 0 → c.isClosed = true := by
    intro hstable hz
    rw [hstable.isClosed]
    exact h.closed (hstable.rxCount.symm.trans hz)
  cases heffect with
  | offer sends silent stable offered full =>
    cases offered with
    | accepted isOpen room channel =>
      refine ⟨hlinked, stable.flavor.trans h.flavor, stable.capacity.trans h.room, ?_,
        fun x hx => ?_, hclosed stable⟩
      · show s.accepted ++ [_] = (s.received ++ []) ++ c.channel
        rw [channel, h.balance, List.append_nil, List.append_assoc]
      · show c.channel.length ≤ x
        rw [channel]
        exact length_of_room room h.room _ x hx
    | closed isClosed channel =>
      exact h.same hlinked stable.flavor stable.capacity channel (hclosed stable) rfl rfl
    | full isOpen full channel =>
      exact h.same hlinked stable.flavor stable.capacity channel (hclosed stable) rfl rfl
  | @obtain item _ receives silent stable reply_eq channel =>
    have hreply : reply.accepted = [] ∧ reply.obtained = [item] := by
      rcases reply_eq with rfl | rfl
      · exact ⟨rfl, rfl⟩
      · exact ⟨rfl, rfl⟩
    have hbalance := h.balance
    rw [channel] at hbalance
    refine ⟨hlinked, stable.flavor.trans h.flavor, stable.capacity.trans h.room, ?_,
      fun x hx => ?_, hclosed stable⟩
    · show s.accepted ++ reply.accepted = (s.received ++ reply.obtained) ++ c.channel
      rw [hreply.1, hreply.2, hbalance, List.append_nil, List.append_assoc]
      rfl
    · have hlength := h.bounded x hx
      rw [channel, List.length_cons] at hlength
      exact Nat.le_of_succ_le hlength
  | ended receives silent stable reply_eq channel channel' isOpen =>
    refine h.same hlinked stable.flavor stable.capacity (channel'.trans channel.symm)
      (hclosed stable) ?_ ?_
    · rcases reply_eq with rfl | rfl <;> rfl
    · rcases reply_eq with rfl | rfl <;> rfl
  | wait stable reply_eq channel receives sends =>
    refine h.same hlinked stable.flavor stable.capacity channel (hclosed stable) ?_ ?_
    · rcases reply_eq with rfl | rfl <;> rfl
    · rcases reply_eq with rfl | rfl <;> rfl
  | other receives silent channel flavor capacity' txCount rxCount isClosed =>
    refine h.same hlinked flavor capacity' channel (fun hz => isClosed ?_) rfl rfl
    rcases Classical.em (s.channel.rxCount = 0) with hzero | hzero
    · exact .inl (h.closed hzero)
    · exact .inr ⟨hz, hzero⟩

theorem Kept.step (h : Kept capacity s) (hs : SessionStep s e s') : Kept capacity s' := by
  obtain ⟨henabled, hcall⟩ := Option.ite_none_right_eq_some.mp hs
  obtain ⟨reply, c, hreply, hlinked, heffect⟩ := h.linked.call h.flavor henabled
  rw [hreply] at hcall
  cases hcall
  exact h.effect hlinked heffect

end Session

/-- An MPMC channel is a bounded queue: what was received is a prefix of what was accepted, the
rest is in the channel, and there is never more in it than it has room for.  No call panics, and
no `send` future comes back with `Full`.  Without a sender nothing is accepted any more, and who
wants a message gets the next one, or hears that there is none once everything was received.
Without a receiver every send fails with `Closed` and gives its item back. -/
theorem local_mpmc_fifo {capacity : ChannelCapacity} {s : Session α}
    (h : Run SessionStep Session.Lent (· = .new capacity) s) :
    s.accepted = s.received ++ s.channel.channel ∧
    (∀ x, capacity = .bounded x → s.channel.channel.length ≤ x) ∧
    ∀ e, s.channel.enabled e = true → s.Lent e → ∃ reply c, s.channel.call e = some (reply, c) ∧
      (∀ f item, e = .poll f → ∀ back, reply ≠ .sent item (.error (.full back))) ∧
      (s.channel.txCount = 0 → c.txCount = 0 ∧ reply.accepted = [] ∧
        (e.receives s.channel.futures = true → (∃ item, s.channel.channel = item :: c.channel ∧
            (reply = .tried (.ok item) ∨ reply = .received (some item))) ∨
          s.received = s.accepted ∧
            (reply = .tried (.error .closed) ∨ reply = .received none))) ∧
      (s.channel.rxCount = 0 → c.rxCount = 0 ∧ ∀ item, e.sends s.channel.futures = some item →
        reply = .sent item (.error (.closed item))) := by
  have hkept : s.Kept capacity := by
    refine h.invariant ?_ fun _ _ _ hkept _ hs => hkept.step hs
    rintro _ rfl
    exact .new capacity
  refine ⟨hkept.balance, hkept.bounded, fun e henabled hlent => ?_⟩
  obtain ⟨reply, c, hcall, -, heffect⟩ := hkept.linked.call hkept.flavor henabled
  refine ⟨reply, c, hcall, ?_⟩
  cases heffect with
  | @offer item result sends silent stable offered full =>
    refine ⟨fun f item' he back hreply => ?_, fun hz => ?_, fun hz => ?_⟩
    · cases offered with
      | accepted => cases hreply
      | closed => cases hreply
      | full isOpen isFull channel =>
        rcases full ⟨f, he⟩ with hc | hroom
        · exact Bool.false_ne_true (isOpen.symm.trans hc)
        · exact Bool.false_ne_true (hroom.symm.trans isFull)
    · exfalso
      -- Without a sender there is nobody to offer an item.
      cases e with
      | trySend item' => exact absurd hz (Nat.ne_of_gt (of_decide_eq_true henabled))
      | poll f =>
        refine absurd hz (Nat.ne_of_gt (hlent ?_))
        cases hrole : (s.channel.futures f).role with
        | send item' => rfl
        | recv =>
          simp only [Event.sends, hrole] at sends
          exact absurd sends.symm (Option.some_ne_none _)
        | stream =>
          simp only [Event.sends, hrole] at sends
          exact absurd sends.symm (Option.some_ne_none _)
      | tryRecv => cases sends
      | create f role => cases sends
      | dropFuture f => cases sends
      | cloneSender => cases sends
      | dropSender => cases sends
      | cloneReceiver => cases sends
      | dropReceiver => cases sends
    · refine ⟨stable.rxCount.trans hz, fun item' hitem => ?_⟩
      cases sends.symm.trans hitem
      have hclosed := hkept.closed hz
      cases offered with
      | accepted isOpen room channel => exact absurd (isOpen.symm.trans hclosed) Bool.false_ne_true
      | closed isClosed channel => rfl
      | full isOpen isFull channel => exact absurd (isOpen.symm.trans hclosed) Bool.false_ne_true
  | @obtain item reply receives silent stable reply_eq channel =>
    refine ⟨fun f item' he back hreply => ?_, fun hz => ⟨stable.txCount.trans hz, ?_, fun _ =>
      .inl ⟨item, channel, reply_eq⟩⟩, fun hz => ⟨stable.rxCount.trans hz, fun item' hitem => ?_⟩⟩
    · rcases reply_eq with rfl | rfl <;> cases hreply
    · rcases reply_eq with rfl | rfl <;> rfl
    · cases silent.symm.trans hitem
  | ended receives silent stable reply_eq channel channel' isOpen =>
    refine ⟨fun f item' he back hreply => ?_, fun hz => ⟨stable.txCount.trans hz, ?_, fun _ =>
      .inr ⟨?_, reply_eq⟩⟩, fun hz => ⟨stable.rxCount.trans hz, fun item' hitem => ?_⟩⟩
    · rcases reply_eq with rfl | rfl <;> cases hreply
    · rcases reply_eq with rfl | rfl <;> rfl
    · rw [hkept.balance, channel, List.append_nil]
    · cases silent.symm.trans hitem
  | wait stable reply_eq channel receives sends =>
    refine ⟨fun f item' he back hreply => ?_, fun hz => ⟨stable.txCount.trans hz, ?_, fun hr => ?_⟩,
      fun hz => ⟨stable.rxCount.trans hz, fun item' hitem => ?_⟩⟩
    · rcases reply_eq with rfl | rfl <;> cases hreply
    · rcases reply_eq with rfl | rfl <;> rfl
    · have hpos := Channel.pos_of_isOpen (receives hr).2
      exact absurd hz (Nat.ne_of_gt hpos)
    · have hopen := sends (by rw [hitem]; exact Option.some_ne_none _)
      exact absurd (hopen.symm.trans (hkept.closed hz)) Bool.false_ne_true
  | other receives silent channel flavor capacity' txCount rxCount isClosed =>
    refine ⟨fun f item' he back hreply => ?_, fun hz => ⟨txCount hz, rfl, fun hr => ?_⟩,
      fun hz => ⟨rxCount hz, fun item' hitem => ?_⟩⟩
    · cases hreply
    · exact absurd (receives.symm.trans hr) Bool.false_ne_true
    · cases silent.symm.trans hitem

namespace Session

/-- The computable form of `Lent`. -/
def lentTest (s : Session Nat) : Event Nat → Bool
  | .poll f => decide ((s.channel.futures f).role.side = .send → 0 < s.channel.txCount)
  | _ => true

theorem lent_of_test (s : Session Nat) (e : Event Nat) (h : s.lentTest e = true) : s.Lent e := by
  cases e with
  | poll f =>
    have hlent : (s.channel.futures f).role.side = .send → 0 < s.channel.txCount :=
      of_decide_eq_true h
    exact hlent
  | trySend item => trivial
  | tryRecv => trivial
  | create f role => trivial
  | dropFuture f => trivial
  | cloneSender => trivial
  | dropSender => trivial
  | cloneReceiver => trivial
  | dropReceiver => trivial

/-- A second message waits for room, and both are received after the sender has gone. -/
def twoMessages : List (Event Nat) :=
  [.trySend 7, .create 0 (.send 8), .poll 0, .tryRecv, .poll 0, .dropFuture 0, .dropSender, .tryRecv]

def drained : Session Nat :=
  (replay Session.next lentTest (.new (.bounded 1)) twoMessages).get (by decide +kernel)

end Session

theorem local_mpmc_fifo_drained : Session.drained.received = [7, 8] ∧
    Session.drained.accepted = Session.drained.received ++ Session.drained.channel.channel := by
  have hstart : Run SessionStep Session.Lent (· = Session.new (.bounded 1))
      (.new (.bounded 1) : Session Nat) := Run.start rfl
  have hreplay : replay Session.next Session.lentTest (.new (.bounded 1)) Session.twoMessages =
      some Session.drained := (Option.some_get _).symm
  exact ⟨by decide +kernel, (local_mpmc_fifo (hstart.replay (fun _ _ _ hs => hs)
    Session.lent_of_test hreplay)).1⟩

end Veloq.Local
