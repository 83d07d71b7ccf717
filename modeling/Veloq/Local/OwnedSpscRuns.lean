import Veloq.Local.OwnedSpsc
import Veloq.Local.SpscFifo
set_option autoImplicit false

/-!
# Local: who closes an owned SPSC channel

An `OwnedChannelStream` is made of a second `OwnedReceiver`, and the destructor of that one
closes the channel like the destructor of the first.  As long as no stream is dropped while both
endpoints exist, the channel is closed only when one of them is gone; and as long as the buffer
does not grow away from zero it stands for the items that were sent and not received.
-/

namespace Veloq.Local.OwnedSpsc

open Veloq.Foundation
open Spsc (ElemLayout Fault StateInner Rep)

variable {α : Type} {e : ElemLayout α} {s s' : OwnedChannel α}

/-- What holds in every state of a careful run. -/
structure Inv (e : ElemLayout α) (s : OwnedChannel α) : Prop where
  stored : ∃ items, Rep e s.inner items ∧ s.sent = s.received ++ items
  closed : s.isClosed = true → s.sender = false ∨ s.receiver = false

/-! ## The operations on a represented channel -/

/-- The next item, or what an empty channel says. -/
theorem tryRecv_eq {items : List α} (h : Rep e s.inner items) :
    ∃ inner, Rep e inner items.tail ∧ s.tryRecv e =
      match items.head? with
      | some item => .ok (.ok item, s.delivered inner item)
      | none => .ok (.error (if s.isClosed then .closed else .empty), { s with inner := inner }) := by
  obtain ⟨inner, hpop, hrep, _⟩ := h.pop
  refine ⟨inner, hrep, ?_⟩
  rw [OwnedChannel.tryRecv, hpop]
  cases items with
  | nil =>
      simp only [Except.map, List.head?_nil]
      split <;> rfl
  | cons item rest => rfl

theorem pollRecv_eq {items : List α} (task : Nat) (h : Rep e s.inner items) :
    ∃ inner, Rep e inner items.tail ∧ s.pollRecv e task =
      match items.head? with
      | some item => .ok (.ready (some item), s.delivered inner item)
      | none =>
          if s.isClosed then .ok (.ready none, { s with inner := inner })
          else .ok (.pending,
            { s with inner := inner, consumerWaker := updateWaker s.consumerWaker task }) := by
  obtain ⟨inner, hpop, hrep, _⟩ := h.pop
  refine ⟨inner, hrep, ?_⟩
  rw [OwnedChannel.pollRecv, hpop]
  cases items with
  | nil =>
      simp only [Except.map, List.head?_nil]
      split <;> rfl
  | cons item rest => rfl

/-- Receiving as often as there are items gets all of them. -/
theorem drain_eq {items : List α} (h : Rep e s.inner items) :
    ∃ s', s.drain e items.length = .ok (items, s') ∧ Rep e s'.inner [] ∧
      s'.isClosed = s.isClosed := by
  induction items generalizing s with
  | nil => exact ⟨s, rfl, h, rfl⟩
  | cons item rest ih =>
      obtain ⟨inner, hrep, hrecv⟩ := tryRecv_eq h
      obtain ⟨s', hdrain, hempty, hclosed⟩ := ih (s := s.delivered inner item) hrep
      refine ⟨s', ?_, hempty, hclosed⟩
      simp only [List.length_cons, OwnedChannel.drain, hrecv, List.head?_cons, hdrain]
      rfl

/-! ## Steps -/

namespace Inv

theorem start (hfresh : Fresh e s) : Inv e s := by
  obtain ⟨capacity, hnew⟩ := hfresh
  obtain ⟨inner, hinner, rfl⟩ := Option.map_eq_some_iff.mp hnew
  exact ⟨⟨[], Spsc.rep_new hinner, rfl⟩, fun hc => Bool.noConfusion hc⟩

/-- The buffer has given an item back or said that it is empty. -/
theorem sameItems {items : List α} {inner : StateInner α} (h : Inv e s)
    (hsent : s.sent = s.received ++ items) (hrep : Rep e inner items) :
    Inv e { s with inner := inner } :=
  ⟨⟨items, hrep, hsent⟩, h.closed⟩

theorem accepted {items : List α} {inner : StateInner α} {item : α} (h : Inv e s)
    (hsent : s.sent = s.received ++ items) (hrep : Rep e inner (items ++ [item])) :
    Inv e (s.accepted inner item) := by
  refine ⟨⟨items ++ [item], hrep, ?_⟩, h.closed⟩
  show s.sent ++ [item] = s.received ++ (items ++ [item])
  rw [hsent, List.append_assoc]

theorem delivered {item : α} {rest : List α} {inner : StateInner α} (h : Inv e s)
    (hsent : s.sent = s.received ++ item :: rest) (hrep : Rep e inner rest) :
    Inv e (s.delivered inner item) := by
  refine ⟨⟨rest, hrep, ?_⟩, h.closed⟩
  show s.sent = s.received ++ [item] ++ rest
  rw [hsent, List.append_assoc, List.singleton_append]

theorem trySend {item : α} {result : Except (SendError α) Unit} (h : Inv e s)
    (hcare : s.Careful (.trySend item)) (hs : s.trySend e item = .ok (result, s')) :
    Inv e s' := by
  unfold OwnedChannel.trySend at hs
  split at hs
  · cases hs
    exact h
  · rename_i hopen
    obtain ⟨items, hrep, hsent⟩ := h.stored
    have hzero := hcare (Bool.eq_false_iff.mpr hopen)
    rcases hrep.push item hzero with hpush | ⟨inner, hpush, hrep'⟩ | ⟨inner, hpush, hrep'⟩
    · rw [hpush] at hs
      cases hs
    · rw [hpush] at hs
      cases hs
      exact h.sameItems hsent hrep'
    · rw [hpush] at hs
      cases hs
      exact h.accepted hsent hrep'

theorem pollSend {task : Nat} {item : α} {result : PollResult (Except (SendError α) Unit)}
    (h : Inv e s) (hcare : s.Careful (.pollSend task item))
    (hs : s.pollSend e task item = .ok (result, s')) : Inv e s' := by
  unfold OwnedChannel.pollSend at hs
  split at hs
  · cases hs
    exact h
  · rename_i hopen
    obtain ⟨items, hrep, hsent⟩ := h.stored
    have hzero := hcare (Bool.eq_false_iff.mpr hopen)
    rcases hrep.push item hzero with hpush | ⟨inner, hpush, hrep'⟩ | ⟨inner, hpush, hrep'⟩
    · rw [hpush] at hs
      cases hs
    · rw [hpush] at hs
      cases hs
      exact ⟨⟨items, hrep', hsent⟩, h.closed⟩
    · rw [hpush] at hs
      cases hs
      exact h.accepted hsent hrep'

theorem tryRecv {result : Except TryRecvError α} (h : Inv e s)
    (hs : s.tryRecv e = .ok (result, s')) : Inv e s' := by
  obtain ⟨items, hrep, hsent⟩ := h.stored
  obtain ⟨inner, hrep', hrecv⟩ := tryRecv_eq hrep
  rw [hrecv] at hs
  cases items with
  | nil =>
      cases hs
      exact h.sameItems hsent hrep'
  | cons item rest =>
      cases hs
      exact h.delivered hsent hrep'

theorem pollRecv {task : Nat} {result : PollResult (Option α)} (h : Inv e s)
    (hs : s.pollRecv e task = .ok (result, s')) : Inv e s' := by
  obtain ⟨items, hrep, hsent⟩ := h.stored
  obtain ⟨inner, hrep', hrecv⟩ := pollRecv_eq task hrep
  rw [hrecv] at hs
  cases items with
  | nil =>
      simp only [List.head?_nil] at hs
      split at hs <;> cases hs
      · exact h.sameItems hsent hrep'
      · exact ⟨⟨[], hrep', hsent⟩, h.closed⟩
  | cons item rest =>
      cases hs
      exact h.delivered hsent hrep'

/-- A call of a careful run keeps the invariant. -/
theorem step {ev : Event α} (h : Inv e s) (hcare : s.Careful ev) (hs : ChannelStep e s ev s') :
    Inv e s' := by
  obtain ⟨_, hs⟩ := hs
  cases ev with
  | trySend item =>
      obtain ⟨⟨result, t⟩, hcall, rfl⟩ := Spsc.exists_of_map_eq_ok hs
      exact h.trySend hcare hcall
  | pollSend task item =>
      obtain ⟨⟨result, t⟩, hcall, rfl⟩ := Spsc.exists_of_map_eq_ok hs
      exact h.pollSend hcare hcall
  | tryRecv =>
      obtain ⟨⟨result, t⟩, hcall, rfl⟩ := Spsc.exists_of_map_eq_ok hs
      exact h.tryRecv hcall
  | pollRecv task =>
      obtain ⟨⟨result, t⟩, hcall, rfl⟩ := Spsc.exists_of_map_eq_ok hs
      exact h.pollRecv hcall
  | pollStream k task =>
      obtain ⟨⟨result, t⟩, hcall, rfl⟩ := Spsc.exists_of_map_eq_ok hs
      exact h.pollRecv hcall
  | createStream k =>
      cases hs
      exact ⟨h.stored, h.closed⟩
  | dropStream k =>
      cases hs
      -- one of the endpoints is gone already
      refine ⟨h.stored, fun _ => ?_⟩
      show s.sender = false ∨ s.receiver = false
      simpa only [Bool.not_eq_true] using Decidable.not_and_iff_not_or_not.mp hcare
  | dropSender =>
      cases hs
      exact ⟨h.stored, fun _ => .inl rfl⟩
  | dropReceiver =>
      cases hs
      exact ⟨h.stored, fun _ => .inr rfl⟩

/-! ## What the invariant gives -/

theorem closedByReceiver (h : Inv e s) : s.ClosedByReceiver e := by
  -- the error says that the channel is closed, and the sender that gets it exists
  have hgone : s.sender = true → s.isClosed = true → s.receiver = false := by
    intro hsender hclosed
    refine (h.closed hclosed).resolve_left fun hf => ?_
    rw [hsender] at hf
    exact Bool.noConfusion hf
  constructor
  · intro item s' hsender hs
    refine hgone hsender ?_
    by_contra hopen
    simp only [OwnedChannel.trySend, hopen, Bool.false_eq_true, if_false] at hs
    obtain ⟨⟨result, inner⟩, _, hmap⟩ := Spsc.exists_of_map_eq_ok hs
    cases result <;> cases hmap
  · intro task item s' hsender hs
    refine hgone hsender ?_
    by_contra hopen
    simp only [OwnedChannel.pollSend, hopen, Bool.false_eq_true, if_false] at hs
    obtain ⟨⟨result, inner⟩, _, hmap⟩ := Spsc.exists_of_map_eq_ok hs
    cases result <;> cases hmap

theorem deliversAll (h : Inv e s) : s.DeliversAll e := by
  obtain ⟨items, hrep, hsent⟩ := h.stored
  constructor
  · obtain ⟨s', hdrain, hempty, hclosed⟩ := drain_eq hrep
    obtain ⟨inner, _, hrecv⟩ := tryRecv_eq hempty
    rw [hclosed] at hrecv
    exact ⟨items, s', hsent, hdrain, _, hrecv⟩
  · intro task
    obtain ⟨inner, _, hpoll⟩ := pollRecv_eq task hrep
    cases items with
    | nil =>
        simp only [List.head?_nil] at hpoll
        split at hpoll
        · rename_i hclosed
          refine ⟨[], { s with inner := inner }, hsent, hpoll.trans ?_⟩
          rw [if_pos hclosed]
          rfl
        · rename_i hopen
          refine ⟨[], { s with inner := inner, consumerWaker := updateWaker s.consumerWaker task },
            hsent, hpoll.trans ?_⟩
          rw [if_neg hopen]
          rfl
    | cons item rest => exact ⟨item :: rest, _, hsent, hpoll⟩

end Inv

/-- **Runs in which only an endpoint closes the channel.**  In every run from a new owned channel
in which no stream is dropped while the sender and the receiver both exist, and in which a buffer
grows only with its `head` at zero: a sender is told that the channel is closed only after the
receiver was dropped, and the receivers get every item that was sent, in order. -/
theorem closed_by_receiver (e : ElemLayout α) (s : OwnedChannel α)
    (hrun : Run (ChannelStep e) OwnedChannel.Careful (Fresh e) s) :
    s.ClosedByReceiver e ∧ s.DeliversAll e := by
  have hinv : Inv e s := by
    refine Run.invariant (fun s hfresh => ?_) (fun s ev s' h hcare hs => ?_) hrun
    · exact Inv.start hfresh
    · exact h.step hcare hs
  exact ⟨hinv.closedByReceiver, hinv.deliversAll⟩

/-- A new unbounded channel of one-byte items. -/
def newChannel : OwnedChannel Nat :=
  (ownedChannel Spsc.byteLayout .unbounded).get (by decide)

theorem fresh_newChannel : Fresh Spsc.byteLayout newChannel :=
  ⟨.unbounded, (Option.some_get _).symm⟩

/-- Two items are sent, a stream takes one, and then the receiver and the stream are dropped. -/
def twoSentEvents : List (Event Nat) :=
  [.trySend 4, .trySend 5, .createStream 0, .pollStream 0 1, .dropReceiver, .dropStream 0]

/-- A call on a channel of one-byte items. -/
def next (s : OwnedChannel Nat) (ev : Event Nat) : Option (OwnedChannel Nat) :=
  if s.enabled ev then (s.step Spsc.byteLayout ev).toOption else none

/-- The sends find `head` at zero, and a stream goes after the receiver. -/
def careful (s : OwnedChannel Nat) : Event Nat → Bool
  | .dropStream _ => !(s.sender && s.receiver)
  | .trySend _ | .pollSend _ _ => decide (s.inner.head = 0)
  | _ => true

theorem careful_sound {s : OwnedChannel Nat} {ev : Event Nat} (h : careful s ev = true) :
    s.Careful ev := by
  cases ev with
  | dropStream k =>
      intro hboth
      simp [careful, hboth.1, hboth.2] at h
  | trySend item | pollSend task item => exact fun _ _ => of_decide_eq_true h
  | tryRecv | pollRecv task | createStream k | pollStream k task | dropSender | dropReceiver =>
      trivial

theorem channelStep_of_next {s s' : OwnedChannel Nat} {ev : Event Nat} (h : next s ev = some s') :
    ChannelStep Spsc.byteLayout s ev s' := by
  obtain ⟨henabled, hstep⟩ := Option.ite_none_right_eq_some.mp h
  refine ⟨henabled, ?_⟩
  cases hs : s.step Spsc.byteLayout ev with
  | error fault =>
      rw [hs] at hstep
      exact absurd hstep (by simp [Except.toOption])
  | ok t =>
      rw [hs] at hstep
      rw [Option.some.inj hstep]

def twoSent : OwnedChannel Nat :=
  (replay next careful newChannel twoSentEvents).get (by decide +kernel)

theorem twoSent_ends :
    (twoSent.receiver = false ∧ twoSent.sent = [4, 5] ∧ twoSent.received = [4]) ∧
      twoSent.ClosedByReceiver Spsc.byteLayout ∧ twoSent.DeliversAll Spsc.byteLayout := by
  have hstart : Run (ChannelStep Spsc.byteLayout) OwnedChannel.Careful
      (Fresh Spsc.byteLayout) newChannel := .start fresh_newChannel
  have hreplay : replay next careful newChannel twoSentEvents = some twoSent :=
    (Option.some_get _).symm
  have hrun := hstart.replay (fun _ _ _ => channelStep_of_next) (fun _ _ => careful_sound) hreplay
  exact ⟨by decide +kernel, closed_by_receiver Spsc.byteLayout twoSent hrun⟩

/-- A stream is made and dropped, and after that the sender is told that the channel is closed
although the receiver exists. -/
theorem closed_by_stream :
    ¬ ∀ (e : ElemLayout Nat) (s : OwnedChannel Nat),
      Run (ChannelStep e) Always (Fresh e) s → s.ClosedByReceiver e ∧ s.DeliversAll e := by
  intro hall
  have hstart : Run (ChannelStep Spsc.byteLayout) Always (Fresh Spsc.byteLayout) newChannel :=
    .start fresh_newChannel
  have hcreate := hstart.next (.createStream 0) trivial ⟨by decide, rfl⟩
  have hdrop := hcreate.next (.dropStream 0) trivial ⟨by decide, rfl⟩
  have hgone := (hall _ _ hdrop).1.trySend 7 _ (by decide) rfl
  exact Bool.noConfusion hgone

end Veloq.Local.OwnedSpsc
