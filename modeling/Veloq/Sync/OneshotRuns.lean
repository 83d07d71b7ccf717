import Veloq.Sync.Oneshot
set_option autoImplicit false

/-!
# Sync: one owner for the value of a oneshot channel, and nobody left waiting

Until the channel is complete the cell belongs to the sender, afterwards to the receiver;
`CLOSED` without `VALUE_SENT` keeps the channel from ever becoming complete.  Both sides
register their waker before they look at the state for the last time.
-/

namespace Veloq.Sync.Oneshot

open Veloq.Foundation

variable {α : Type}

/-! ## Where the two ends stand -/

namespace SenderPc

/-- The sender has not completed the channel. -/
def early : SenderPc α → Bool
  | wake _ | dropLoad | gone => false
  | _ => true

/-- The value is in the cell, and the sender's. -/
def holding : SenderPc α → Bool
  | load .send | exchange .send _ | takeBack => true
  | _ => false

/-- Nothing has been sent. -/
def unsent : SenderPc α → Bool
  | idle | closedLoad | closedRegister | closedRecheck => true
  | _ => false

/-- The value on its way into the cell. -/
def hand : SenderPc α → List α
  | write t => [t]
  | _ => []

/-- The sender is at the cell. -/
def atCell : SenderPc α → Bool
  | write _ | takeBack => true
  | _ => false

/-- In the middle of `poll_closed`. -/
def polling : SenderPc α → Bool
  | closedLoad | closedRegister | closedRecheck => true
  | _ => false

/-- The receiver is about to be woken. -/
def wakes : SenderPc α → Bool
  | wake _ => true
  | _ => false

end SenderPc

namespace ReceiverPc

/-- The receiver is at the cell. -/
def atCell : ReceiverPc → Bool
  | take | dropTake => true
  | _ => false

/-- In the middle of `poll`, before it returns. -/
def polling : ReceiverPc → Bool
  | pollLoad | pollRegister | pollRecheck => true
  | _ => false

/-- In the middle of `try_recv`, `poll` or `close`. -/
def engaged : ReceiverPc → Bool
  | tryLoad | take | pollLoad | pollRegister | pollRecheck | close | closeWake => true
  | _ => false

/-- The sender is about to be woken. -/
def wakes : ReceiverPc → Bool
  | closeWake | dropWake _ => true
  | _ => false

end ReceiverPc

namespace Channel

variable {s s' : Channel α}

/-- The receiver is done with the channel. -/
def Left (s : Channel α) : Prop :=
  s.receiver = .gone ∨ s.receiver = .idle ∧ s.attached = false

/-! ## Who owns the value -/

/-- What is in the cell, and whose it is. -/
structure Owned (s : Channel α) : Prop where
  early : s.sender.early = true → s.state.complete = false
  wakes : s.sender.wakes = true → s.state.complete = true
  ended : s.sender = .gone → s.state.complete = true ∨ s.state.closed = true
  seen : ∀ call seen, s.sender = .exchange call seen → seen.closed = false
  panicked : s.sender ≠ .panicked
  holding : s.sender.holding = true → s.value ≠ none
  vacant : s.state.complete = false → s.sender.holding = false → s.value = none
  consumed : s.state.complete = true → s.Left → s.value = none
  left : s.Left → s.state.complete = true ∨ s.state.closed = true
  engaged : s.receiver.engaged = true → s.attached = true
  taking : s.receiver.atCell = true → s.state.complete = true
  dropping : ∀ seen, s.receiver = .dropWake seen →
    seen.complete = s.state.complete ∧ s.state.closed = true
  unsent : s.sender.unsent = true → s.sent = none
  account : s.givenBack ++ s.received ++ s.dropped ++ (s.sender.hand ++ s.value.toList) =
    s.sent.toList

namespace Owned

/-- A value in the cell is nowhere else. -/
theorem only_cell {t : α} (h : s.Owned) (hvalue : s.value = some t) :
    s.givenBack = [] ∧ s.received = [] ∧ s.dropped = [] ∧ s.sender.hand = [] ∧ s.sent = some t := by
  have haccount := h.account
  rw [hvalue] at haccount
  cases hsent : s.sent with
  | none =>
    rw [hsent] at haccount
    simp at haccount
  | some u =>
    rw [hsent] at haccount
    have hlength := congrArg List.length haccount
    simp only [List.length_append, Option.toList_some, List.length_singleton] at hlength
    have hgivenBack : s.givenBack = [] := List.eq_nil_of_length_eq_zero (by omega)
    have hreceived : s.received = [] := List.eq_nil_of_length_eq_zero (by omega)
    have hdropped : s.dropped = [] := List.eq_nil_of_length_eq_zero (by omega)
    have hhand : s.sender.hand = [] := List.eq_nil_of_length_eq_zero (by omega)
    rw [hgivenBack, hreceived, hdropped, hhand] at haccount
    have heq : t = u := List.head_eq_of_cons_eq haccount
    exact ⟨hgivenBack, hreceived, hdropped, hhand, congrArg some heq.symm⟩

/-- The sender goes on, and nothing happens to the value. -/
theorem moveSender (h : s.Owned) (hstate : s'.state = s.state) (hvalue : s'.value = s.value)
    (hreceiver : s'.receiver = s.receiver) (hattached : s'.attached = s.attached)
    (hfate : s'.sent = s.sent ∧ s'.givenBack = s.givenBack ∧ s'.received = s.received ∧
      s'.dropped = s.dropped)
    (hearly : s'.sender.early = true → s.state.complete = false)
    (hwakes : s'.sender.wakes = true → s.state.complete = true)
    (hended : s'.sender = .gone → s.state.complete = true ∨ s.state.closed = true)
    (hseen : ∀ call seen, s'.sender = .exchange call seen → seen.closed = false)
    (hpanicked : s'.sender ≠ .panicked) (hholding : s'.sender.holding = s.sender.holding)
    (hunsent : s'.sender.unsent = true → s.sent = none) (hhand : s'.sender.hand = s.sender.hand) :
    s'.Owned := by
  obtain ⟨hsent, hgivenBack, hreceived, hdropped⟩ := hfate
  have hleft : s'.Left ↔ s.Left := by
    unfold Left
    rw [hreceiver, hattached]
  refine ⟨?_, ?_, ?_, hseen, hpanicked, ?_, ?_, ?_, ?_, ?_, ?_, ?_, ?_, ?_⟩
  · rw [hstate]
    exact hearly
  · rw [hstate]
    exact hwakes
  · rw [hstate]
    exact hended
  · rw [hholding, hvalue]
    exact h.holding
  · rw [hstate, hholding, hvalue]
    exact h.vacant
  · rw [hstate, hleft, hvalue]
    exact h.consumed
  · rw [hstate, hleft]
    exact h.left
  · rw [hreceiver, hattached]
    exact h.engaged
  · rw [hstate, hreceiver]
    exact h.taking
  · rw [hstate, hreceiver]
    exact h.dropping
  · rw [hsent]
    exact hunsent
  · rw [hsent, hgivenBack, hreceived, hdropped, hhand, hvalue]
    exact h.account

/-- The receiver goes on, and nothing happens to the value. -/
theorem moveReceiver (h : s.Owned) (hstate : s'.state = s.state) (hvalue : s'.value = s.value)
    (hsender : s'.sender = s.sender)
    (hfate : s'.sent = s.sent ∧ s'.givenBack = s.givenBack ∧ s'.received = s.received ∧
      s'.dropped = s.dropped)
    (hconsumed : s.state.complete = true → s'.Left → s.value = none)
    (hleft : s'.Left → s.state.complete = true ∨ s.state.closed = true)
    (hengaged : s'.receiver.engaged = true → s'.attached = true)
    (htaking : s'.receiver.atCell = true → s.state.complete = true)
    (hdropping : ∀ seen, s'.receiver = .dropWake seen →
      seen.complete = s.state.complete ∧ s.state.closed = true) : s'.Owned := by
  obtain ⟨hsent, hgivenBack, hreceived, hdropped⟩ := hfate
  refine ⟨?_, ?_, ?_, ?_, ?_, ?_, ?_, ?_, ?_, hengaged, ?_, ?_, ?_, ?_⟩
  · rw [hsender, hstate]
    exact h.early
  · rw [hsender, hstate]
    exact h.wakes
  · rw [hsender, hstate]
    exact h.ended
  · rw [hsender]
    exact h.seen
  · rw [hsender]
    exact h.panicked
  · rw [hsender, hvalue]
    exact h.holding
  · rw [hstate, hsender, hvalue]
    exact h.vacant
  · rw [hstate, hvalue]
    exact hconsumed
  · rw [hstate]
    exact hleft
  · rw [hstate]
    exact htaking
  · rw [hstate]
    exact hdropping
  · rw [hsender, hsent]
    exact h.unsent
  · rw [hsent, hgivenBack, hreceived, hdropped, hsender, hvalue]
    exact h.account

theorem write (h : s.Owned) {t : α} (hpc : s.sender = .write t) : (s.write t).Owned := by
  have hcomplete := h.early (by rw [hpc]; rfl)
  have hvalue := h.vacant hcomplete (by rw [hpc]; rfl)
  have haccount := h.account
  rw [hpc, hvalue] at haccount
  unfold Channel.write
  refine ⟨fun _ => hcomplete, by simp [SenderPc.wakes], by simp, by simp, by simp, by simp,
    by simp [SenderPc.holding], fun hc => ?_, h.left, h.engaged, h.taking, h.dropping,
    by simp [SenderPc.unsent], haccount⟩
  rw [hcomplete] at hc
  exact absurd hc Bool.false_ne_true

/-- The turn of the loop of `set_complete` begins with the state as it is. -/
theorem completeTurn (h : s.Owned) {call : Completing}
    (hpc : s.sender = .load call ∨ ∃ seen, s.sender = .exchange call seen) :
    (s.completeTurn call s.state).Owned := by
  have hcomplete : s.state.complete = false := by
    rcases hpc with hpc | ⟨seen, hpc⟩ <;> exact h.early (by rw [hpc]; rfl)
  have hsender : s.sender.holding = (SenderPc.load (α := α) call).holding ∧ s.sender.hand = [] := by
    rcases hpc with hpc | ⟨seen, hpc⟩ <;> rw [hpc] <;> cases call <;> exact ⟨rfl, rfl⟩
  obtain ⟨hholding, hhand⟩ := hsender
  unfold Channel.completeTurn
  cases hclosed : s.state.closed with
  | false =>
    refine h.moveSender rfl rfl rfl rfl ⟨rfl, rfl, rfl, rfl⟩ (fun _ => hcomplete) ?_ ?_ ?_ ?_ ?_ ?_ ?_
    · simp [SenderPc.wakes]
    · simp
    · intro call' seen heq
      obtain ⟨-, rfl⟩ := SenderPc.exchange.inj heq
      exact hclosed
    · simp
    · rw [hholding]
      cases call <;> rfl
    · simp [SenderPc.unsent]
    · exact hhand.symm
  | true =>
    cases call with
    | send =>
      exact h.moveSender rfl rfl rfl rfl ⟨rfl, rfl, rfl, rfl⟩ (fun _ => hcomplete)
        (by simp [SenderPc.wakes]) (by simp) (by simp) (by simp) hholding.symm
        (by simp [SenderPc.unsent]) hhand.symm
    | drop =>
      exact h.moveSender rfl rfl rfl rfl ⟨rfl, rfl, rfl, rfl⟩ (by simp [SenderPc.early])
        (by simp [SenderPc.wakes]) (fun _ => Or.inr hclosed) (by simp) (by simp) hholding.symm
        (by simp [SenderPc.unsent]) hhand.symm

theorem exchange (h : s.Owned) {call : Completing} {seen : StateVal}
    (hpc : s.sender = .exchange call seen) : (s.exchange call seen).Owned := by
  unfold Channel.exchange
  split
  · rename_i hstate
    have hcomplete : s.state.complete = false := h.early (by rw [hpc]; rfl)
    have hclosed : s.state.closed = false := by
      rw [hstate]
      exact h.seen call seen hpc
    -- a receiver that is done would have closed the channel
    have hhere : ¬ s.Left := by
      intro hleft
      rcases h.left hleft with hc | hc
      · rw [hcomplete] at hc
        exact Bool.false_ne_true hc
      · rw [hclosed] at hc
        exact Bool.false_ne_true hc
    have haccount := h.account
    rw [hpc] at haccount
    refine ⟨by simp [SenderPc.early], fun _ => rfl, by simp, by simp, by simp,
      by simp [SenderPc.holding], by simp, fun _ hleft => absurd hleft hhere, fun _ => Or.inl rfl,
      h.engaged, fun _ => rfl, fun seen' heq => ?_, by simp [SenderPc.unsent], haccount⟩
    have hset := (h.dropping seen' heq).2
    rw [hclosed] at hset
    exact absurd hset Bool.false_ne_true
  · exact h.completeTurn (Or.inr ⟨seen, hpc⟩)

theorem completeWake (h : s.Owned) {call : Completing} (hpc : s.sender = .wake call) :
    (s.completeWake call).Owned := by
  have hcomplete := h.wakes (by rw [hpc]; rfl)
  unfold Channel.completeWake wakeRx
  cases call <;> cases s.rxTask <;>
    exact h.moveSender rfl rfl rfl rfl ⟨rfl, rfl, rfl, rfl⟩ (by simp [SenderPc.early])
      (by simp [SenderPc.wakes]) (fun _ => Or.inl hcomplete) (by simp) (by simp)
      (by rw [hpc]; rfl) (by simp [SenderPc.unsent]) (by rw [hpc]; rfl)

theorem takeBack (h : s.Owned) (hpc : s.sender = .takeBack) : s.takeBack.Owned := by
  have hcomplete := h.early (by rw [hpc]; rfl)
  unfold Channel.takeBack
  cases hvalue : s.value with
  | none => exact absurd hvalue (h.holding (by rw [hpc]; rfl))
  | some t =>
    obtain ⟨hgivenBack, hreceived, hdropped, -, hsent⟩ := h.only_cell hvalue
    refine ⟨by simp [SenderPc.early], by simp [SenderPc.wakes], by simp, by simp, by simp,
      by simp [SenderPc.holding], fun _ _ => rfl, fun _ _ => rfl, h.left, h.engaged, h.taking, h.dropping,
      by simp [SenderPc.unsent], ?_⟩
    simp only
    rw [hgivenBack, hreceived, hdropped, hsent]
    rfl

theorem dropLoad (h : s.Owned) (hpc : s.sender = .dropLoad) : s.dropLoad.Owned := by
  unfold Channel.dropLoad
  cases hcomplete : s.state.complete with
  | false =>
    exact h.moveSender rfl rfl rfl rfl ⟨rfl, rfl, rfl, rfl⟩ (fun _ => hcomplete)
      (by simp [SenderPc.wakes]) (by simp) (by simp) (by simp) (by rw [hpc]; rfl)
      (by simp [SenderPc.unsent]) (by rw [hpc]; rfl)
  | true =>
    exact h.moveSender rfl rfl rfl rfl ⟨rfl, rfl, rfl, rfl⟩ (by simp [SenderPc.early])
      (by simp [SenderPc.wakes]) (fun _ => Or.inl hcomplete) (by simp) (by simp) (by rw [hpc]; rfl)
      (by simp [SenderPc.unsent]) (by rw [hpc]; rfl)

/-- A step of `poll_closed`, or its beginning. -/
theorem movePolling (h : s.Owned) (hunsent : s.sender.unsent = true)
    (hunsent' : s'.sender.unsent = true) (hstate : s'.state = s.state) (hvalue : s'.value = s.value)
    (hreceiver : s'.receiver = s.receiver) (hattached : s'.attached = s.attached)
    (hfate : s'.sent = s.sent ∧ s'.givenBack = s.givenBack ∧ s'.received = s.received ∧
      s'.dropped = s.dropped) : s'.Owned := by
  have hcases : ∀ pc : SenderPc α, pc.unsent = true → pc.early = true ∧ pc.wakes = false ∧
      pc ≠ .gone ∧ (∀ call seen, pc ≠ .exchange call seen) ∧ pc ≠ .panicked ∧
      pc.holding = false ∧ pc.hand = [] := by
    intro pc hpc
    cases pc <;> simp [SenderPc.unsent, SenderPc.early, SenderPc.wakes, SenderPc.holding,
      SenderPc.hand] at hpc ⊢
  obtain ⟨hearly, -, -, -, -, hholding, hhand⟩ := hcases _ hunsent
  obtain ⟨-, hwakes, hgone, hexchange, hpanicked, hholding', hhand'⟩ := hcases _ hunsent'
  refine h.moveSender hstate hvalue hreceiver hattached hfate (fun _ => h.early hearly) ?_
    (fun heq => absurd heq hgone) (fun call seen heq => absurd heq (hexchange call seen)) hpanicked
    (hholding'.trans hholding.symm) (fun _ => h.unsent hunsent) (hhand'.trans hhand.symm)
  rw [hwakes]
  exact fun hf => absurd hf Bool.false_ne_true

theorem senderStep (h : s.Owned) (hs : s.senderStep = some s') : s'.Owned := by
  unfold Channel.senderStep at hs
  split at hs
  case h_1 hpc => cases hs; exact h.write hpc
  case h_2 hpc => cases hs; exact h.completeTurn (Or.inl hpc)
  case h_3 hpc => cases hs; exact h.exchange hpc
  case h_4 hpc => cases hs; exact h.completeWake hpc
  case h_5 hpc => cases hs; exact h.takeBack hpc
  case h_6 hpc => cases hs; exact h.dropLoad hpc
  case h_7 hpc =>
    cases hs
    refine h.movePolling (by rw [hpc]; rfl) ?_ rfl rfl rfl rfl ⟨rfl, rfl, rfl, rfl⟩
    unfold Channel.closedLoad
    simp only
    split <;> rfl
  case h_8 hpc =>
    cases hs
    exact h.movePolling (by rw [hpc]; rfl) rfl rfl rfl rfl rfl ⟨rfl, rfl, rfl, rfl⟩
  case h_9 hpc =>
    cases hs
    exact h.movePolling (by rw [hpc]; rfl) rfl rfl rfl rfl rfl ⟨rfl, rfl, rfl, rfl⟩
  all_goals exact absurd hs (by simp)

/-- A receiver that looks at the state takes the value, or finds the channel closed. -/
theorem look (h : s.Owned) {other : Channel α} (hattached : s.attached = true)
    (hother : s.state.complete = false → other.Owned) : (s.look other).Owned := by
  unfold Channel.look
  split
  · rename_i hcomplete
    exact h.moveReceiver rfl rfl rfl ⟨rfl, rfl, rfl, rfl⟩ (by simp [Left])
      (fun _ => Or.inl hcomplete) (fun _ => hattached) (fun _ => hcomplete) (by simp)
  · rename_i hcomplete
    rw [Bool.not_eq_true] at hcomplete
    split
    · rename_i hclosed
      refine h.moveReceiver rfl rfl rfl ⟨rfl, rfl, rfl, rfl⟩ (fun hc => ?_) (fun _ => Or.inr hclosed)
        (by simp [ReceiverPc.engaged]) (by simp [ReceiverPc.atCell]) (by simp)
      rw [hcomplete] at hc
      exact absurd hc Bool.false_ne_true
    · exact hother hcomplete

/-- The value leaves the cell with the receiver. -/
theorem taken (h : s.Owned) (hat : s.receiver.atCell = true) (hstate : s'.state = s.state)
    (hvalue : s'.value = none) (hsender : s'.sender = s.sender) (hsent : s'.sent = s.sent)
    (hat' : s'.receiver.atCell = false) (hengaged : s'.receiver.engaged = false)
    (hdropping : ∀ seen, s'.receiver ≠ .dropWake seen)
    (haccount : s'.givenBack ++ s'.received ++ s'.dropped ++ s.sender.hand = s.sent.toList) :
    s'.Owned := by
  have hcomplete := h.taking hat
  refine ⟨?_, ?_, ?_, ?_, ?_, ?_, fun _ _ => hvalue, fun _ _ => hvalue, ?_, ?_, ?_, ?_, ?_, ?_⟩
  · rw [hsender, hstate]
    exact h.early
  · rw [hsender, hstate]
    exact h.wakes
  · rw [hsender, hstate]
    exact h.ended
  · rw [hsender]
    exact h.seen
  · rw [hsender]
    exact h.panicked
  · -- a sender that has its value in the cell has not completed the channel
    rw [hsender]
    intro hholding
    have hearly : s.sender.early = true := by
      revert hholding
      cases s.sender <;> simp [SenderPc.holding, SenderPc.early]
    rw [h.early hearly] at hcomplete
    exact absurd hcomplete Bool.false_ne_true
  · rw [hstate]
    exact fun _ => Or.inl hcomplete
  · rw [hengaged]
    exact fun hf => absurd hf Bool.false_ne_true
  · rw [hat']
    exact fun hf => absurd hf Bool.false_ne_true
  · exact fun seen heq => absurd heq (hdropping seen)
  · rw [hsender, hsent]
    exact h.unsent
  · rw [hvalue, hsender, hsent, Option.toList_none, List.append_nil]
    exact haccount

theorem take (h : s.Owned) (hpc : s.receiver = .take) : s.take.Owned := by
  refine h.taken (by rw [hpc]; rfl) rfl rfl rfl rfl rfl rfl (by simp [Channel.take]) ?_
  have haccount := h.account
  unfold Channel.take
  simp only
  cases hvalue : s.value with
  | none =>
    rw [hvalue, Option.toList_none, List.append_nil] at haccount
    exact haccount
  | some t =>
    obtain ⟨hgivenBack, hreceived, hdropped, hhand, hsent⟩ := h.only_cell hvalue
    rw [hgivenBack, hreceived, hdropped, hhand, hsent]
    rfl

theorem dropTake (h : s.Owned) (hpc : s.receiver = .dropTake) : s.dropTake.Owned := by
  refine h.taken (by rw [hpc]; rfl) rfl rfl rfl rfl rfl rfl (by simp [Channel.dropTake]) ?_
  have haccount := h.account
  unfold Channel.dropTake
  simp only
  cases hvalue : s.value with
  | none =>
    rw [hvalue, Option.toList_none, List.append_nil] at haccount
    exact haccount
  | some t =>
    obtain ⟨hgivenBack, hreceived, hdropped, hhand, hsent⟩ := h.only_cell hvalue
    rw [hgivenBack, hreceived, hdropped, hhand, hsent]
    rfl

/-- `CLOSED` is set. -/
theorem setClosed (h : s.Owned) {pc : ReceiverPc} (hat : pc.atCell = false)
    (hengaged : pc.engaged = true → s.attached = true)
    (hleft : pc ≠ .gone ∧ pc ≠ .idle)
    (hdropping : ∀ seen, pc = .dropWake seen → seen.complete = s.state.complete) :
    (s.setClosed pc).Owned := by
  have hhere : ¬ (s.setClosed pc).Left := by
    rintro (hpc | ⟨hpc, -⟩)
    · exact hleft.1 hpc
    · exact hleft.2 hpc
  refine ⟨h.early, h.wakes, fun _ => Or.inr rfl, h.seen, h.panicked, h.holding, h.vacant,
    fun _ hl => absurd hl hhere, fun _ => Or.inr rfl, hengaged, ?_, fun seen heq => ⟨hdropping seen heq, rfl⟩,
    h.unsent, h.account⟩
  intro hf
  exact absurd (hat.symm.trans hf) Bool.false_ne_true

theorem dropWake (h : s.Owned) {seen : StateVal} (hpc : s.receiver = .dropWake seen) :
    (s.dropWake seen).Owned := by
  obtain ⟨hsame, hclosed⟩ := h.dropping seen hpc
  unfold Channel.dropWake wakeTx
  cases hseen : seen.complete with
  | false =>
    have hcomplete : s.state.complete = false := hsame.symm.trans hseen
    cases s.txTask <;>
      exact h.moveReceiver rfl rfl rfl ⟨rfl, rfl, rfl, rfl⟩
        (fun hc => absurd (hcomplete.symm.trans hc) Bool.false_ne_true) (fun _ => Or.inr hclosed)
        (by simp [ReceiverPc.engaged]) (by simp [ReceiverPc.atCell]) (by simp)
  | true =>
    have hcomplete : s.state.complete = true := hsame.symm.trans hseen
    cases s.txTask <;>
      exact h.moveReceiver rfl rfl rfl ⟨rfl, rfl, rfl, rfl⟩ (by simp [Left])
        (fun _ => Or.inr hclosed) (by simp [ReceiverPc.engaged]) (fun _ => hcomplete) (by simp)

/-- The receiver goes on to a place that says nothing about the value. -/
theorem moveQuiet (h : s.Owned) (hstate : s'.state = s.state) (hvalue : s'.value = s.value)
    (hsender : s'.sender = s.sender)
    (hfate : s'.sent = s.sent ∧ s'.givenBack = s.givenBack ∧ s'.received = s.received ∧
      s'.dropped = s.dropped)
    (hleft : s'.Left → s.Left) (hengaged : s'.receiver.engaged = true → s'.attached = true)
    (hat : s'.receiver.atCell = false) (hdropping : ∀ seen, s'.receiver ≠ .dropWake seen) : s'.Owned :=
  h.moveReceiver hstate hvalue hsender hfate (fun hc hl => h.consumed hc (hleft hl))
    (fun hl => h.left (hleft hl)) hengaged (fun hf => absurd (hat.symm.trans hf) Bool.false_ne_true)
    (fun seen heq => absurd heq (hdropping seen))

theorem receiverStep (h : s.Owned) (hs : s.receiverStep = some s') : s'.Owned := by
  unfold Channel.receiverStep at hs
  split at hs
  case h_1 hpc =>
    cases hs
    have hattached := h.engaged (by rw [hpc]; rfl)
    refine h.look hattached fun _ => ?_
    exact h.moveQuiet rfl rfl rfl ⟨rfl, rfl, rfl, rfl⟩ (by simp [Left, hattached])
      (fun _ => hattached) rfl (by simp)
  case h_2 hpc => cases hs; exact h.take hpc
  case h_3 hpc =>
    cases hs
    have hattached := h.engaged (by rw [hpc]; rfl)
    refine h.look hattached fun _ => ?_
    exact h.moveQuiet rfl rfl rfl ⟨rfl, rfl, rfl, rfl⟩ (by simp [Left]) (fun _ => hattached) rfl
      (by simp)
  case h_4 hpc =>
    cases hs
    have hattached := h.engaged (by rw [hpc]; rfl)
    exact h.moveQuiet rfl rfl rfl ⟨rfl, rfl, rfl, rfl⟩ (by simp [Left, pollRegister])
      (fun _ => hattached) rfl (by simp [pollRegister])
  case h_5 hpc =>
    cases hs
    have hattached := h.engaged (by rw [hpc]; rfl)
    refine h.look hattached fun _ => ?_
    exact h.moveQuiet rfl rfl rfl ⟨rfl, rfl, rfl, rfl⟩ (by simp [Left, hattached])
      (fun _ => hattached) rfl (by simp)
  case h_6 hpc =>
    cases hs
    exact h.setClosed rfl (fun _ => h.engaged (by rw [hpc]; rfl)) (by simp) (by simp)
  case h_7 hpc =>
    cases hs
    have hattached := h.engaged (by rw [hpc]; rfl)
    unfold wakeTx
    cases s.txTask <;>
      exact h.moveQuiet rfl rfl rfl ⟨rfl, rfl, rfl, rfl⟩ (by simp [Left, hattached])
        (fun _ => hattached) rfl (by simp)
  case h_8 hpc =>
    cases hs
    refine h.setClosed rfl (by simp [ReceiverPc.engaged]) (by simp) fun seen heq => ?_
    rw [ReceiverPc.dropWake.inj heq]
  case h_9 hpc => cases hs; exact h.dropWake hpc
  case h_10 hpc => cases hs; exact h.dropTake hpc
  all_goals exact absurd hs (by simp)

/-- A call of the sender begins. -/
theorem call (h : s.Owned) {e : Event α} (hpc : s.sender = .idle) (hs : s.call e = some s') :
    s'.Owned := by
  have hunsent : s.sender.unsent = true := by rw [hpc]; rfl
  have hcomplete := h.early (by rw [hpc]; rfl)
  unfold Channel.call at hs
  split at hs
  case h_1 t =>
    cases hs
    have hvalue := h.vacant hcomplete (by rw [hpc]; rfl)
    have haccount := h.account
    rw [hpc, h.unsent hunsent, hvalue] at haccount
    simp only [SenderPc.hand, Option.toList_none, List.append_nil, List.append_eq_nil_iff] at haccount
    obtain ⟨⟨hgivenBack, hreceived⟩, hdropped⟩ := haccount
    refine ⟨fun _ => hcomplete, by simp [SenderPc.wakes], by simp, by simp, by simp,
      by simp [SenderPc.holding], fun _ _ => hvalue, fun _ _ => hvalue, h.left, h.engaged, h.taking,
      h.dropping, by simp [SenderPc.unsent], ?_⟩
    simp only
    rw [hgivenBack, hreceived, hdropped, hvalue]
    rfl
  case h_2 =>
    cases hs
    exact h.moveSender rfl rfl rfl rfl ⟨rfl, rfl, rfl, rfl⟩ (by simp [SenderPc.early])
      (by simp [SenderPc.wakes]) (by simp) (by simp) (by simp) (by rw [hpc]; rfl)
      (fun _ => h.unsent hunsent) (by rw [hpc]; rfl)
  case h_3 =>
    cases hs
    exact h.movePolling hunsent rfl rfl rfl rfl rfl ⟨rfl, rfl, rfl, rfl⟩
  case h_4 => exact absurd hs (by simp)

/-- A call of the receiver begins. -/
theorem request (h : s.Owned) {e : Event α} (hpc : s.receiver = .idle) (hs : s.request e = some s') :
    s'.Owned := by
  have hgone : s.attached = false → s.Left := fun hattached => Or.inr ⟨hpc, hattached⟩
  unfold Channel.request at hs
  split at hs
  case h_1 =>
    cases hs
    cases hattached : s.attached with
    | false =>
      exact h.moveQuiet rfl rfl rfl ⟨rfl, rfl, rfl, rfl⟩ (fun _ => hgone hattached)
        (by simp [ReceiverPc.engaged]) rfl (by simp)
    | true =>
      exact h.moveQuiet rfl rfl rfl ⟨rfl, rfl, rfl, rfl⟩ (by simp [Left]) (fun _ => rfl) rfl (by simp)
  case h_2 =>
    split at hs
    · rename_i hattached
      cases hs
      exact h.moveQuiet rfl rfl rfl ⟨rfl, rfl, rfl, rfl⟩ (by simp [Left]) (fun _ => hattached) rfl
        (by simp)
    · exact absurd hs (by simp)
  case h_3 =>
    cases hs
    cases hattached : s.attached with
    | false =>
      exact h.moveQuiet rfl rfl rfl ⟨rfl, rfl, rfl, rfl⟩ (fun _ => hgone hattached)
        (by simp [ReceiverPc.engaged]) rfl (by simp)
    | true =>
      exact h.moveQuiet rfl rfl rfl ⟨rfl, rfl, rfl, rfl⟩ (by simp [Left]) (fun _ => rfl) rfl (by simp)
  case h_4 =>
    cases hs
    cases hattached : s.attached with
    | false =>
      exact h.moveQuiet rfl rfl rfl ⟨rfl, rfl, rfl, rfl⟩ (fun _ => hgone hattached)
        (by simp [ReceiverPc.engaged]) rfl (by simp)
    | true =>
      exact h.moveQuiet rfl rfl rfl ⟨rfl, rfl, rfl, rfl⟩ (by simp [Left])
        (by simp [ReceiverPc.engaged]) rfl (by simp)
  case h_5 => exact absurd hs (by simp)

theorem step (h : s.Owned) {e : Event α} (hs : OneshotStep s e s') : s'.Owned := by
  unfold OneshotStep Channel.step at hs
  split at hs
  case h_1 => exact h.senderStep hs
  case h_2 => exact h.receiverStep hs
  case h_3 hpc => cases hs; exact h.completeTurn (Or.inr ⟨_, hpc⟩)
  case h_4 | h_5 | h_6 => exact h.call (by assumption) hs
  case h_7 | h_8 | h_9 | h_10 => exact h.request (by assumption) hs
  case h_11 => exact absurd hs (by simp)

theorem new : Owned (Channel.new : Channel α) := by
  refine ⟨fun _ => rfl, by simp [Channel.new, SenderPc.wakes], by simp [Channel.new],
    by simp [Channel.new], by simp [Channel.new], by simp [Channel.new, SenderPc.holding],
    fun _ _ => rfl, fun _ _ => rfl, by simp [Channel.new, Left], fun _ => rfl,
    by simp [Channel.new, ReceiverPc.atCell], by simp [Channel.new], fun _ => rfl, rfl⟩

end Owned

/-! ## Who is woken -/

/-- Where the waker of a pending receiver is. -/
structure RxReady (s : Channel α) : Prop where
  polling : s.receiver.polling = true → s.pending = false
  recheck : s.receiver = .pollRecheck → s.state.complete = false → s.rxTask = some s.polls
  waits : s.pending = true → s.state.complete = false → s.rxTask = some s.polls
  woken : s.pending = true → s.state.complete = true →
    s.rxWoken s.polls = true ∨ s.rxTask = some s.polls ∧ s.sender.wakes = true

/-- Where the waker of a sender in `poll_closed` is. -/
structure TxReady (s : Channel α) : Prop where
  closing : s.receiver.wakes = true → s.state.closed = true
  polling : s.sender.polling = true → s.waiting = false
  recheck : s.sender = .closedRecheck → s.state.closed = false → s.txTask = some s.closedPolls
  waits : s.waiting = true → s.state.closed = false → s.txTask = some s.closedPolls
  woken : s.waiting = true → s.state.closed = true →
    s.txWoken s.closedPolls = true ∨ s.txTask = some s.closedPolls ∧ s.receiver.wakes = true

namespace RxReady

/-- A step of the sender that does not complete the channel. -/
theorem moveSender (h : s.RxReady) (hreceiver : s'.receiver = s.receiver)
    (hpending : s'.pending = s.pending) (hpolls : s'.polls = s.polls) (hrxTask : s'.rxTask = s.rxTask)
    (hrxWoken : s'.rxWoken = s.rxWoken) (hcomplete : s'.state.complete = s.state.complete)
    (hwakes : s.sender.wakes = false) : s'.RxReady := by
  have hwoken := h.woken
  rw [hwakes] at hwoken
  refine ⟨?_, ?_, ?_, ?_⟩
  · rw [hreceiver, hpending]
    exact h.polling
  · rw [hreceiver, hcomplete, hrxTask, hpolls]
    exact h.recheck
  · rw [hpending, hcomplete, hrxTask, hpolls]
    exact h.waits
  · rw [hpending, hcomplete, hrxTask, hpolls, hrxWoken]
    intro hp hc
    rcases hwoken hp hc with hw | ⟨-, hf⟩
    · exact Or.inl hw
    · exact absurd hf Bool.false_ne_true

/-- A step of the receiver outside of `poll`. -/
theorem moveReceiver (h : s.RxReady) (hpolling : s'.receiver.polling = false)
    (hpending : s'.pending = s.pending) (hpolls : s'.polls = s.polls) (hrxTask : s'.rxTask = s.rxTask)
    (hrxWoken : s'.rxWoken = s.rxWoken) (hcomplete : s'.state.complete = s.state.complete)
    (hsender : s'.sender = s.sender) : s'.RxReady := by
  refine ⟨?_, ?_, ?_, ?_⟩
  · rw [hpolling]
    exact fun hf => absurd hf Bool.false_ne_true
  · intro hpc
    rw [hpc] at hpolling
    exact absurd hpolling.symm Bool.false_ne_true
  · rw [hpending, hcomplete, hrxTask, hpolls]
    exact h.waits
  · rw [hpending, hcomplete, hrxTask, hpolls, hrxWoken, hsender]
    exact h.woken

/-- The receiver is woken for good reason. -/
theorem completeWake (h : s.RxReady) {call : Completing} (hcomplete : s.state.complete = true) :
    (s.completeWake call).RxReady := by
  have hc : (s.completeWake call).state.complete ≠ false := by
    unfold Channel.completeWake wakeRx
    cases s.rxTask <;> simp [hcomplete]
  refine ⟨?_, fun _ hf => absurd hf hc, fun _ hf => absurd hf hc, fun hp _ => Or.inl ?_⟩
  · unfold Channel.completeWake wakeRx
    cases s.rxTask <;> exact h.polling
  · unfold Channel.completeWake wakeRx at hp ⊢
    cases hrxTask : s.rxTask with
    | none =>
      rw [hrxTask] at hp
      rcases h.woken hp hcomplete with hw | ⟨hsome, -⟩
      · exact hw
      · exact absurd (hrxTask.symm.trans hsome).symm (Option.some_ne_none _)
    | some n =>
      rw [hrxTask] at hp
      by_cases hn : s.polls = n
      · subst hn
        exact Function.update_self ..
      · rcases h.woken hp hcomplete with hw | ⟨hsome, -⟩
        · exact (Function.update_of_ne hn ..).trans hw
        · exact absurd (Option.some.inj (hrxTask.symm.trans hsome)).symm hn

theorem senderStep (h : s.RxReady) (howned : s.Owned) (hs : s.senderStep = some s') :
    s'.RxReady := by
  have hturn : ∀ call seen, s.sender.wakes = false → (s.completeTurn call seen).RxReady :=
    fun _ _ hwakes => h.moveSender rfl rfl rfl rfl rfl rfl hwakes
  unfold Channel.senderStep at hs
  split at hs
  case h_2 hpc => cases hs; exact hturn _ _ (by rw [hpc]; rfl)
  case h_3 call seen hpc =>
    cases hs
    unfold Channel.exchange
    split
    · refine ⟨h.polling, ?_, ?_, fun hp _ => Or.inr ⟨?_, rfl⟩⟩
      · simp
      · simp
      · exact h.waits hp (howned.early (by rw [hpc]; rfl))
    · exact hturn _ _ (by rw [hpc]; rfl)
  case h_4 hpc => cases hs; exact h.completeWake (howned.wakes (by rw [hpc]; rfl))
  case h_5 hpc =>
    cases hs
    unfold Channel.takeBack
    split <;> exact h.moveSender rfl rfl rfl rfl rfl rfl (by rw [hpc]; rfl)
  case h_10 | h_11 | h_12 => exact absurd hs (by simp)
  all_goals
    rename_i hpc
    cases hs
    exact h.moveSender rfl rfl rfl rfl rfl rfl (by rw [hpc]; rfl)

theorem look (h : s.RxReady) {other : Channel α}
    (hother : s.state.complete = false → other.RxReady) : (s.look other).RxReady := by
  unfold Channel.look
  split
  · exact h.moveReceiver rfl rfl rfl rfl rfl rfl rfl
  · rename_i hcomplete
    split
    · exact h.moveReceiver rfl rfl rfl rfl rfl rfl rfl
    · exact hother (Bool.eq_false_iff.mpr hcomplete)

theorem receiverStep (h : s.RxReady) (hs : s.receiverStep = some s') : s'.RxReady := by
  unfold Channel.receiverStep at hs
  split at hs
  case h_1 hpc => cases hs; exact h.look fun _ => h.moveReceiver rfl rfl rfl rfl rfl rfl rfl
  case h_3 hpc =>
    cases hs
    refine h.look fun _ => ⟨fun _ => h.polling (by rw [hpc]; rfl), by simp, h.waits, h.woken⟩
  case h_4 hpc =>
    cases hs
    have hpending := h.polling (by rw [hpc]; rfl)
    refine ⟨fun _ => hpending, fun _ _ => rfl, fun _ _ => rfl, fun hp => ?_⟩
    exact absurd (hpending.symm.trans hp) Bool.false_ne_true
  case h_5 hpc =>
    cases hs
    refine h.look fun hcomplete => ⟨by simp [ReceiverPc.polling], by simp,
      fun _ _ => h.recheck hpc hcomplete, fun _ hc => ?_⟩
    exact absurd (hcomplete.symm.trans hc) Bool.false_ne_true
  case h_7 hpc =>
    cases hs
    unfold wakeTx
    cases s.txTask <;> exact h.moveReceiver rfl rfl rfl rfl rfl rfl rfl
  case h_9 seen hpc =>
    cases hs
    unfold Channel.dropWake wakeTx
    cases seen.complete <;> cases s.txTask <;> exact h.moveReceiver rfl rfl rfl rfl rfl rfl rfl
  case h_11 | h_12 => exact absurd hs (by simp)
  all_goals
    cases hs
    exact h.moveReceiver rfl rfl rfl rfl rfl rfl rfl

theorem step (h : s.RxReady) (howned : s.Owned) {e : Event α} (hs : OneshotStep s e s') :
    s'.RxReady := by
  unfold OneshotStep Channel.step at hs
  split at hs
  case h_1 => exact h.senderStep howned hs
  case h_2 => exact h.receiverStep hs
  case h_3 hpc =>
    cases hs
    exact h.moveSender rfl rfl rfl rfl rfl rfl (by rw [hpc]; rfl)
  case h_4 | h_5 | h_6 =>
    have hwakes : s.sender.wakes = false := by
      rw [show s.sender = .idle by assumption]
      rfl
    cases hs
    exact h.moveSender rfl rfl rfl rfl rfl rfl hwakes
  case h_8 =>
    unfold Channel.request at hs
    simp only at hs
    split at hs
    · cases hs
      refine ⟨fun _ => rfl, by simp, ?_, ?_⟩
      · exact fun hf => absurd hf Bool.false_ne_true
      · exact fun hf => absurd hf Bool.false_ne_true
    · exact absurd hs (by simp)
  case h_7 | h_9 | h_10 =>
    cases hs
    refine h.moveReceiver ?_ rfl rfl rfl rfl rfl rfl
    simp only
    split <;> rfl
  case h_11 => exact absurd hs (by simp)

theorem new : RxReady (Channel.new : Channel α) :=
  ⟨fun _ => rfl, by simp [Channel.new], fun hf => absurd hf Bool.false_ne_true,
    fun hf => absurd hf Bool.false_ne_true⟩

end RxReady

namespace TxReady

/-- A step of the receiver that neither closes the channel nor wakes the sender. -/
theorem moveReceiver (h : s.TxReady) (hsender : s'.sender = s.sender)
    (hwaiting : s'.waiting = s.waiting) (hpolls : s'.closedPolls = s.closedPolls)
    (htxTask : s'.txTask = s.txTask) (htxWoken : s'.txWoken = s.txWoken)
    (hclosed : s'.state.closed = s.state.closed) (hwakes : s.receiver.wakes = false)
    (hwakes' : s'.receiver.wakes = false) : s'.TxReady := by
  have hwoken := h.woken
  rw [hwakes] at hwoken
  refine ⟨?_, ?_, ?_, ?_, ?_⟩
  · rw [hwakes']
    exact fun hf => absurd hf Bool.false_ne_true
  · rw [hsender, hwaiting]
    exact h.polling
  · rw [hsender, hclosed, htxTask, hpolls]
    exact h.recheck
  · rw [hwaiting, hclosed, htxTask, hpolls]
    exact h.waits
  · rw [hwaiting, hclosed, htxWoken, hpolls]
    intro hw hc
    rcases hwoken hw hc with hw | ⟨-, hf⟩
    · exact Or.inl hw
    · exact absurd hf Bool.false_ne_true

/-- A step of the sender outside of `poll_closed`. -/
theorem moveSender (h : s.TxReady) (hpolling : s'.sender.polling = false)
    (hwaiting : s'.waiting = s.waiting) (hpolls : s'.closedPolls = s.closedPolls)
    (htxTask : s'.txTask = s.txTask) (htxWoken : s'.txWoken = s.txWoken)
    (hclosed : s'.state.closed = s.state.closed) (hreceiver : s'.receiver = s.receiver) :
    s'.TxReady := by
  refine ⟨?_, ?_, ?_, ?_, ?_⟩
  · rw [hreceiver, hclosed]
    exact h.closing
  · rw [hpolling]
    exact fun hf => absurd hf Bool.false_ne_true
  · intro hpc
    rw [hpc] at hpolling
    exact absurd hpolling.symm Bool.false_ne_true
  · rw [hwaiting, hclosed, htxTask, hpolls]
    exact h.waits
  · rw [hwaiting, hclosed, htxWoken, hpolls, htxTask, hreceiver]
    exact h.woken

/-- The channel is closed, and the sender about to be woken. -/
theorem setClosed (h : s.TxReady) {pc : ReceiverPc} (hpc : pc.wakes = true) :
    (s.setClosed pc).TxReady := by
  refine ⟨fun _ => rfl, h.polling, fun _ hc => absurd hc.symm Bool.false_ne_true,
    fun _ hc => absurd hc.symm Bool.false_ne_true, fun hw _ => ?_⟩
  cases hclosed : s.state.closed with
  | false => exact Or.inr ⟨h.waits hw hclosed, hpc⟩
  | true =>
    rcases h.woken hw hclosed with hwoken | ⟨htask, -⟩
    · exact Or.inl hwoken
    · exact Or.inr ⟨htask, hpc⟩

/-- The sender is woken. -/
theorem wake (h : s.TxReady) (hpc : s.receiver.wakes = true) (pc : ReceiverPc) :
    TxReady { s.wakeTx with receiver := pc } := by
  have hclosed := h.closing hpc
  unfold wakeTx
  cases htxTask : s.txTask with
  | none =>
    refine ⟨fun _ => hclosed, h.polling, fun _ hc => ?_, fun _ hc => ?_, fun hw _ => ?_⟩
    · exact absurd (hc.symm.trans hclosed) Bool.false_ne_true
    · exact absurd (hc.symm.trans hclosed) Bool.false_ne_true
    · rcases h.woken hw hclosed with hwoken | ⟨hsome, -⟩
      · exact Or.inl hwoken
      · exact absurd (htxTask.symm.trans hsome).symm (Option.some_ne_none _)
  | some n =>
    refine ⟨fun _ => hclosed, h.polling, fun _ hc => ?_, fun _ hc => ?_, fun hw _ => Or.inl ?_⟩
    · exact absurd (hc.symm.trans hclosed) Bool.false_ne_true
    · exact absurd (hc.symm.trans hclosed) Bool.false_ne_true
    · by_cases hn : s.closedPolls = n
      · subst hn
        exact Function.update_self ..
      · rcases h.woken hw hclosed with hwoken | ⟨hsome, -⟩
        · exact (Function.update_of_ne hn ..).trans hwoken
        · exact absurd (Option.some.inj (htxTask.symm.trans hsome)).symm hn

theorem senderStep (h : s.TxReady) (hs : s.senderStep = some s') : s'.TxReady := by
  have hturn : ∀ call seen, (s.completeTurn call seen).TxReady := by
    intro call seen
    refine h.moveSender ?_ rfl rfl rfl rfl rfl rfl
    unfold Channel.completeTurn
    cases seen.closed <;> cases call <;> rfl
  unfold Channel.senderStep at hs
  split at hs
  case h_2 => cases hs; exact hturn _ _
  case h_3 call seen hpc =>
    cases hs
    unfold Channel.exchange
    split
    · rename_i hstate
      exact h.moveSender rfl rfl rfl rfl rfl (congrArg StateVal.closed hstate).symm rfl
    · exact hturn _ _
  case h_4 call hpc =>
    cases hs
    unfold Channel.completeWake wakeRx
    cases call <;> cases s.rxTask <;> exact h.moveSender rfl rfl rfl rfl rfl rfl rfl
  case h_5 hpc =>
    cases hs
    unfold Channel.takeBack
    split <;> exact h.moveSender rfl rfl rfl rfl rfl rfl rfl
  case h_6 hpc =>
    cases hs
    refine h.moveSender ?_ rfl rfl rfl rfl rfl rfl
    unfold Channel.dropLoad
    cases s.state.complete <;> rfl
  case h_7 hpc =>
    cases hs
    refine ⟨h.closing, fun _ => h.polling (by rw [hpc]; rfl), fun heq => ?_, h.waits, h.woken⟩
    unfold Channel.closedLoad at heq
    simp only at heq
    split at heq <;> exact absurd heq (by simp)
  case h_8 hpc =>
    cases hs
    have hwaiting := h.polling (by rw [hpc]; rfl)
    refine ⟨h.closing, fun _ => hwaiting, fun _ _ => rfl, fun _ _ => rfl, fun hw => ?_⟩
    exact absurd (hwaiting.symm.trans hw) Bool.false_ne_true
  case h_9 hpc =>
    cases hs
    refine ⟨h.closing, fun hf => absurd hf Bool.false_ne_true, by simp [Channel.closedRecheck],
      fun _ hc => h.recheck hpc hc, fun hw hc => ?_⟩
    have hopen : s.state.closed = false := by simpa [Channel.closedRecheck] using hw
    exact absurd (hopen.symm.trans hc) Bool.false_ne_true
  case h_10 | h_11 | h_12 => exact absurd hs (by simp)
  case h_1 =>
    cases hs
    exact h.moveSender rfl rfl rfl rfl rfl rfl rfl

theorem look (h : s.TxReady) {other : Channel α} (hwakes : s.receiver.wakes = false)
    (hother : other.TxReady) : (s.look other).TxReady := by
  unfold Channel.look
  split
  · exact h.moveReceiver rfl rfl rfl rfl rfl rfl hwakes rfl
  · split
    · exact h.moveReceiver rfl rfl rfl rfl rfl rfl hwakes rfl
    · exact hother

theorem receiverStep (h : s.TxReady) (hs : s.receiverStep = some s') : s'.TxReady := by
  unfold Channel.receiverStep at hs
  split at hs
  case h_1 hpc | h_3 hpc | h_5 hpc =>
    cases hs
    have hwakes : s.receiver.wakes = false := by
      rw [hpc]
      rfl
    exact h.look hwakes (h.moveReceiver rfl rfl rfl rfl rfl rfl hwakes rfl)
  case h_6 | h_8 => cases hs; exact h.setClosed rfl
  case h_7 hpc => cases hs; exact h.wake (by rw [hpc]; rfl) _
  case h_9 hpc => cases hs; exact h.wake (by rw [hpc]; rfl) _
  case h_11 | h_12 => exact absurd hs (by simp)
  all_goals
    rename_i hpc
    cases hs
    exact h.moveReceiver rfl rfl rfl rfl rfl rfl (by rw [hpc]; rfl) rfl

theorem step (h : s.TxReady) {e : Event α} (hs : OneshotStep s e s') : s'.TxReady := by
  unfold OneshotStep Channel.step at hs
  split at hs
  case h_1 => exact h.senderStep hs
  case h_2 => exact h.receiverStep hs
  case h_3 call seen hpc =>
    cases hs
    refine h.moveSender ?_ rfl rfl rfl rfl rfl rfl
    unfold Channel.completeTurn
    cases s.state.closed <;> cases call <;> rfl
  case h_4 | h_5 | h_6 =>
    cases hs
    exact ⟨h.closing, fun _ => rfl, by simp, fun hf => absurd hf Bool.false_ne_true,
      fun hf => absurd hf Bool.false_ne_true⟩
  case h_7 | h_8 | h_9 | h_10 =>
    have hwakes : s.receiver.wakes = false := by
      rw [show s.receiver = .idle by assumption]
      rfl
    unfold Channel.request at hs
    cases hattached : s.attached <;> simp only [hattached] at hs <;> cases hs <;>
      exact h.moveReceiver rfl rfl rfl rfl rfl rfl hwakes rfl
  case h_11 => exact absurd hs (by simp)

theorem new : TxReady (Channel.new : Channel α) :=
  ⟨fun hf => absurd hf Bool.false_ne_true, fun _ => rfl, by simp [Channel.new],
    fun hf => absurd hf Bool.false_ne_true, fun hf => absurd hf Bool.false_ne_true⟩

end TxReady

/-- The invariant. -/
structure Inv (s : Channel α) : Prop where
  owned : s.Owned
  rx : s.RxReady
  tx : s.TxReady

/-! ## Soundness -/

/-- What the channel promises in every state. -/
structure Sound (s : Channel α) : Prop where
  /-- The value is with one owner at most, and in the end with exactly one. -/
  owner : (s.givenBack ++ s.received ++ s.dropped).length ≤ s.sent.toList.length
  fate : s.sender = .gone → s.receiver = .gone →
    s.givenBack ++ s.received ++ s.dropped = s.sent.toList
  unwrap : s.sender ≠ .panicked
  apart : s.sender.atCell = true → s.receiver.atCell = false
  /-- When the sender is gone the receiver has been woken, unless it had closed the channel
  before that. -/
  rxWoken : s.pending = true → s.sender = .gone →
    s.rxWoken s.polls = true ∨ s.state.closed = true ∧ s.state.complete = false
  txWoken : s.waiting = true → s.state.closed = true → s.receiver.wakes = false →
    s.txWoken s.closedPolls = true

theorem Inv.sound (hinv : s.Inv) : s.Sound := by
  obtain ⟨h, hrx, htx⟩ := hinv
  refine ⟨?_, fun hsender hreceiver => ?_, h.panicked, fun hat => ?_, fun hpending hgone => ?_,
    fun hwaiting hclosed hwakes => ?_⟩
  · have hlength := congrArg List.length h.account
    rw [List.length_append] at hlength
    omega
  · have hvalue : s.value = none := by
      cases hcomplete : s.state.complete with
      | false => exact h.vacant hcomplete (by rw [hsender]; rfl)
      | true => exact h.consumed hcomplete (Or.inl hreceiver)
    have haccount := h.account
    rw [hsender, hvalue] at haccount
    simpa [SenderPc.hand] using haccount
  · have hcomplete : s.state.complete = false := by
      refine h.early ?_
      revert hat
      cases s.sender <;> simp [SenderPc.atCell, SenderPc.early]
    rw [Bool.eq_false_iff]
    exact fun hat' => absurd (hcomplete.symm.trans (h.taking hat')) Bool.false_ne_true
  · cases hcomplete : s.state.complete with
    | false =>
      rcases h.ended hgone with hc | hc
      · exact absurd (hcomplete.symm.trans hc) Bool.false_ne_true
      · exact Or.inr ⟨hc, rfl⟩
    | true =>
      rcases hrx.woken hpending hcomplete with hwoken | ⟨-, hf⟩
      · exact Or.inl hwoken
      · rw [hgone] at hf
        exact absurd hf Bool.false_ne_true
  · rcases htx.woken hwaiting hclosed with hwoken | ⟨-, hf⟩
    · exact hwoken
    · exact absurd (hwakes.symm.trans hf) Bool.false_ne_true

end Channel

/-- In every run of the two ends of a oneshot channel. -/
theorem oneshot_sound {s : Channel α} (hrun : Run OneshotStep Always (fun s => s = .new) s) :
    s.Sound := by
  have h : s.Inv := by
    refine hrun.invariant ?_ fun s e s' h _ hs =>
      ⟨h.owned.step hs, h.rx.step h.owned hs, h.tx.step hs⟩
    rintro _ rfl
    exact ⟨Channel.Owned.new, Channel.RxReady.new, Channel.TxReady.new⟩
  exact h.sound

/-! ## Two runs -/

/-- A value is sent while the receiver waits for it, which then takes it. -/
def delivered : List (Event Nat) :=
  ([.poll, .receiver, .receiver, .receiver, .send 7] : List (Event Nat)) ++
    List.replicate 5 .sender ++ ([.poll, .receiver, .receiver, .dropReceiver] : List (Event Nat))

def deliveredChannel : Channel Nat :=
  (replay Channel.step (fun _ _ => true) Channel.new delivered).get (by decide +kernel)

theorem oneshot_sound_delivered :
    deliveredChannel.sender = .gone ∧ deliveredChannel.receiver = .gone ∧
      deliveredChannel.received = [7] ∧ deliveredChannel.rxWoken 1 = true ∧
      deliveredChannel.Sound := by
  have hstart : Run OneshotStep Always (fun s => s = .new) (Channel.new : Channel Nat) :=
    Run.start rfl
  have hrun : Run OneshotStep Always (fun s => s = .new) deliveredChannel :=
    hstart.replay (fun _ _ _ h => h) (fun _ _ _ => trivial) (Option.some_get _).symm
  exact ⟨by decide +kernel, by decide +kernel, by decide +kernel, by decide +kernel,
    oneshot_sound hrun⟩

/-- The receiver closes the channel after a poll that returned `Pending`; the drop of the
sender wakes nobody. -/
def closedWhilePending : List (Event Nat) :=
  [.poll, .receiver, .receiver, .receiver, .close, .receiver, .receiver, .dropSender, .sender,
    .sender]

def closedWhilePendingChannel : Channel Nat :=
  (replay Channel.step (fun _ _ => true) Channel.new closedWhilePending).get (by decide +kernel)

theorem oneshot_leaves_closed_receiver :
    ¬ ∀ s : Channel Nat, Run OneshotStep Always (fun s => s = .new) s → s.pending = true →
      s.sender = .gone → s.rxWoken s.polls = true := by
  intro hall
  have hstart : Run OneshotStep Always (fun s => s = .new) (Channel.new : Channel Nat) :=
    Run.start rfl
  have hrun : Run OneshotStep Always (fun s => s = .new) closedWhilePendingChannel :=
    hstart.replay (fun _ _ _ h => h) (fun _ _ _ => trivial) (Option.some_get _).symm
  have hpending : closedWhilePendingChannel.pending = true := by decide +kernel
  have hgone : closedWhilePendingChannel.sender = .gone := by decide +kernel
  have hwoken : closedWhilePendingChannel.rxWoken closedWhilePendingChannel.polls = false := by
    decide +kernel
  exact absurd (hwoken.symm.trans (hall _ hrun hpending hgone)) Bool.false_ne_true

end Veloq.Sync.Oneshot
