import Veloq.Blocking.Mpsc
set_option autoImplicit false

/-!
# Blocking: the channel whose receiver parks delivers everything

What was pushed is what was received, followed by the queue.  The counter of senders is the
number of handles.  Once the receiver has published its thread, either the thread is still
published or an unpark of it has happened or is on its way; what the receiver has then checked
cannot turn without a handle that is going to take the thread.
-/

namespace Veloq.Blocking

open Veloq.Foundation

variable {α : Type}

namespace ReceiverPc

/-- The receiver has seen that no sender is left. -/
def ended : ReceiverPc → Bool
  | popAgain _ | retractLast _ => true
  | _ => false

/-- The thread may be published. -/
def publishing : ReceiverPc → Bool
  | checkQueue _ | retract _ | checkSenders _ | retractLast _ | park _ | parked _ | clear _ => true
  | _ => false

/-- The thread was published and not taken back. -/
def published : ReceiverPc → Bool
  | checkQueue _ | checkSenders _ | park _ | parked _ => true
  | _ => false

/-- And the queue was empty after that. -/
def checkedQueue : ReceiverPc → Bool
  | checkSenders _ | park _ | parked _ => true
  | _ => false

/-- And there was a sender left after that. -/
def checkedSenders : ReceiverPc → Bool
  | park _ | parked _ => true
  | _ => false

theorem published_of_checkedQueue {pc : ReceiverPc} (h : pc.checkedQueue = true) :
    pc.published = true := by
  cases pc with
  | checkSenders | park | parked => rfl
  | idle | pop | load | popAgain | publish | checkQueue | retract | retractLast | clear
  | gone => cases h

theorem checkedQueue_of_checkedSenders {pc : ReceiverPc} (h : pc.checkedSenders = true) :
    pc.checkedQueue = true := by
  cases pc with
  | park | parked => rfl
  | idle | pop | load | popAgain | publish | checkQueue | retract | checkSenders | retractLast
  | clear | gone => cases h

end ReceiverPc

namespace Shared

variable {s s' : Shared α} {f : Nat} {pc : HandlePc α}

/-! ## What was sent and received -/

/-- The records agree with each other and with the queue. -/
structure History (s : Shared α) : Prop where
  fifo : s.pushed = s.received ++ s.queue
  sent : ∀ f, s.pushed.filter (·.1 = f) =
    s.accepted.filter (·.1 = f) ++ (s.handles f).unfinished.map (f, ·)

/-- Nothing is pushed, popped or accepted. -/
theorem History.keep (h : s.History) (hqueue : s'.queue = s.queue) (hpushed : s'.pushed = s.pushed)
    (hreceived : s'.received = s.received) (haccepted : s'.accepted = s.accepted)
    (hunfinished : ∀ f, (s'.handles f).unfinished = (s.handles f).unfinished) : s'.History := by
  refine ⟨by rw [hpushed, hreceived, hqueue]; exact h.fifo, fun f => ?_⟩
  rw [hpushed, haccepted, hunfinished]
  exact h.sent f

theorem goto_self (s : Shared α) (f : Nat) (pc : HandlePc α) : (s.goto f pc).handles f = pc :=
  Function.update_self ..

theorem goto_of_ne {g : Nat} (hg : g ≠ f) : (s.goto f pc).handles g = s.handles g :=
  Function.update_of_ne hg ..

/-- What holds of every handle but one, and of that one's new place. -/
theorem goto_forall {p : Nat → HandlePc α → Prop} (hself : p f pc)
    (hother : ∀ g, g ≠ f → p g (s.handles g)) (g : Nat) : p g ((s.goto f pc).handles g) := by
  by_cases hg : g = f
  · rw [hg, goto_self]
    exact hself
  · rw [goto_of_ne hg]
    exact hother g hg

theorem History.goto (h : s.History) (hpc : pc.unfinished = (s.handles f).unfinished) :
    (s.goto f pc).History :=
  h.keep rfl rfl rfl rfl (goto_forall (p := fun g q => q.unfinished = (s.handles g).unfinished) hpc
    fun _ _ => rfl)

theorem History.push (h : s.History) {value : α} (hpc : s.handles f = .push value) :
    History { s.goto f (.take value) with
      queue := s.queue ++ [(f, value)], pushed := s.pushed ++ [(f, value)] } := by
  refine ⟨?_, goto_forall (p := fun g q => (s.pushed ++ [(f, value)]).filter (·.1 = g) =
    s.accepted.filter (·.1 = g) ++ q.unfinished.map (g, ·)) ?_ fun g hg => ?_⟩
  · show s.pushed ++ [(f, value)] = s.received ++ (s.queue ++ [(f, value)])
    rw [h.fifo, List.append_assoc]
  · have hsent := h.sent f
    rw [hpc] at hsent
    rw [List.filter_append, hsent]
    simp [HandlePc.unfinished]
  · rw [List.filter_append, h.sent g]
    simp [Ne.symm hg]

theorem History.sent_ok (h : s.History) {value : α} (hpc : (s.handles f).unfinished = [value]) :
    (s.sent f value).History := by
  refine ⟨h.fifo, goto_forall (p := fun g q => s.pushed.filter (·.1 = g) =
    (s.accepted ++ [(f, value)]).filter (·.1 = g) ++ q.unfinished.map (g, ·)) ?_ fun g hg => ?_⟩
  · rw [h.sent f, hpc, List.filter_append]
    simp [HandlePc.unfinished]
  · rw [h.sent g, List.filter_append]
    simp [Ne.symm hg]

/-- The front of the queue is received. -/
theorem History.pop (h : s.History) {entry : Nat × α} {rest : List (Nat × α)}
    (hqueue : s.queue = entry :: rest) (hrest : s'.queue = rest) (hpushed : s'.pushed = s.pushed)
    (hreceived : s'.received = s.received ++ [entry]) (haccepted : s'.accepted = s.accepted)
    (hhandles : s'.handles = s.handles) : s'.History := by
  refine ⟨?_, fun f => ?_⟩
  · rw [hpushed, hreceived, hrest, h.fifo, hqueue, List.append_assoc]
    rfl
  · rw [hpushed, haccepted, hhandles]
    exact h.sent f

/-! ## Who is left -/

/-- The counter is the number of handles, and the end is seen only when it is 0. -/
structure Ends (s : Shared α) : Prop where
  census : Census (fun f => (s.handles f).alive = true) s.senders
  ended : s.receiver.ended = true → s.senders = 0
  result : s.result = some .disconnected → s.senders = 0 ∧ s.queue = []

theorem Ends.senders_pos (h : s.Ends) (hf : (s.handles f).alive = true) : 0 < s.senders :=
  h.census.pos hf

/-- As long as there is a handle nothing is over, so one may come or go. -/
theorem Ends.update (h : s.Ends) {g : Nat} (hf : (s.handles f).alive = true)
    (hhandles : s'.handles = Function.update s.handles g pc)
    (hcount : s'.senders + (s.handles g).alive.toNat = s.senders + pc.alive.toNat)
    (hreceiver : s'.receiver = s.receiver) (hresult : s'.result = s.result) : s'.Ends := by
  have hpos := h.senders_pos hf
  obtain ⟨m, hm, hsum⟩ := h.census.update g pc
  have hsenders : s'.senders = m := by omega
  refine ⟨?_, fun ho => ?_, fun hr => ?_⟩
  · rw [hsenders, hhandles]
    exact hm
  · rw [hreceiver] at ho
    have hzero := h.ended ho
    omega
  · rw [hresult] at hr
    have hzero := (h.result hr).1
    omega

theorem Ends.keep (h : s.Ends) (hhandles : ∀ f, (s'.handles f).alive = (s.handles f).alive)
    (hsenders : s'.senders = s.senders) (hover : s'.receiver.ended = true → s.senders = 0)
    (hresult : s'.result = some .disconnected → s.senders = 0 ∧ s'.queue = []) : s'.Ends := by
  refine ⟨?_, fun ho => hsenders.trans (hover ho),
    fun hr => ⟨hsenders.trans (hresult hr).1, (hresult hr).2⟩⟩
  rw [hsenders]
  exact h.census.congr fun f => by rw [hhandles]

/-- A dropped handle goes on. -/
theorem Ends.gone (h : s.Ends) (hf : (s.handles f).alive = false) (hpc : pc.alive = false)
    (hhandles : s'.handles = Function.update s.handles f pc) (hsenders : s'.senders = s.senders)
    (hreceiver : s'.receiver = s.receiver) (hresult : s'.result = s.result)
    (hqueue : s'.queue = s.queue) : s'.Ends := by
  refine h.keep (fun g => ?_) hsenders (fun ho => ?_) fun hr => ?_
  · rw [hhandles]
    exact goto_forall (s := s) (p := fun g q => q.alive = (s.handles g).alive) (hpc.trans hf.symm)
      (fun _ _ => rfl) g
  · rw [hreceiver] at ho
    exact h.ended ho
  · rw [hresult] at hr
    rw [hqueue]
    exact h.result hr

theorem Ends.none_alive (h : s.Ends) (hsenders : s.senders = 0) (f : Nat) :
    (s.handles f).alive = false := by
  rw [Bool.eq_false_iff]
  intro hf
  have hpos := h.senders_pos hf
  omega

/-! ## Who wakes the receiver -/

/-- The receiver's thread has a token, or a handle is going to set it. -/
def Coming (s : Shared α) : Prop :=
  s.tokens s.thread = true ∨ ∃ f, (s.handles f).unparks s.thread = true

/-- Or a handle is going to take the thread. -/
def Served (s : Shared α) : Prop := s.Coming ∨ ∃ f, (s.handles f).takes = true

/-- What the receiver has published and checked. -/
structure Wake (s : Shared α) : Prop where
  blocked : ∀ x, s.blockedThread = some x → x = s.thread ∧ s.receiver.publishing = true
  published : s.receiver.published = true → s.Coming ∨ s.blockedThread = some s.thread
  queue : s.receiver.checkedQueue = true → s.queue ≠ [] → s.Served
  senders : s.receiver.checkedSenders = true → s.senders = 0 → s.Served

/-- Nothing is published, but the thread may not have been taken back. -/
theorem Wake.quiet (h : s.receiver.published = false)
    (hblocked : ∀ x, s.blockedThread = some x → x = s.thread ∧ s.receiver.publishing = true) :
    s.Wake := by
  have hnot : ¬ s.receiver.published = true := Bool.eq_false_iff.mp h
  exact ⟨hblocked, fun hp => absurd hp hnot,
    fun hq => absurd (ReceiverPc.published_of_checkedQueue hq) hnot,
    fun hc => absurd (ReceiverPc.published_of_checkedQueue
      (ReceiverPc.checkedQueue_of_checkedSenders hc)) hnot⟩

theorem Wake.taken (hblocked : s.blockedThread = none)
    (hcoming : s.receiver.published = true → s.Coming) : s.Wake := by
  refine ⟨fun x hx => ?_, fun hp => .inl (hcoming hp),
    fun hq _ => .inl (hcoming (ReceiverPc.published_of_checkedQueue hq)),
    fun hc _ => .inl (hcoming (ReceiverPc.published_of_checkedQueue
      (ReceiverPc.checkedQueue_of_checkedSenders hc)))⟩
  rw [hblocked] at hx
  cases hx

/-- The receiver stays where it is, and whoever is going to wake it still is. -/
theorem Wake.keep (h : s.Wake) (hreceiver : s'.receiver = s.receiver)
    (hthread : s'.thread = s.thread) (hblocked : s'.blockedThread = s.blockedThread)
    (hcoming : s.receiver.published = true → s.Coming → s'.Coming)
    (htakes : (∃ f, (s.handles f).takes = true) → ∃ f, (s'.handles f).takes = true)
    (hqueue : s'.queue = s.queue ∨ ∃ f, (s'.handles f).takes = true)
    (hsenders : s'.senders = 0 → s.senders = 0 ∨ ∃ f, (s'.handles f).takes = true) :
    s'.Wake := by
  have hserved : s.receiver.published = true → s.Served → s'.Served :=
    fun hp => Or.imp (hcoming hp) htakes
  refine ⟨?_, fun hp => ?_, fun hq hne => ?_, fun hc hzero => ?_⟩
  · rw [hblocked, hthread, hreceiver]
    exact h.blocked
  · rw [hreceiver] at hp
    rw [hblocked, hthread]
    exact (h.published hp).imp_left (hcoming hp)
  · rw [hreceiver] at hq
    rcases hqueue with hsame | hnew
    · rw [hsame] at hne
      exact hserved (ReceiverPc.published_of_checkedQueue hq) (h.queue hq hne)
    · exact .inr hnew
  · rw [hreceiver] at hc
    rcases hsenders hzero with hold | hnew
    · exact hserved (ReceiverPc.published_of_checkedQueue
        (ReceiverPc.checkedQueue_of_checkedSenders hc)) (h.senders hc hold)
    · exact .inr hnew

theorem coming_of_unparks (hf : (s.handles f).unparks s.thread = true) : s.Coming :=
  .inr ⟨f, hf⟩

/-- A handle that is not about to unpark goes on. -/
theorem Coming.update (h : s.Coming) (hf : (s.handles f).unparks s.thread = false)
    (hhandles : s'.handles = Function.update s.handles f pc) (hthread : s'.thread = s.thread)
    (htokens : s'.tokens = s.tokens) : s'.Coming := by
  unfold Coming
  rw [htokens, hthread, hhandles]
  refine Or.imp_right ?_ h
  rintro ⟨g, hg⟩
  refine ⟨g, ?_⟩
  rw [Function.update_of_ne]
  · exact hg
  · rintro rfl
    rw [hf] at hg
    cases hg

/-- A handle sets the token of a thread. -/
theorem Coming.unpark (h : s.Coming) {t : Nat}
    (hf : ∀ u, (s.handles f).unparks u = true → u = t)
    (hhandles : s'.handles = Function.update s.handles f pc) (hthread : s'.thread = s.thread)
    (htokens : s'.tokens = Function.update s.tokens t true) : s'.Coming := by
  unfold Coming
  rw [htokens, hthread, hhandles]
  by_cases hthis : s.thread = t
  · rw [hthis, Function.update_self]
    exact .inl rfl
  · rw [Function.update_of_ne hthis]
    refine Or.imp_right ?_ h
    rintro ⟨g, hg⟩
    refine ⟨g, ?_⟩
    rw [Function.update_of_ne]
    · exact hg
    · rintro rfl
      exact hthis (hf _ hg)

theorem takes_update (hf : (s.handles f).takes = false)
    (hhandles : s'.handles = Function.update s.handles f pc)
    (h : ∃ g, (s.handles g).takes = true) : ∃ g, (s'.handles g).takes = true := by
  obtain ⟨g, hg⟩ := h
  refine ⟨g, ?_⟩
  rw [hhandles, Function.update_of_ne]
  · exact hg
  · rintro rfl
    rw [hf] at hg
    cases hg

/-! ## The steps of a handle -/

/-- Everything there is to know of a state. -/
structure Live (s : Shared α) : Prop where
  history : s.History
  ends : s.Ends
  wake : s.Wake

/-- A handle moves and neither takes the thread nor sets its token. -/
theorem Live.goto (h : s.Live) {g : Nat} (hf : (s.handles f).alive = true)
    (hunfinished : (s.handles g).unfinished = [] ∧ pc.unfinished = [])
    (hsilent : (s.handles g).takes = false ∧ ∀ u, (s.handles g).unparks u = false)
    (hhandles : s'.handles = Function.update s.handles g pc)
    (hcount : s'.senders + (s.handles g).alive.toNat = s.senders + pc.alive.toNat)
    (hsenders : s'.senders = 0 → pc.takes = true)
    (hsame : s'.queue = s.queue ∧ s'.pushed = s.pushed ∧ s'.received = s.received ∧
      s'.accepted = s.accepted ∧ s'.receiver = s.receiver ∧ s'.result = s.result ∧
      s'.thread = s.thread ∧ s'.tokens = s.tokens ∧ s'.blockedThread = s.blockedThread) :
    s'.Live := by
  obtain ⟨hqueue, hpushed, hreceived, haccepted, hreceiver, hresult, hthread, htokens, hblocked⟩ :=
    hsame
  refine ⟨h.history.keep hqueue hpushed hreceived haccepted fun x => ?_,
    h.ends.update hf hhandles hcount hreceiver hresult,
    h.wake.keep hreceiver hthread hblocked
      (fun _ hc => hc.update (hsilent.2 _) hhandles hthread htokens)
      (takes_update hsilent.1 hhandles) (.inl hqueue) fun hzero => .inr ⟨g, ?_⟩⟩
  · rw [hhandles]
    exact goto_forall (s := s) (p := fun g q => q.unfinished = (s.handles g).unfinished)
      (hunfinished.2.trans hunfinished.1.symm) (fun _ _ => rfl) x
  · rw [hhandles, Function.update_self]
    exact hsenders hzero

/-- A handle takes the thread, and is going to unpark it. -/
theorem Wake.take (h : s.Wake) {t : Nat} (hblocked : s.blockedThread = some t)
    (hpc : pc.unparks t = true) (hhandles : s'.handles = Function.update s.handles f pc)
    (hthread : s'.thread = s.thread) (hnone : s'.blockedThread = none) : s'.Wake := by
  refine Wake.taken hnone fun _ => coming_of_unparks (f := f) ?_
  rw [hhandles, Function.update_self, hthread, ← (h.blocked t hblocked).1]
  exact hpc

/-- There was no thread to take: if the receiver has published one, it was taken. -/
theorem Wake.takeNone (h : s.Wake) (hblocked : s.blockedThread = none)
    (hf : (s.handles f).unparks s.thread = false)
    (hhandles : s'.handles = Function.update s.handles f pc) (hreceiver : s'.receiver = s.receiver)
    (hthread : s'.thread = s.thread) (htokens : s'.tokens = s.tokens)
    (hnone : s'.blockedThread = none) : s'.Wake := by
  refine Wake.taken hnone fun hp => ?_
  rw [hreceiver] at hp
  rcases h.published hp with hcoming | hthis
  · exact hcoming.update hf hhandles hthread htokens
  · rw [hblocked] at hthis
    cases hthis

theorem Wake.unpark (h : s.Wake) {t : Nat} (hf : ∀ u, (s.handles f).unparks u = true → u = t)
    (htakes : (s.handles f).takes = false)
    (hhandles : s'.handles = Function.update s.handles f pc) (hreceiver : s'.receiver = s.receiver)
    (hthread : s'.thread = s.thread) (htokens : s'.tokens = Function.update s.tokens t true)
    (hblocked : s'.blockedThread = s.blockedThread) (hqueue : s'.queue = s.queue)
    (hsenders : s'.senders = s.senders) : s'.Wake :=
  h.keep hreceiver hthread hblocked (fun _ hc => hc.unpark hf hhandles hthread htokens)
    (takes_update htakes hhandles) (.inl hqueue) fun hzero => .inl (hsenders.symm.trans hzero)

theorem Live.push (h : s.Live) {value : α} (hpc : s.handles f = .push value) :
    Live { s.goto f (.take value) with
      queue := s.queue ++ [(f, value)], pushed := s.pushed ++ [(f, value)] } := by
  have halive : (s.handles f).alive = true := by rw [hpc]; rfl
  have hsilent : (s.handles f).unparks s.thread = false := by rw [hpc]; rfl
  have htakes : (s.handles f).takes = false := by rw [hpc]; rfl
  refine ⟨h.history.push hpc, h.ends.update halive rfl ?_ rfl rfl,
    h.wake.keep rfl rfl rfl (fun _ hc => hc.update hsilent rfl rfl rfl) (takes_update htakes rfl)
      (.inr ⟨f, ?_⟩) .inl⟩
  · rw [halive]
    rfl
  · show ((s.goto f (.take value)).handles f).takes = true
    rw [goto_self]
    rfl

theorem Live.advance (h : s.Live) (hs : s.advance f = some s') : s'.Live := by
  unfold Shared.advance at hs
  cases hpc : s.handles f with
  | absent => rw [hpc] at hs; cases hs
  | idle => rw [hpc] at hs; cases hs
  | gone => rw [hpc] at hs; cases hs
  | load value =>
    rw [hpc] at hs
    cases hs
    have halive : (s.handles f).alive = true := by rw [hpc]; rfl
    have hpos := h.ends.senders_pos halive
    have hnext : ∀ b : Bool, (if b then HandlePc.push value else .idle).unfinished = [] ∧
        (if b then HandlePc.push value else .idle).alive = true := by
      intro b
      cases b with
      | true => exact ⟨rfl, rfl⟩
      | false => exact ⟨rfl, rfl⟩
    refine h.goto halive ⟨by rw [hpc]; rfl, (hnext _).1⟩
      ⟨by rw [hpc]; rfl, fun u => by rw [hpc]; rfl⟩ rfl ?_ (fun hzero => ?_)
      ⟨rfl, rfl, rfl, rfl, rfl, rfl, rfl, rfl, rfl⟩
    · rw [halive, (hnext _).2]
      rfl
    · exact absurd hzero (Nat.ne_of_gt hpos)
  | push value =>
    rw [hpc] at hs
    cases hs
    exact h.push hpc
  | take value =>
    have halive : (s.handles f).alive = true := by rw [hpc]; rfl
    rw [hpc] at hs
    cases hblocked : s.blockedThread with
    | none =>
      rw [hblocked] at hs
      cases hs
      refine ⟨h.history.sent_ok (by rw [hpc]; rfl), h.ends.update halive rfl ?_ rfl rfl,
        h.wake.takeNone hblocked (by rw [hpc]; rfl) rfl rfl rfl rfl hblocked⟩
      rw [halive]
      rfl
    | some t =>
      rw [hblocked] at hs
      cases hs
      have hhistory : (s.goto f (.unpark t value)).History := h.history.goto (by rw [hpc]; rfl)
      have hunparks : (HandlePc.unpark t value).unparks t = true := decide_eq_true rfl
      refine ⟨hhistory.keep rfl rfl rfl rfl fun _ => rfl, h.ends.update halive rfl ?_ rfl rfl,
        h.wake.take hblocked hunparks rfl rfl rfl⟩
      rw [halive]
      rfl
  | unpark t value =>
    have halive : (s.handles f).alive = true := by rw [hpc]; rfl
    have hu : ∀ u, (s.handles f).unparks u = true → u = t := by
      intro u hu
      rw [hpc] at hu
      exact (of_decide_eq_true hu).symm
    rw [hpc] at hs
    cases hs
    have hhistory : (s.sent f value).History := h.history.sent_ok (by rw [hpc]; rfl)
    refine ⟨hhistory.keep rfl rfl rfl rfl fun _ => rfl, h.ends.update halive rfl ?_ rfl rfl,
      h.wake.unpark hu (by rw [hpc]; rfl) rfl rfl rfl rfl rfl rfl rfl⟩
    rw [halive]
    rfl
  | dropSub =>
    rw [hpc] at hs
    cases hs
    have halive : (s.handles f).alive = true := by rw [hpc]; rfl
    have hpos := h.ends.senders_pos halive
    have hnext : ∀ n : Nat,
        (if n = 1 then HandlePc.dropTake (α := α) else .gone).unfinished = [] ∧
          (if n = 1 then HandlePc.dropTake (α := α) else .gone).alive = false := by
      intro n
      split
      · exact ⟨rfl, rfl⟩
      · exact ⟨rfl, rfl⟩
    refine h.goto halive ⟨by rw [hpc]; rfl, (hnext _).1⟩
      ⟨by rw [hpc]; rfl, fun u => by rw [hpc]; rfl⟩ rfl ?_ (fun hzero => ?_)
      ⟨rfl, rfl, rfl, rfl, rfl, rfl, rfl, rfl, rfl⟩
    · rw [halive, (hnext _).2]
      exact Nat.sub_add_cancel hpos
    · have hzero' : s.senders - 1 = 0 := hzero
      have hone : s.senders = 1 := by omega
      rw [if_pos hone]
      rfl
  | dropTake =>
    have halive : (s.handles f).alive = false := by rw [hpc]; rfl
    rw [hpc] at hs
    cases hblocked : s.blockedThread with
    | none =>
      rw [hblocked] at hs
      cases hs
      exact ⟨h.history.goto (by rw [hpc]; rfl), h.ends.gone halive rfl rfl rfl rfl rfl rfl,
        h.wake.takeNone hblocked (by rw [hpc]; rfl) rfl rfl rfl rfl hblocked⟩
    | some t =>
      rw [hblocked] at hs
      cases hs
      have hhistory : (s.goto f (.dropUnpark t)).History := h.history.goto (by rw [hpc]; rfl)
      have hunparks : (HandlePc.dropUnpark (α := α) t).unparks t = true := decide_eq_true rfl
      exact ⟨hhistory.keep rfl rfl rfl rfl fun _ => rfl, h.ends.gone halive rfl rfl rfl rfl rfl rfl,
        h.wake.take hblocked hunparks rfl rfl rfl⟩
  | dropUnpark t =>
    have halive : (s.handles f).alive = false := by rw [hpc]; rfl
    have hu : ∀ u, (s.handles f).unparks u = true → u = t := by
      intro u hu
      rw [hpc] at hu
      exact (of_decide_eq_true hu).symm
    rw [hpc] at hs
    cases hs
    have hhistory : (s.goto f .gone).History := h.history.goto (by rw [hpc]; rfl)
    exact ⟨hhistory.keep rfl rfl rfl rfl fun _ => rfl, h.ends.gone halive rfl rfl rfl rfl rfl rfl,
      h.wake.unpark hu (by rw [hpc]; rfl) rfl rfl rfl rfl rfl rfl rfl⟩

/-! ## The steps of the receiver -/

/-- The receiver moves, and what is published does not change hands. -/
theorem Live.receiver (h : s.Live) (hhandles : s'.handles = s.handles)
    (hsenders : s'.senders = s.senders) (hhistory : s'.History)
    (hover : s'.receiver.ended = true → s.senders = 0)
    (hresult : s'.result = some .disconnected → s.senders = 0 ∧ s'.queue = [])
    (hwake : s'.Wake) : s'.Live :=
  ⟨hhistory, h.ends.keep (fun _ => by rw [hhandles]) hsenders hover hresult, hwake⟩

theorem History.unmoved (h : s.History) (hqueue : s'.queue = s.queue)
    (hpushed : s'.pushed = s.pushed) (hreceived : s'.received = s.received)
    (haccepted : s'.accepted = s.accepted) (hhandles : s'.handles = s.handles) : s'.History :=
  h.keep hqueue hpushed hreceived haccepted fun _ => by rw [hhandles]

theorem Wake.not_blocked (h : s.Wake) (hpc : s.receiver.publishing = false) :
    s.blockedThread = none := by
  cases hblocked : s.blockedThread with
  | none => rfl
  | some x =>
    have hpublishing := (h.blocked x hblocked).2
    rw [hpc] at hpublishing
    cases hpublishing

/-- The thread is not published any more. -/
theorem Wake.none (hpc : s.receiver.published = false) (hblocked : s.blockedThread = none) :
    s.Wake := by
  refine Wake.quiet hpc fun x hx => ?_
  rw [hblocked] at hx
  cases hx

/-- A step of a receive that changes nothing but its place. -/
theorem Live.recvGoto (h : s.Live) {p : ReceiverPc} (hover : p.ended = true → s.senders = 0)
    (hwake : (s.recvGoto p).Wake) : (s.recvGoto p).Live :=
  h.receiver rfl rfl (h.history.unmoved rfl rfl rfl rfl rfl) hover h.ends.result hwake

theorem Live.clearThread (h : s.Live) {p : ReceiverPc} (hover : p.ended = true → s.senders = 0)
    (hpc : p.published = false) : (s.clearThread p).Live :=
  h.receiver rfl rfl (h.history.unmoved rfl rfl rfl rfl rfl) hover h.ends.result (.none hpc rfl)

theorem Live.returns (h : s.Live) {result : RecvResult α} (hblocked : s.blockedThread = none)
    (hresult : some result = some .disconnected → s.senders = 0 ∧ s.queue = []) :
    (s.returns result).Live := by
  refine h.receiver rfl rfl (h.history.unmoved rfl rfl rfl rfl rfl) (fun ho => ?_) hresult
    (.none rfl hblocked)
  cases ho

theorem Live.popOr (h : s.Live) {next : Shared α} (hblocked : s.blockedThread = none)
    (hnext : s.queue = [] → next.Live) : (s.popOr next).Live := by
  unfold Shared.popOr
  cases hqueue : s.queue with
  | nil => exact hnext hqueue
  | cons entry rest =>
    refine h.receiver rfl rfl (h.history.pop hqueue rfl rfl rfl rfl rfl) (fun ho => ?_)
      (fun hr => ?_) (.none rfl hblocked)
    · cases ho
    · cases hr

/-- The receiver goes on, and what it has published stays so. -/
theorem Wake.recvGoto (h : s.Wake) {p : ReceiverPc} (hold : s.receiver.published = true)
    (hpublishing : p.publishing = true)
    (hqueue : p.checkedQueue = true → s.receiver.checkedQueue = true ∨ s.queue = [])
    (hsenders : p.checkedSenders = true → s.receiver.checkedSenders = true ∨ s.senders ≠ 0) :
    (s.recvGoto p).Wake := by
  refine ⟨fun x hx => ⟨(h.blocked x hx).1, hpublishing⟩, fun _ => h.published hold,
    fun hq hne => ?_, fun hc hzero => ?_⟩
  · rcases hqueue hq with hq | hnil
    · exact h.queue hq hne
    · exact absurd hnil hne
  · rcases hsenders hc with hc | hne
    · exact h.senders hc hzero
    · exact absurd hzero hne

/-- Something made it stop: the thread is to be taken back. -/
theorem Wake.stop (h : s.Wake) {p : ReceiverPc} (hp : p.published = false)
    (hpublishing : p.publishing = true) : (s.recvGoto p).Wake :=
  Wake.quiet hp fun x hx => ⟨(h.blocked x hx).1, hpublishing⟩

theorem Live.unparked (h : s.Live) (mode : RecvMode) : (s.unparked mode).Live := by
  refine h.receiver rfl rfl (h.history.unmoved rfl rfl rfl rfl rfl) (fun ho => ?_) h.ends.result
    (Wake.quiet rfl fun x hx => ⟨(h.wake.blocked x hx).1, rfl⟩)
  cases ho

theorem Live.publish (h : s.Live) (mode : RecvMode) :
    Live { s with blockedThread := some s.thread, receiver := .checkQueue mode } := by
  refine h.receiver rfl rfl (h.history.unmoved rfl rfl rfl rfl rfl) (fun ho => ?_) h.ends.result
    ⟨fun x hx => ⟨(Option.some.inj hx).symm, rfl⟩, fun _ => .inr rfl, fun hq => ?_, fun hc => ?_⟩
  · cases ho
  · cases hq
  · cases hc

theorem Live.recvAdvance (h : s.Live) (hs : s.recvAdvance = some s') : s'.Live := by
  unfold Shared.recvAdvance at hs
  cases hpc : s.receiver with
  | idle => rw [hpc] at hs; cases hs
  | gone => rw [hpc] at hs; cases hs
  | pop mode =>
    have hblocked : s.blockedThread = none := h.wake.not_blocked (by rw [hpc]; rfl)
    rw [hpc] at hs
    cases hs
    exact h.popOr hblocked fun _ => h.recvGoto Bool.noConfusion (.none rfl hblocked)
  | load mode =>
    have hblocked : s.blockedThread = none := h.wake.not_blocked (by rw [hpc]; rfl)
    rw [hpc] at hs
    dsimp only at hs
    by_cases hzero : s.senders = 0
    · rw [if_pos hzero] at hs
      cases hs
      exact h.recvGoto (fun _ => hzero) (.none rfl hblocked)
    · rw [if_neg hzero] at hs
      cases hs
      split
      · exact h.returns hblocked (fun hr => by cases hr)
      · exact h.recvGoto Bool.noConfusion (.none rfl hblocked)
  | popAgain mode =>
    have hblocked : s.blockedThread = none := h.wake.not_blocked (by rw [hpc]; rfl)
    have hzero : s.senders = 0 := h.ends.ended (by rw [hpc]; rfl)
    rw [hpc] at hs
    cases hs
    exact h.popOr hblocked fun hnil => h.returns hblocked fun _ => ⟨hzero, hnil⟩
  | publish mode =>
    rw [hpc] at hs
    cases hs
    exact h.publish mode
  | checkQueue mode =>
    have hold : s.receiver.published = true := by rw [hpc]; rfl
    rw [hpc] at hs
    cases hs
    split
    · rename_i hnil
      exact h.recvGoto Bool.noConfusion
        (h.wake.recvGoto hold rfl (fun _ => .inr (List.isEmpty_iff.mp hnil)) Bool.noConfusion)
    · exact h.recvGoto Bool.noConfusion (h.wake.stop rfl rfl)
  | retract mode =>
    rw [hpc] at hs
    cases hs
    exact h.clearThread Bool.noConfusion rfl
  | checkSenders mode =>
    have hold : s.receiver.published = true := by rw [hpc]; rfl
    have hqueue : s.receiver.checkedQueue = true := by rw [hpc]; rfl
    rw [hpc] at hs
    cases hs
    split
    · rename_i hzero
      exact h.recvGoto (fun _ => hzero) (h.wake.stop rfl rfl)
    · rename_i hne
      exact h.recvGoto Bool.noConfusion
        (h.wake.recvGoto hold rfl (fun _ => .inl hqueue) fun _ => .inr hne)
  | retractLast mode =>
    have hzero : s.senders = 0 := h.ends.ended (by rw [hpc]; rfl)
    rw [hpc] at hs
    cases hs
    exact h.clearThread (fun _ => hzero) rfl
  | park mode =>
    have hold : s.receiver.checkedSenders = true := by rw [hpc]; rfl
    have hqueue := ReceiverPc.checkedQueue_of_checkedSenders hold
    rw [hpc] at hs
    cases hs
    split
    · exact h.unparked mode
    · exact h.recvGoto Bool.noConfusion
        (h.wake.recvGoto (ReceiverPc.published_of_checkedQueue hqueue) rfl (fun _ => .inl hqueue)
          fun _ => .inl hold)
  | parked mode =>
    rw [hpc] at hs
    dsimp only at hs
    split at hs
    · cases hs
      exact h.unparked mode
    · cases hs
  | clear mode =>
    rw [hpc] at hs
    cases hs
    exact h.clearThread Bool.noConfusion rfl

/-! ## Runs -/

theorem Live.channel : (channel : Shared α).Live := by
  refine ⟨⟨rfl, fun f => ?_⟩, ⟨?_, fun ho => ?_, fun hr => ?_⟩, .none rfl rfl⟩
  · show [] = ((if f = 0 then HandlePc.idle else .absent : HandlePc α)).unfinished.map (f, ·)
    split
    · rfl
    · rfl
  · refine (Census.zero (p := fun _ : Nat => False) fun _ => id).join (i := 0) id fun f => ?_
    show (if f = 0 then HandlePc.idle else .absent : HandlePc α).alive = true ↔ f = 0 ∨ False
    split
    · rename_i hzero
      exact ⟨fun _ => .inl hzero, fun _ => rfl⟩
    · rename_i hne
      exact ⟨Bool.noConfusion, fun hor => absurd (hor.resolve_right id) hne⟩
  · cases ho
  · cases hr

/-- Somebody sets a token, or one that the receiver does not wait for is used up. -/
theorem Live.token (h : s.Live) {t : Nat} {value : Bool}
    (hbusy : value = true ∨ s.busyOn t = false) : (s.setToken t value).Live := by
  refine h.receiver rfl rfl (h.history.unmoved rfl rfl rfl rfl rfl) h.ends.ended h.ends.result
    (h.wake.keep rfl rfl rfl (fun hp => Or.imp_left fun hthis => ?_) id (.inl rfl) .inl)
  show Function.update s.tokens t value s.thread = true
  by_cases ht : s.thread = t
  · rcases hbusy with rfl | hbusy
    · rw [ht, Function.update_self]
    · refine absurd ⟨fun hidle => ?_, fun hgone => ?_, ht⟩ (of_decide_eq_false hbusy)
      · rw [hidle] at hp
        cases hp
      · rw [hgone] at hp
        cases hp
  · rw [Function.update_of_ne ht]
    exact hthis

theorem Live.step (h : s.Live) {e : SharedEvent α} (hs : s.step e = some s') : s'.Live := by
  cases e with
  | send f value =>
    simp only [Shared.step] at hs
    split at hs
    · rename_i hpc
      cases hs
      have halive : (s.handles f).alive = true := by rw [hpc]; rfl
      have hpos := h.ends.senders_pos halive
      refine h.goto halive ⟨by rw [hpc]; rfl, rfl⟩ ⟨by rw [hpc]; rfl, fun u => by rw [hpc]; rfl⟩ rfl
        ?_ (fun hzero => absurd hzero (Nat.ne_of_gt hpos)) ⟨rfl, rfl, rfl, rfl, rfl, rfl, rfl, rfl, rfl⟩
      rw [halive]
      rfl
    · cases hs
  | clone f g =>
    simp only [Shared.step] at hs
    split at hs
    · rename_i hf hg
      cases hs
      have halive : (s.handles f).alive = true := by rw [hf]; rfl
      refine h.goto halive ⟨by rw [hg]; rfl, rfl⟩ ⟨by rw [hg]; rfl, fun u => by rw [hg]; rfl⟩ rfl
        ?_ (fun hzero => absurd hzero (Nat.succ_ne_zero _))
        ⟨rfl, rfl, rfl, rfl, rfl, rfl, rfl, rfl, rfl⟩
      rw [hg]
      rfl
    · cases hs
  | drop f =>
    simp only [Shared.step] at hs
    split at hs
    · rename_i hpc
      cases hs
      have halive : (s.handles f).alive = true := by rw [hpc]; rfl
      have hpos := h.ends.senders_pos halive
      refine h.goto halive ⟨by rw [hpc]; rfl, rfl⟩ ⟨by rw [hpc]; rfl, fun u => by rw [hpc]; rfl⟩ rfl
        ?_ (fun hzero => absurd hzero (Nat.ne_of_gt hpos)) ⟨rfl, rfl, rfl, rfl, rfl, rfl, rfl, rfl, rfl⟩
      rw [halive]
      rfl
    · cases hs
  | advance f => exact h.advance hs
  | recv mode t =>
    simp only [Shared.step] at hs
    split at hs
    · rename_i hidle
      cases hs
      have hblocked : s.blockedThread = Option.none := h.wake.not_blocked (by rw [hidle]; rfl)
      refine h.receiver rfl rfl (h.history.unmoved rfl rfl rfl rfl rfl) Bool.noConfusion
        (fun hr => ?_) (.none rfl hblocked)
      cases hr
    · cases hs
  | recvAdvance => exact h.recvAdvance hs
  | timeout =>
    simp only [Shared.step] at hs
    split at hs
    · rename_i hpc
      cases hs
      refine h.returns (h.wake.not_blocked (by rw [hpc]; rfl)) fun hr => ?_
      cases hr
    · cases hs
  | spurious =>
    simp only [Shared.step] at hs
    split at hs
    · cases hs
      exact h.recvGoto Bool.noConfusion (h.wake.stop rfl rfl)
    · cases hs
      exact h.recvGoto Bool.noConfusion (h.wake.stop rfl rfl)
    · cases hs
  | dropReceiver =>
    simp only [Shared.step] at hs
    split at hs
    · rename_i hidle
      cases hs
      have hblocked : s.blockedThread = Option.none := h.wake.not_blocked (by rw [hidle]; rfl)
      exact h.receiver rfl rfl (h.history.unmoved rfl rfl rfl rfl rfl) Bool.noConfusion
        h.ends.result (.none rfl hblocked)
    · cases hs
  | token t value =>
    simp only [Shared.step] at hs
    split at hs
    · rename_i hbusy
      cases hs
      exact h.token hbusy
    · cases hs

/-- The states of the channel. -/
theorem run_live (h : Run SharedStep Always (· = Shared.channel) s) : s.Live := by
  refine h.invariant (fun t ht => ?_) fun _ _ _ hlive _ hs => hlive.step hs
  rw [ht]
  exact .channel

end Shared

/-- In every interleaving: what was received from a handle, followed by what of it is queued,
is in their order the values whose `send` has returned `Ok`, and one of a `send` that is
under way; a receive reports `Disconnected` only when no handle is left and everything pushed
was received; and a parked receiver with something to do has a token, or a handle is going to
unpark it or to take the thread, which is still published. -/
theorem blocking_mpsc_delivers {s : Shared α} (h : Run SharedStep Always (· = .channel) s) :
    (∀ f, (s.received ++ s.queue).filter (·.1 = f) =
      s.accepted.filter (·.1 = f) ++ (s.handles f).unfinished.map (f, ·)) ∧
    (s.result = some .disconnected →
      (∀ f, (s.handles f).alive = false) ∧ s.queue = [] ∧ s.received = s.pushed) ∧
    ∀ mode, s.receiver = .parked mode → (s.queue ≠ [] ∨ ∀ f, (s.handles f).alive = false) →
      s.tokens s.thread = true ∨ ∃ f, (s.handles f).unparks s.thread = true ∨
        ((s.handles f).takes = true ∧ s.blockedThread = some s.thread) := by
  have hlive := Shared.run_live h
  refine ⟨fun f => ?_, fun hr => ?_, fun mode hparked hwork => ?_⟩
  · rw [← hlive.history.fifo]
    exact hlive.history.sent f
  · obtain ⟨hzero, hnil⟩ := hlive.ends.result hr
    refine ⟨hlive.ends.none_alive hzero, hnil, ?_⟩
    rw [hlive.history.fifo, hnil, List.append_nil]
  · have hserved : s.Served := by
      rcases hwork with hne | hnone
      · exact hlive.wake.queue (by rw [hparked]; rfl) hne
      · refine hlive.wake.senders (by rw [hparked]; rfl) (Nat.eq_zero_of_not_pos fun hpos => ?_)
        obtain ⟨f, hf⟩ := hlive.ends.census.exists_of_pos hpos
        rw [hnone f] at hf
        cases hf
    have hcoming : s.Coming → s.tokens s.thread = true ∨ ∃ f,
        (s.handles f).unparks s.thread = true ∨
          ((s.handles f).takes = true ∧ s.blockedThread = some s.thread) :=
      Or.imp_right fun ⟨f, hf⟩ => ⟨f, .inl hf⟩
    rcases hserved with hc | ⟨f, hf⟩
    · exact hcoming hc
    · rcases hlive.wake.published (by rw [hparked]; rfl) with hc | hthis
      · exact hcoming hc
      · exact .inr ⟨f, .inr ⟨hf, hthis⟩⟩

/-- One handle sends while the receiver falls asleep. -/
def sleepEvents : List (SharedEvent Nat) :=
  [.send 0 7, .advance 0, .recv .block 3, .recvAdvance, .recvAdvance, .recvAdvance, .recvAdvance,
    .recvAdvance, .recvAdvance, .advance 0]

def asleepShared : Shared Nat :=
  (replay Shared.step (fun _ _ => true) .channel sleepEvents).get (by decide +kernel)

/-- The receiver is parked without a token although a value is queued: the handle that has
pushed it has not come to take the thread yet. -/
theorem parked_on_work_without_token :
    ∃ s : Shared Nat, Run SharedStep Always (· = .channel) s ∧ s.receiver = .parked .block ∧
      s.queue ≠ [] ∧ s.tokens s.thread = false := by
  have hreplay : replay Shared.step (fun _ _ => true) .channel sleepEvents = some asleepShared :=
    (Option.some_get _).symm
  have hstart : Run SharedStep Always (· = Shared.channel (α := Nat)) .channel := Run.start rfl
  exact ⟨asleepShared, hstart.replay (fun _ _ _ hs => hs) (fun _ _ _ => trivial) hreplay,
    by decide +kernel, by decide +kernel, by decide +kernel⟩

/-- The value is received and the handle is dropped. -/
def drained : List (SharedEvent Nat) :=
  sleepEvents ++
    ([.advance 0, .advance 0, .recvAdvance, .recvAdvance, .recvAdvance, .drop 0, .advance 0,
      .advance 0, .recv .block 3, .recvAdvance, .recvAdvance,
      .recvAdvance] : List (SharedEvent Nat))

def drainedShared : Shared Nat :=
  (replay Shared.step (fun _ _ => true) .channel drained).get (by decide +kernel)

theorem blocking_mpsc_delivers_drained :
    drainedShared.result = some .disconnected ∧ drainedShared.received = [(0, 7)] ∧
      drainedShared.received = drainedShared.pushed := by
  have hreplay : replay Shared.step (fun _ _ => true) .channel drained = some drainedShared :=
    (Option.some_get _).symm
  have hstart : Run SharedStep Always (· = Shared.channel (α := Nat)) .channel := Run.start rfl
  have hrun := hstart.replay (fun _ _ _ hs => hs) (fun _ _ _ => trivial) hreplay
  have hresult : drainedShared.result = some .disconnected := by decide +kernel
  exact ⟨hresult, by decide +kernel, ((blocking_mpsc_delivers hrun).2.1 hresult).2.2⟩

end Veloq.Blocking
