import Veloq.Local.Spsc
set_option autoImplicit false

/-!
# Local: when the ring buffer is a FIFO list

`Rep e s items` ties a buffer to the list it stands for.  Every operation keeps
it except one: `grow` sets `head` to zero before it asks `len` for the new `tail`,
so the tail it stores is the old free-running index and not the number of items.
With `head = 0` the two agree; otherwise the buffer counts items it does not have.
`refinesFifo_iff_growsAtZero` is the resulting exact condition on a whole run.
-/

namespace Veloq.Local.Spsc

open Veloq.Foundation

variable {α : Type} {e : ElemLayout α} {s : StateInner α} {items : List α}

/-- Where the items are: a window of cells, or, for a zero-sized type, nowhere. -/
def Stored (e : ElemLayout α) (s : StateInner α) (items : List α) : Prop :=
  match e with
  | .zst _ _ => items.length ≤ s.capacity
  | .sized _ _ => Window s.capacity s.buffer s.head items

/-- The buffer `s` stands for the list `items`. -/
structure Rep (e : ElemLayout α) (s : StateInner α) (items : List α) : Prop where
  order : ∃ k ≤ 63, s.capacity = 2 ^ k
  mask_eq : s.mask = s.capacity - 1
  head_lt : s.head < 2 ^ 64
  tail_eq : s.tail = wrappingAdd s.head items.length
  stored : Stored e s items

namespace Rep

theorem capacity_le (h : Rep e s items) : s.capacity ≤ 2 ^ 63 := by
  obtain ⟨k, hk, hcap⟩ := h.order
  rw [hcap]
  exact Nat.pow_le_pow_right (by decide) hk

theorem length_le (h : Rep e s items) : items.length ≤ s.capacity := by
  have hst := h.stored
  cases e with
  | zst value only => exact hst
  | sized bytes pos => exact hst.fits

theorem len_eq (h : Rep e s items) : s.len = items.length := by
  have hle := h.length_le
  have hcap := h.capacity_le
  unfold StateInner.len
  rw [h.tail_eq]
  exact wrappingSub_wrappingAdd h.head_lt (by omega)

theorem isFull_iff (h : Rep e s items) : s.isFull = true ↔ items.length = s.capacity := by
  simp [StateInner.isFull, h.len_eq]

theorem isEmpty_iff (h : Rep e s items) : s.isEmpty = true ↔ items = [] := by
  have hle := h.length_le
  have hcap := h.capacity_le
  have hhead := h.head_lt
  simp only [StateInner.isEmpty, beq_iff_eq, h.tail_eq, wrappingAdd]
  constructor
  · intro heq
    exact List.length_eq_zero_iff.mp (by omega)
  · intro hnil
    rw [hnil, List.length_nil]
    omega

/-- Masking an index is the remainder by the capacity. -/
theorem and_mask (h : Rep e s items) (i : Nat) : i &&& s.mask = i % s.capacity := by
  obtain ⟨k, _, hcap⟩ := h.order
  rw [h.mask_eq, hcap, Nat.and_two_pow_sub_one_eq_mod]

theorem wrappingAdd_mod (h : Rep e s items) (a b : Nat) :
    wrappingAdd a b % s.capacity = (a + b) % s.capacity := by
  obtain ⟨k, hk, hcap⟩ := h.order
  rw [hcap]
  exact wrappingAdd_mod_two_pow (by omega) a b

/-- A write into a free cell appends. -/
theorem write (h : Rep e s items) (hroom : items.length < s.capacity) (item : α) :
    Rep e (s.write item) (items ++ [item]) := by
  refine ⟨h.order, h.mask_eq, h.head_lt, ?_, ?_⟩
  · show wrappingAdd s.tail 1 = wrappingAdd s.head (items ++ [item]).length
    rw [h.tail_eq, List.length_append, List.length_singleton]
    unfold wrappingAdd
    omega
  · have hst := h.stored
    cases e with
    | zst value only =>
        show (items ++ [item]).length ≤ s.capacity
        simpa using Nat.succ_le_of_lt hroom
    | sized bytes pos =>
        have hcell : s.tail &&& s.mask = (s.head + items.length) % s.capacity := by
          rw [h.and_mask, h.tail_eq, h.wrappingAdd_mod]
        show Window s.capacity (Function.update s.buffer (s.tail &&& s.mask) (some item))
          s.head (items ++ [item])
        rw [hcell]
        exact Window.push hst hroom item

/-- The cell at `head` holds the oldest item. -/
theorem readCell_head {item : α} {rest : List α} (h : Rep e s (item :: rest)) :
    e.readCell s.buffer (s.head &&& s.mask) = .ok item := by
  have hst := h.stored
  cases e with
  | zst value only => simp [ElemLayout.readCell, only item]
  | sized bytes pos =>
      have hcell : s.buffer (s.head % s.capacity) = some item := Window.head hst
      simp [ElemLayout.readCell, h.and_mask, hcell]

/-- Moving the oldest item out drops it from the list. -/
theorem moveOut {item : α} {rest : List α} (h : Rep e s (item :: rest)) :
    Rep e
      { s with
        buffer := Function.update s.buffer (s.head &&& s.mask) none
        head := wrappingAdd s.head 1 } rest := by
  refine ⟨h.order, h.mask_eq, wrappingAdd_lt _ _, ?_, ?_⟩
  · show s.tail = wrappingAdd (wrappingAdd s.head 1) rest.length
    rw [h.tail_eq, List.length_cons]
    unfold wrappingAdd
    omega
  · have hst := h.stored
    cases e with
    | zst value only =>
        have hle : (item :: rest).length ≤ s.capacity := hst
        show rest.length ≤ s.capacity
        simp only [List.length_cons] at hle
        omega
    | sized bytes pos =>
        rw [h.and_mask]
        exact (Window.pop hst).congr_start (h.wrappingAdd_mod s.head 1)

end Rep

/-! ## Growing -/

/-- The copy in `grow` of a full buffer puts the `i`-th item into cell `i`. -/
theorem grownBuffer_apply (h : Rep e s items) (hfull : items.length = s.capacity) {i : Nat}
    (hi : i < items.length) :
    s.grownBuffer i = s.buffer ((s.head + i) % s.capacity) := by
  have hpos : 0 < s.capacity := by omega
  -- a full buffer has its tail on its head, so the copy is always the wrapped one
  have htail : s.tail &&& s.mask = s.head % s.capacity := by
    rw [h.and_mask, h.tail_eq, h.wrappingAdd_mod, hfull, Nat.add_mod_right]
  have hlt : s.head % s.capacity < s.capacity := Nat.mod_lt _ hpos
  simp only [StateInner.grownBuffer, htail, h.and_mask, h.len_eq, Nat.lt_irrefl, if_false,
    copyNonoverlapping]
  generalize hbase : s.head % s.capacity = base at hlt
  have hsum : (s.head + i) % s.capacity = (base + i) % s.capacity := by
    rw [← hbase, Nat.mod_add_mod]
  rw [hsum]
  by_cases hfirst : i < s.capacity - base
  · rw [if_neg (by omega), if_pos (by omega), Nat.sub_zero, Nat.mod_eq_of_lt (by omega)]
  · rw [if_pos (by omega), Nat.mod_eq_sub_mod (by omega), Nat.mod_eq_of_lt (by omega)]
    congr 1
    omega

/-- What `grow` returns, apart from the cells. -/
theorem grow_ok {s' : StateInner α} (h : Rep e s items) (hgrow : s.grow e = .ok s') :
    s'.capacity = s.capacity * 2 ∧ s'.mask = s.capacity * 2 - 1 ∧ s'.head = 0 ∧
      s'.tail = s.tail ∧ s'.isBounded = s.isBounded ∧ s.capacity * 2 < 2 ^ 64 ∧
      (∀ bytes pos, e = .sized bytes pos → s'.buffer = s.grownBuffer) := by
  have htail : s.tail < 2 ^ 64 := by
    rw [h.tail_eq]
    exact wrappingAdd_lt _ _
  unfold StateInner.grow at hgrow
  simp only at hgrow
  split at hgrow
  · rename_i hfits
    have hs' := (Except.ok.inj hgrow).symm
    subst hs'
    refine ⟨rfl, rfl, rfl, ?_, rfl, hfits.1, ?_⟩
    · simp only [StateInner.len, wrappingSub]
      omega
    · intro bytes pos he
      subst he
      rfl
  · exact absurd hgrow (by simp)

/-- Growing with `head = 0` keeps the list and leaves room. -/
theorem Rep.grow {s' : StateInner α} (h : Rep e s items) (hfull : items.length = s.capacity)
    (hhead : s.head = 0) (hgrow : s.grow e = .ok s') :
    Rep e s' items ∧ items.length < s'.capacity := by
  obtain ⟨hcap, hmask, hhead', htail, _, hlt, hbuf⟩ := grow_ok h hgrow
  obtain ⟨k, hk, hpow⟩ := h.order
  have hpos : 0 < s.capacity := by rw [hpow]; exact Nat.two_pow_pos k
  refine ⟨⟨⟨k + 1, ?_, ?_⟩, ?_, ?_, ?_, ?_⟩, by omega⟩
  · have hexp : 2 ^ (k + 1) < 2 ^ 64 := by rw [Nat.pow_succ, ← hpow]; exact hlt
    have := (Nat.pow_lt_pow_iff_right (by decide : 1 < 2)).mp hexp
    omega
  · rw [hcap, hpow, Nat.pow_succ]
  · rw [hmask, hcap]
  · rw [hhead']; exact Nat.two_pow_pos 64
  · rw [htail, h.tail_eq, hhead, hhead']
  · cases e with
    | zst value only =>
        show items.length ≤ s'.capacity
        omega
    | sized bytes pos =>
        show Window s'.capacity s'.buffer s'.head items
        rw [hhead', hbuf bytes pos rfl]
        exact Window.rebase h.stored (by omega) (fun i hi => grownBuffer_apply h hfull hi)

/-- Growing with a nonzero `head` makes the buffer count items it does not hold. -/
theorem len_after_grow {s' : StateInner α} (h : Rep e s items)
    (hfull : items.length = s.capacity) (hhead : s.head ≠ 0) (hgrow : s.grow e = .ok s')
    (item : α) : (s'.write item).len ≠ items.length + 1 := by
  obtain ⟨_, _, hhead', htail, _, hlt, _⟩ := grow_ok h hgrow
  have hlt64 := h.head_lt
  simp only [StateInner.write, StateInner.len, hhead', htail, h.tail_eq, wrappingSub, wrappingAdd]
  omega

/-! ## One operation -/

/-- What a step of a represented buffer can be: a panic, the step of the list, or
a grow away from zero that spoils the count. -/
inductive StepOutcome (e : ElemLayout α) (s : StateInner α) (items : List α) (op : Op α) : Prop
  | panics : step e s op = .error .panic → StepOutcome e s items op
  | follows (s' : StateInner α) :
      step e s op = .ok ((fifoStep s.limit items op).1, s') →
      Rep e s' (fifoStep s.limit items op).2 → s'.limit = s.limit →
      (Grows s op → s.head = 0) → StepOutcome e s items op
  | miscounts (s' : StateInner α) :
      step e s op = .ok (.accepted, s') → s'.len ≠ (fifoStep s.limit items op).2.length →
      Grows s op → s.head ≠ 0 → StepOutcome e s items op

theorem limit_write (item : α) : (s.write item).limit = s.limit := by
  cases s
  rfl

theorem limit_ne_of_room (hroom : items.length < s.capacity) :
    s.limit ≠ some items.length := by
  unfold StateInner.limit
  split
  · intro heq
    have := Option.some.inj heq
    omega
  · simp

theorem step_push_full (item : α) (hfull : s.isFull = true) (hb : s.isBounded = true) :
    step e s (.push item) = .ok (.rejected item, s) := by
  have hpush : s.push e item = .ok (.error item, s) := by
    simp only [StateInner.push, hfull, hb, if_true]
  rw [step, hpush]
  rfl

theorem step_push_grow (item : α) (hfull : s.isFull = true) (hb : s.isBounded = false) :
    step e s (.push item) =
      (s.grow e).map fun grown => (.accepted, grown.write item) := by
  have hpush : s.push e item = (s.grow e).map fun grown => (.ok (), grown.write item) := by
    simp only [StateInner.push, hfull, hb, if_true, Bool.false_eq_true, if_false]
  rw [step, hpush]
  cases s.grow e with
  | error fault => rfl
  | ok grown => rfl

theorem step_push_room (item : α) (hroom : s.isFull = false) :
    step e s (.push item) = .ok (.accepted, s.write item) := by
  have hpush : s.push e item = .ok (.ok (), s.write item) := by
    simp only [StateInner.push, hroom, Bool.false_eq_true, if_false]
  rw [step, hpush]
  rfl

theorem grow_error {fault : Fault} (h : s.grow e = .error fault) : fault = .panic := by
  unfold StateInner.grow at h
  simp only at h
  split at h
  · exact absurd h (by simp)
  · exact (Except.error.inj h).symm

/-- A push of a represented buffer. -/
theorem step_push (h : Rep e s items) (item : α) : StepOutcome e s items (.push item) := by
  cases hfull : s.isFull with
  | false =>
      have hne : items.length ≠ s.capacity := fun hlen => by
        rw [h.isFull_iff.mpr hlen] at hfull
        exact Bool.noConfusion hfull
      have hroom : items.length < s.capacity := Nat.lt_of_le_of_ne h.length_le hne
      have hlimit := limit_ne_of_room hroom
      have hfifo : fifoStep s.limit items (.push item) = (.accepted, items ++ [item]) := by
        simp only [fifoStep, hlimit, if_false]
      refine .follows (s.write item) ?_ ?_ (limit_write item) ?_
      · rw [hfifo, step_push_room item hfull]
      · rw [hfifo]
        exact h.write hroom item
      · intro hg
        exact absurd hg.1 (by rw [hfull]; decide)
  | true =>
      have hlen : items.length = s.capacity := h.isFull_iff.mp hfull
      cases hb : s.isBounded with
      | true =>
          have hfifo : fifoStep s.limit items (.push item) = (.rejected item, items) := by
            simp only [fifoStep, StateInner.limit, hb, hlen, if_true]
          refine .follows s ?_ ?_ rfl ?_
          · rw [hfifo, step_push_full item hfull hb]
          · rw [hfifo]
            exact h
          · intro hg
            exact absurd hg.2 (by rw [hb]; decide)
      | false =>
          have hlimit : s.limit = none := by simp [StateInner.limit, hb]
          have hfifo : fifoStep s.limit items (.push item) = (.accepted, items ++ [item]) := by
            simp [fifoStep, hlimit]
          have hstep := step_push_grow (e := e) item hfull hb
          cases hgrow : s.grow e with
          | error fault =>
              rw [hgrow, grow_error hgrow] at hstep
              exact .panics hstep
          | ok grown =>
              rw [hgrow] at hstep
              have hstep' : step e s (.push item) = .ok (.accepted, grown.write item) := hstep
              by_cases hhead : s.head = 0
              · obtain ⟨hrep, hroom⟩ := h.grow hlen hhead hgrow
                refine .follows (grown.write item) ?_ ?_ ?_ (fun _ => hhead)
                · rw [hfifo]
                  exact hstep'
                · rw [hfifo]
                  exact hrep.write hroom item
                · have hb' : grown.isBounded = false := by
                    rw [(grow_ok h hgrow).2.2.2.2.1, hb]
                  rw [limit_write, hlimit]
                  simp [StateInner.limit, hb']
              · refine .miscounts (grown.write item) hstep' ?_ ⟨hfull, hb⟩ hhead
                rw [hfifo, List.length_append, List.length_singleton]
                exact len_after_grow h hlen hhead hgrow item

/-- A pop takes the oldest item, if there is one. -/
theorem Rep.pop (h : Rep e s items) :
    ∃ s', s.pop e = .ok (items.head?, s') ∧ Rep e s' items.tail ∧ s'.limit = s.limit := by
  cases items with
  | nil =>
      refine ⟨s, ?_, h, rfl⟩
      simp only [StateInner.pop, h.isEmpty_iff.mpr rfl, if_true, List.head?_nil]
  | cons item rest =>
      have hne : s.isEmpty = false := by
        cases hempty : s.isEmpty with
        | false => rfl
        | true => exact absurd (h.isEmpty_iff.mp hempty) (by simp)
      refine ⟨_, ?_, h.moveOut, ?_⟩
      · simp only [StateInner.pop, hne, h.readCell_head, Bool.false_eq_true, if_false]
        rfl
      · cases s
        rfl

/-- A pop of a represented buffer. -/
theorem step_pop (h : Rep e s items) : StepOutcome e s items .pop := by
  obtain ⟨s', hpop, hrep, hlimit⟩ := h.pop
  refine .follows s' ?_ hrep hlimit (fun hg => hg.elim)
  rw [step, hpop]
  rfl

/-- A computation whose result is mapped has a result. -/
theorem exists_of_map_eq_ok {ε β γ : Type} {x : Except ε β} {f : β → γ} {c : γ}
    (h : x.map f = .ok c) : ∃ b, x = .ok b ∧ f b = c := by
  cases x with
  | error fault => exact absurd h (by simp [Except.map])
  | ok b => exact ⟨b, rfl, Except.ok.inj h⟩

theorem eq_error_of_map {ε β γ : Type} {x : Except ε β} {f : β → γ} {fault : ε}
    (h : x.map f = .error fault) : x = .error fault := by
  cases x with
  | error fault' => exact congrArg Except.error (Except.error.inj h)
  | ok b => exact absurd h (by simp [Except.map])

theorem push_of_step {item : α} {reply : Reply α} {s' : StateInner α}
    (h : step e s (.push item) = .ok (reply, s')) :
    ∃ result, s.push e item = .ok (result, s') ∧ Reply.ofPush result = reply := by
  obtain ⟨⟨result, inner⟩, hpush, hpair⟩ := exists_of_map_eq_ok h
  obtain ⟨hreply, rfl⟩ := Prod.mk.inj hpair
  exact ⟨result, hpush, hreply⟩

/-- A push that does not make the buffer grow away from zero panics, gives the item back or
appends it. -/
theorem Rep.push (h : Rep e s items) (item : α) (hzero : Grows s (.push item) → s.head = 0) :
    s.push e item = .error .panic ∨
      (∃ s', s.push e item = .ok (.error item, s') ∧ Rep e s' items) ∨
      ∃ s', s.push e item = .ok (.ok (), s') ∧ Rep e s' (items ++ [item]) := by
  cases step_push (e := e) h item with
  | panics hstep => exact .inl (eq_error_of_map hstep)
  | miscounts s' _ _ hgrows hhead => exact absurd (hzero hgrows) hhead
  | follows s' hstep hrep _ _ =>
      obtain ⟨result, hpush, hreply⟩ := push_of_step hstep
      refine .inr ?_
      by_cases hlimit : s.limit = some items.length
      · simp only [fifoStep, hlimit, if_true] at hreply hrep
        cases result with
        | error item' =>
            cases hreply
            exact .inl ⟨s', hpush, hrep⟩
        | ok _ => exact absurd hreply (by simp [Reply.ofPush])
      · simp only [fifoStep, hlimit, if_false] at hreply hrep
        cases result with
        | error item' => exact absurd hreply (by simp [Reply.ofPush])
        | ok _ => exact .inr ⟨s', hpush, hrep⟩

theorem step_outcome (h : Rep e s items) (op : Op α) : StepOutcome e s items op := by
  cases op with
  | push item => exact step_push h item
  | pop => exact step_pop h

/-! ## Whole runs -/

/-- From a represented buffer, a run follows the list exactly when every grow in
it finds `head` at zero. -/
theorem refinesFifo_iff_of_rep :
    ∀ (ops : List (Op α)) {s : StateInner α} {items : List α}, Rep e s items →
      (RefinesFifo e s.limit s items ops ↔ GrowsAtZero e s ops) := by
  intro ops
  induction ops with
  | nil =>
      intro s items h
      exact ⟨fun _ => trivial, fun _ => h.len_eq⟩
  | cons op ops ih =>
      intro s items h
      cases step_outcome h op with
      | panics hstep => simp [RefinesFifo, GrowsAtZero, hstep, h.len_eq]
      | follows s' hstep hrep hlimit hzero =>
          have hrest := ih hrep
          rw [hlimit] at hrest
          simp only [RefinesFifo, GrowsAtZero, hstep, h.len_eq, true_and, hrest]
          exact ⟨fun hz => ⟨hzero, hz⟩, fun hz => hz.2⟩
      | miscounts s' hstep hlen hgrows hhead =>
          -- the very next state already counts wrongly
          have hnot : ¬ RefinesFifo e s.limit s' (fifoStep s.limit items op).2 ops := by
            cases ops with
            | nil => exact hlen
            | cons _ _ => exact fun hr => hlen hr.1
          simp only [RefinesFifo, GrowsAtZero, hstep, h.len_eq, true_and]
          constructor
          · intro hr
            exact absurd hr.2 hnot
          · intro hz
            exact absurd (hz.1 hgrows) hhead

theorem exists_two_pow_of_initialCapacity {capacity : ChannelCapacity} {cap : Nat}
    {isBounded : Bool} (h : initialCapacity capacity = some (cap, isBounded)) :
    ∃ k ≤ 63, cap = 2 ^ k := by
  cases capacity with
  | unbounded =>
      have hcap : 8 = cap := congrArg Prod.fst (Option.some.inj h)
      exact ⟨3, by decide, hcap.symm⟩
  | bounded size =>
      obtain ⟨k, hk⟩ := exists_nextPowerOfTwo (max size 1)
      simp only [initialCapacity, hk] at h
      split at h
      · rename_i hlt
        have hcap : 2 ^ k = cap := congrArg Prod.fst (Option.some.inj h)
        have := (Nat.pow_lt_pow_iff_right (by decide : 1 < 2)).mp hlt
        exact ⟨k, by omega, hcap.symm⟩
      · exact absurd h (by simp)

/-- A new buffer stands for the empty list. -/
theorem rep_new {capacity : ChannelCapacity} (h : StateInner.new e capacity = some s) :
    Rep e s [] := by
  unfold StateInner.new at h
  split at h
  · exact absurd h (by simp)
  · rename_i cap isBounded hcap
    split at h
    · have hs := (Option.some.inj h).symm
      subst hs
      refine ⟨exists_two_pow_of_initialCapacity hcap, rfl, Nat.two_pow_pos 64, ?_, ?_⟩
      · simp [wrappingAdd]
      · cases e with
        | zst value only => exact Nat.zero_le _
        | sized bytes pos => exact Window.nil _ _ _
    · exact absurd h (by simp)

/-- **The ring buffer refines a FIFO list exactly on the runs whose every grow
happens with `head = 0`.**  For every capacity mode and every sequence of pushes
and pops on a new buffer: `len` counts the stored items in every state, every
operation answers as the list does, and no cell without a value is read, if and
only if no push that makes the buffer grow comes after a pop since the buffer was
created or last grew. -/
theorem refinesFifo_iff_growsAtZero (e : ElemLayout α) (capacity : ChannelCapacity)
    (s : StateInner α) (hnew : StateInner.new e capacity = some s) (ops : List (Op α)) :
    RefinesFifo e s.limit s [] ops ↔ GrowsAtZero e s ops :=
  refinesFifo_iff_of_rep ops (rep_new hnew)

/-! ## The defect on a concrete run -/

/-- A run can be replayed against the list. -/
def decidableRefinesFifo [DecidableEq α] (e : ElemLayout α) (limit : Option Nat) :
    (ops : List (Op α)) → (s : StateInner α) → (items : List α) →
      Decidable (RefinesFifo e limit s items ops)
  | [], s, items => inferInstanceAs (Decidable (s.len = items.length))
  | op :: ops, s, items =>
      let rest : (outcome : Except Fault (Reply α × StateInner α)) → Decidable (match outcome with
          | .error .panic => True
          | .error .uninitRead => False
          | .ok (reply, s') =>
              reply = (fifoStep limit items op).1 ∧
                RefinesFifo e limit s' (fifoStep limit items op).2 ops)
        | .error .panic => isTrue trivial
        | .error .uninitRead => isFalse id
        | .ok (reply, s') =>
            have := decidableRefinesFifo e limit ops s' (fifoStep limit items op).2
            inferInstanceAs (Decidable (reply = (fifoStep limit items op).1 ∧
              RefinesFifo e limit s' (fifoStep limit items op).2 ops))
      have := rest (step e s op)
      inferInstanceAs (Decidable (s.len = items.length ∧ _))

instance [DecidableEq α] (e : ElemLayout α) (limit : Option Nat) (s : StateInner α)
    (items : List α) (ops : List (Op α)) : Decidable (RefinesFifo e limit s items ops) :=
  decidableRefinesFifo e limit ops s items

/-- One-byte items. -/
def byteLayout : ElemLayout Nat := .sized 1 (by decide)

/-- Eight items fill a new unbounded buffer, one is popped and one pushed, and the
next push has to grow a buffer whose `head` is one. -/
def wrappedGrowRun : List (Op Nat) :=
  (List.range 8).map .push ++ ([.pop, .push 8, .push 9] : List (Op Nat))

/-- After `wrappedGrowRun` nine items are stored and `len` says ten. -/
theorem wrappedGrow_not_refinesFifo :
    ¬ ∀ (s : StateInner Nat), StateInner.new byteLayout .unbounded = some s →
      RefinesFifo byteLayout s.limit s [] wrappedGrowRun := by
  intro h
  have hrun := h _ rfl
  revert hrun
  decide +kernel

/-- A buffer that grows before anything is popped stays a FIFO. -/
theorem refinesFifo_of_fresh_grow :
    ∃ s : StateInner Nat, StateInner.new byteLayout .unbounded = some s ∧
      (RefinesFifo byteLayout s.limit s [] ((List.range 9).map .push ++ [.pop]) ↔
        GrowsAtZero byteLayout s ((List.range 9).map .push ++ [.pop])) :=
  ⟨_, rfl, refinesFifo_iff_growsAtZero byteLayout .unbounded _ rfl _⟩

end Veloq.Local.Spsc
