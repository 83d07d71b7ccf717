import Veloq.Driver.TableSteps
set_option autoImplicit false

/-!
# Driver: records reach their own operations

The invariant of the table when writes to a data cell are separated from takes: the
record of a slot belongs to the generation of the slot from the moment it is written
until its consumer takes it, and at most one consumer has won it.  Generations only
grow, so no token is won twice.
-/

namespace Veloq.Driver.TableSteps

open Veloq.Foundation

variable {Payload : Type} {s s' : Table Payload}

/-- What the driver's program counter says about the slot it works on. -/
def DriverOk (s : Table Payload) : Prop :=
  match s.driver with
  | .found idx _ => (s.core idx).state = .idle
  | .resetting idx newGen _ => (s.core idx).state = .idle ∧ (s.core idx).generation < newGen
  | .reserving idx _ _ => (s.core idx).state = .idle
  | .recordCas record current =>
      current = { generation := record.token.generation, state := .inFlightWaiting }
  | .recordStore record => s.core record.token.index =
      { generation := record.token.generation, state := .finalizing }
  | .recordNote record => s.core record.token.index =
      { generation := record.token.generation, state := .finalizing } ∧
      s.data record.token.index = some record ∧ NotHeld s record.token.index
  | .recordReady record => s.core record.token.index =
      { generation := record.token.generation, state := .finalizing } ∧
      s.data record.token.index = some record ∧ NotHeld s record.token.index
  | _ => True

/-- The slot holds the record of its own generation, and nobody has won it. -/
def OwnRecord (s : Table Payload) (idx : Nat) : Prop :=
  (∃ record, s.data idx = some record ∧ record.token.index = idx ∧
    record.token.generation = (s.core idx).generation) ∧ NotHeld s idx

/-- A token that has been won: its record is still in the cell, its generation is
over, and it was not served before. -/
structure Won (s : Table Payload) (token : OpToken) : Prop where
  data : ∃ record, s.data token.index = some record ∧ record.token = token
  past : token.generation < (s.core token.index).generation
  fresh : token ∉ s.returned.map Prod.fst

structure Inv (s : Table Payload) : Prop where
  ready : ∀ idx, (s.core idx).state = .inFlightReady → OwnRecord s idx
  won : ∀ i token, (s.consumers i).holds = some token → Won s token
  single : ∀ i j token token', (s.consumers i).holds = some token →
    (s.consumers j).holds = some token' → token.index = token'.index → i = j
  exchanging : ∀ i token discard current, s.consumers i = .exchanging token discard current →
    current = { generation := token.generation, state := .inFlightReady }
  own : ∀ p ∈ s.returned, (∃ record, p.2 = some record ∧ record.token = p.1) ∧
    p.1.generation < (s.core p.1.index).generation
  once : (s.returned.map Prod.fst).Nodup
  driver : DriverOk s

theorem OpToken.eq_of_parts {t t' : OpToken} (hi : t.index = t'.index)
    (hg : t.generation = t'.generation) : t = t' := by
  cases t
  cases t'
  cases hi
  cases hg
  rfl

theorem inv_new (capacity : Nat) : Inv (Table.new capacity : Table Payload) := by
  refine ⟨?_, ?_, ?_, ?_, ?_, List.nodup_nil, trivial⟩
  · intro idx h
    exact absurd h (by simp [Table.new])
  · intro i token h
    exact absurd h (by simp [Table.new, ConsumerPc.holds])
  · intro i j token token' h
    exact absurd h (by simp [Table.new, ConsumerPc.holds])
  · intro i token discard current h
    exact absurd h (by simp [Table.new])
  · intro p hp
    exact absurd hp (by simp [Table.new])

theorem Inv.faithful (h : Inv s) : Faithful s :=
  ⟨fun p hp => (h.own p hp).1, h.once, fun idx hready => (h.ready idx hready).1⟩

/-! ## Steps that change one packed word -/

/-- What a change of the packed words must keep: no new ready slot, generations do
not shrink. -/
structure WordsMove (s s' : Table Payload) : Prop where
  data : s'.data = s.data
  consumers : s'.consumers = s.consumers
  returned : s'.returned = s.returned
  ready : ∀ idx, (s'.core idx).state = .inFlightReady → s'.core idx = s.core idx
  grow : ∀ idx, (s.core idx).generation ≤ (s'.core idx).generation

/-- A step of the driver, or of a submission, that moves words only. -/
theorem Inv.of_wordsMove (h : Inv s) (hm : WordsMove s s') (hd : DriverOk s') : Inv s' := by
  have hheld : ∀ idx, NotHeld s idx → NotHeld s' idx := by
    intro idx hn i token
    rw [hm.consumers]
    exact hn i token
  refine ⟨?_, ?_, ?_, ?_, ?_, ?_, hd⟩
  · intro idx hready
    have hword := hm.ready idx hready
    rw [hword] at hready
    obtain ⟨hrecord, hn⟩ := h.ready idx hready
    refine ⟨?_, hheld idx hn⟩
    rw [hm.data, hword]
    exact hrecord
  · intro i token hi
    rw [hm.consumers] at hi
    obtain ⟨hdata, hover, hfresh⟩ := h.won i token hi
    exact ⟨by rw [hm.data]; exact hdata, Nat.lt_of_lt_of_le hover (hm.grow _),
      by rw [hm.returned]; exact hfresh⟩
  · rw [hm.consumers]
    exact h.single
  · rw [hm.consumers]
    exact h.exchanging
  · rw [hm.returned]
    intro p hp
    obtain ⟨hrecord, hover⟩ := h.own p hp
    exact ⟨hrecord, Nat.lt_of_lt_of_le hover (hm.grow _)⟩
  · rw [hm.returned]
    exact h.once

/-- One word changes to a state that is not ready, under a generation that is not
smaller. -/
theorem wordsMove_setCore {idx : Nat} {word : PackedCoreState} (hcore : s'.core =
      Function.update s.core idx word) (hdata : s'.data = s.data)
    (hconsumers : s'.consumers = s.consumers) (hreturned : s'.returned = s.returned)
    (hready : word.state = .inFlightReady → word = s.core idx)
    (hgrow : (s.core idx).generation ≤ word.generation) : WordsMove s s' := by
  refine ⟨hdata, hconsumers, hreturned, ?_, ?_⟩
  · intro j hj
    rw [hcore] at hj ⊢
    by_cases heq : j = idx
    · subst heq
      rw [Function.update_self] at hj ⊢
      exact hready hj
    · rw [Function.update_of_ne heq]
  · intro j
    rw [hcore]
    by_cases heq : j = idx
    · subst heq
      rw [Function.update_self]
      exact hgrow
    · rw [Function.update_of_ne heq]

/-- Nothing shared changes. -/
theorem wordsMove_refl (hcore : s'.core = s.core) (hdata : s'.data = s.data)
    (hconsumers : s'.consumers = s.consumers) (hreturned : s'.returned = s.returned) :
    WordsMove s s' :=
  ⟨hdata, hconsumers, hreturned, fun idx _ => by rw [hcore], fun idx => by rw [hcore]⟩

/-! ## The driver -/

theorem Inv.driverStep (h : Inv s) (hsep : Separated s .driver)
    (hrun : s.driverStep = some s') : Inv s' := by
  have hd := h.driver
  unfold DriverOk at hd
  unfold Separated at hsep
  unfold Table.driverStep at hrun
  cases hpc : s.driver with
  | idle =>
    simp only [hpc] at hrun
    exact absurd hrun (by simp)
  | scanning deferred =>
    simp only [hpc] at hrun
    split at hrun
    · cases hrun
      exact h.of_wordsMove (wordsMove_refl rfl rfl rfl rfl) trivial
    · split at hrun
      · rename_i hidle
        cases hrun
        exact h.of_wordsMove (wordsMove_refl rfl rfl rfl rfl) hidle
      · cases hrun
        exact h.of_wordsMove (wordsMove_refl rfl rfl rfl rfl) trivial
  | found idx deferred =>
    simp only [hpc] at hrun hd hsep
    cases hrun
    refine h.of_wordsMove (wordsMove_refl rfl rfl rfl rfl) ⟨hd, ?_⟩
    rw [nextGeneration_of_lt hsep]
    exact Nat.lt_succ_self _
  | resetting idx newGen deferred =>
    simp only [hpc] at hrun hd
    cases hrun
    refine h.of_wordsMove (wordsMove_setCore rfl rfl rfl rfl ?_ (Nat.le_of_lt hd.2)) ?_
    · intro hready
      exact absurd hready (by simp)
    · simp [DriverOk, Table.setCore]
  | reserving idx newGen deferred =>
    simp only [hpc] at hrun hd
    cases hrun
    refine h.of_wordsMove (wordsMove_setCore rfl rfl rfl rfl ?_ (Nat.le_refl _)) trivial
    intro hready
    exact absurd hready (by simp)
  | recording record =>
    simp only [hpc] at hrun
    split at hrun
    · cases hrun
      exact h.of_wordsMove (wordsMove_refl rfl rfl rfl rfl) trivial
    · rename_i hgen
      split at hrun
      · rename_i hwaiting
        cases hrun
        refine h.of_wordsMove (wordsMove_refl rfl rfl rfl rfl) ?_
        show s.core record.token.index = _
        rw [← Decidable.not_not.mp hgen, ← hwaiting]
      · split at hrun
        · cases hrun
          exact h
        · cases hrun
          exact h.of_wordsMove (wordsMove_refl rfl rfl rfl rfl) trivial
  | recordCas record current =>
    simp only [hpc] at hrun hd
    split at hrun
    · rename_i hcurrent
      cases hrun
      refine h.of_wordsMove (wordsMove_setCore rfl rfl rfl rfl ?_ ?_) ?_
      · intro hready
        exact absurd hready (by simp)
      · rw [hcurrent, hd]
      · simp [DriverOk, Table.setCore]
    · cases hrun
      exact h.of_wordsMove (wordsMove_refl rfl rfl rfl rfl) trivial
  | recordStore record =>
    simp only [hpc] at hrun hd hsep
    cases hrun
    -- nobody has won the old record of this cell, so only this cell's own facts change
    have hother : ∀ idx, idx ≠ record.token.index →
        Function.update s.data record.token.index (some record) idx = s.data idx :=
      fun idx hidx => Function.update_of_ne hidx ..
    refine ⟨?_, ?_, h.single, h.exchanging, h.own, h.once, ?_⟩
    · intro idx hready
      have hne : idx ≠ record.token.index := by
        rintro rfl
        rw [show (s.core record.token.index).state = .finalizing by rw [hd]] at hready
        exact absurd hready (by simp)
      obtain ⟨hrecord, hn⟩ := h.ready idx hready
      refine ⟨?_, hn⟩
      show ∃ r, Function.update s.data record.token.index (some record) idx = some r ∧ _
      rw [hother idx hne]
      exact hrecord
    · intro i token hi
      obtain ⟨hdata, hover, hfresh⟩ := h.won i token hi
      refine ⟨?_, hover, hfresh⟩
      show ∃ r, Function.update s.data record.token.index (some record) token.index = some r ∧ _
      rw [hother token.index (hsep i token hi)]
      exact hdata
    · exact ⟨hd, Function.update_self .., hsep⟩
  | recordNote record =>
    simp only [hpc] at hrun hd
    cases hrun
    exact h.of_wordsMove (wordsMove_refl rfl rfl rfl rfl) hd
  | recordReady record =>
    simp only [hpc] at hrun hd
    cases hrun
    obtain ⟨hword, hdata, hn⟩ := hd
    have hother : ∀ idx, idx ≠ record.token.index → Function.update s.core record.token.index
        { generation := record.token.generation, state := .inFlightReady } idx = s.core idx :=
      fun idx hidx => Function.update_of_ne hidx ..
    have hgen : ∀ idx, (Function.update s.core record.token.index
        { generation := record.token.generation, state := .inFlightReady } idx).generation =
        (s.core idx).generation := by
      intro idx
      by_cases hidx : idx = record.token.index
      · rw [hidx, Function.update_self, hword]
      · rw [hother idx hidx]
    refine ⟨?_, ?_, h.single, h.exchanging, ?_, h.once, trivial⟩
    · intro idx hready
      by_cases hidx : idx = record.token.index
      · subst hidx
        refine ⟨⟨record, hdata, rfl, ?_⟩, hn⟩
        exact ((hgen _).trans (by rw [hword])).symm
      · have hready' : (s.core idx).state = .inFlightReady := by
          rw [← hother idx hidx]
          exact hready
        obtain ⟨⟨r, hr, hri, hrg⟩, hn'⟩ := h.ready idx hready'
        exact ⟨⟨r, hr, hri, hrg.trans (hgen idx).symm⟩, hn'⟩
    · intro i token hi
      obtain ⟨hd, hover, hfresh⟩ := h.won i token hi
      exact ⟨hd, Nat.lt_of_lt_of_eq hover (hgen _).symm, hfresh⟩
    · intro p hp
      obtain ⟨hr, hover⟩ := h.own p hp
      exact ⟨hr, Nat.lt_of_lt_of_eq hover (hgen _).symm⟩
  | freeing idx =>
    simp only [hpc] at hrun
    cases hrun
    refine h.of_wordsMove (wordsMove_setCore rfl rfl rfl rfl ?_ ?_) trivial
    · unfold Table.freed
      split
      · exact fun _ => rfl
      · intro hready
        exact absurd hready (by simp)
    · unfold Table.freed
      split
      · exact Nat.le_refl _
      · exact Nat.le_refl _
  | pushing idx =>
    simp only [hpc] at hrun
    cases hrun
    exact h.of_wordsMove (wordsMove_refl rfl rfl rfl rfl) trivial

/-! ## The other events -/

/-- The driver's slot is idle or finalizing while the driver works on it, and no
consumer touches such a slot. -/
theorem DriverOk.frame (hd : DriverOk s) (hdriver : s'.driver = s.driver)
    (hcore : ∀ idx, (s.core idx).state = .idle ∨ (s.core idx).state = .finalizing →
      s'.core idx = s.core idx)
    (hdata : ∀ idx, (s.core idx).state = .finalizing → NotHeld s idx →
      s'.data idx = s.data idx ∧ NotHeld s' idx) : DriverOk s' := by
  unfold DriverOk at hd ⊢
  rw [hdriver]
  cases hpc : s.driver with
  | found idx deferred =>
    simp only [hpc] at hd ⊢
    rw [hcore idx (Or.inl hd)]
    exact hd
  | resetting idx newGen deferred =>
    simp only [hpc] at hd ⊢
    rw [hcore idx (Or.inl hd.1)]
    exact hd
  | reserving idx newGen deferred =>
    simp only [hpc] at hd ⊢
    rw [hcore idx (Or.inl hd)]
    exact hd
  | recordCas record current =>
    simp only [hpc] at hd ⊢
    exact hd
  | recordStore record =>
    simp only [hpc] at hd ⊢
    rw [hcore _ (Or.inr (by rw [hd]))]
    exact hd
  | recordNote record =>
    simp only [hpc] at hd ⊢
    obtain ⟨hword, hrecord, hn⟩ := hd
    have hfin : (s.core record.token.index).state = .finalizing := by rw [hword]
    obtain ⟨hd', hn'⟩ := hdata _ hfin hn
    rw [hcore _ (Or.inr hfin), hd']
    exact ⟨hword, hrecord, hn'⟩
  | recordReady record =>
    simp only [hpc] at hd ⊢
    obtain ⟨hword, hrecord, hn⟩ := hd
    have hfin : (s.core record.token.index).state = .finalizing := by rw [hword]
    obtain ⟨hd', hn'⟩ := hdata _ hfin hn
    rw [hcore _ (Or.inr hfin), hd']
    exact ⟨hword, hrecord, hn'⟩
  | idle => trivial
  | scanning deferred => trivial
  | recording record => trivial
  | freeing idx => trivial
  | pushing idx => trivial

theorem Inv.orphan (h : Inv s) {token : OpToken} (hword : s.core token.index =
      { generation := token.generation, state := .inFlightWaiting }) :
    Inv (s.setCore token.index
      { generation := token.generation, state := .inFlightOrphaned }) := by
  refine h.of_wordsMove (wordsMove_setCore rfl rfl rfl rfl ?_ ?_) ?_
  · intro hready
    exact absurd hready (by simp)
  · rw [hword]
  · refine h.driver.frame rfl ?_ fun idx _ hn => ⟨rfl, hn⟩
    intro idx hstate
    refine Function.update_of_ne ?_ ..
    rintro rfl
    rw [hword] at hstate
    exact absurd hstate (by simp)

/-- A consumer that holds nothing before and after its step changes nothing that
matters, if it remembers a ready word when it goes on to exchange it. -/
theorem Inv.of_setConsumer (h : Inv s) {i : Nat} {pc : ConsumerPc}
    (hbefore : (s.consumers i).holds = none) (hafter : pc.holds = none)
    (hexchanging : ∀ token discard current, pc = .exchanging token discard current →
      current = { generation := token.generation, state := .inFlightReady }) :
    Inv (s.setConsumer i pc) := by
  have hholds : ∀ j token, ((s.setConsumer i pc).consumers j).holds = some token ↔
      (s.consumers j).holds = some token := by
    intro j token
    unfold Table.setConsumer
    by_cases hj : j = i
    · subst hj
      simp [hbefore, hafter]
    · simp [hj]
  have hheld : ∀ idx, NotHeld s idx → NotHeld (s.setConsumer i pc) idx :=
    fun idx hn j token hj => hn j token ((hholds j token).mp hj)
  refine ⟨?_, ?_, ?_, ?_, h.own, h.once, ?_⟩
  · intro idx hready
    obtain ⟨hrecord, hn⟩ := h.ready idx hready
    exact ⟨hrecord, hheld idx hn⟩
  · intro j token hj
    obtain ⟨hdata, hover, hfresh⟩ := h.won j token ((hholds j token).mp hj)
    exact ⟨hdata, hover, hfresh⟩
  · intro j j' token token' hj hj'
    exact h.single j j' token token' ((hholds j token).mp hj) ((hholds j' token').mp hj')
  · intro j token discard current hj
    have hj : Function.update s.consumers i pc j = .exchanging token discard current := hj
    by_cases hji : j = i
    · subst hji
      rw [Function.update_self] at hj
      exact hexchanging token discard current hj
    · rw [Function.update_of_ne hji] at hj
      exact h.exchanging j token discard current hj
  · exact h.driver.frame rfl (fun _ _ => rfl) fun idx _ hn => ⟨rfl, hheld idx hn⟩

/-- A consumer wins the record of its token: the slot was ready under the token's
generation, so the record is the token's own. -/
theorem Inv.win (h : Inv s) {i : Nat} {token : OpToken} {discard : Bool}
    (hpc : (s.consumers i).holds = none)
    (hword : s.core token.index = { generation := token.generation, state := .inFlightReady })
    (hwrap : token.generation + 1 < 2 ^ 32) :
    Inv ((s.setCore token.index
      { generation := nextGeneration token.generation, state := .idle }).setConsumer i
        (.clearing token discard)) := by
  rw [nextGeneration_of_lt hwrap]
  have hready : (s.core token.index).state = .inFlightReady := by rw [hword]
  obtain ⟨⟨record, hrecord, hri, hrg⟩, hn⟩ := h.ready token.index hready
  have htoken : record.token = token := OpToken.eq_of_parts hri (by rw [hrg, hword])
  set word : PackedCoreState := { generation := token.generation + 1, state := .idle } with hnew
  have hcore : ∀ idx, idx ≠ token.index →
      Function.update s.core token.index word idx = s.core idx :=
    fun idx hidx => Function.update_of_ne hidx ..
  have hgrow : ∀ idx, (s.core idx).generation ≤
      (Function.update s.core token.index word idx).generation := by
    intro idx
    by_cases hidx : idx = token.index
    · rw [hidx, Function.update_self, hword]
      exact Nat.le_succ _
    · rw [hcore idx hidx]
  have hholds : ∀ j, j ≠ i →
      Function.update s.consumers i (.clearing token discard) j = s.consumers j :=
    fun j hj => Function.update_of_ne hj ..
  have hheld : ∀ idx, idx ≠ token.index → NotHeld s idx →
      NotHeld ((s.setCore token.index word).setConsumer i (.clearing token discard)) idx := by
    intro idx hidx hn j token' hj
    by_cases hji : j = i
    · subst hji
      simp only [Table.setConsumer, Function.update_self, ConsumerPc.holds] at hj
      cases hj
      exact Ne.symm hidx
    · simp only [Table.setConsumer, Table.setCore, hholds j hji] at hj
      exact hn j token' hj
  have hfresh : token ∉ s.returned.map Prod.fst := by
    intro hin
    obtain ⟨p, hp, rfl⟩ := List.mem_map.mp hin
    have hover := (h.own p hp).2
    rw [hword] at hover
    exact absurd hover (by simp)
  refine ⟨?_, ?_, ?_, ?_, ?_, h.once, ?_⟩
  · intro idx hidxReady
    have hne : idx ≠ token.index := by
      rintro rfl
      simp [Table.setConsumer, Table.setCore, hnew] at hidxReady
    have hsame : ((s.setCore token.index word).setConsumer i (.clearing token discard)).core idx =
        s.core idx := hcore idx hne
    rw [hsame] at hidxReady
    obtain ⟨hrecord', hn'⟩ := h.ready idx hidxReady
    refine ⟨?_, hheld idx hne hn'⟩
    rw [hsame]
    exact hrecord'
  · intro j token' hj
    by_cases hji : j = i
    · subst hji
      simp only [Table.setConsumer, Function.update_self, ConsumerPc.holds] at hj
      cases hj
      refine ⟨⟨record, hrecord, htoken⟩, ?_, hfresh⟩
      show token.generation < (Function.update s.core token.index word token.index).generation
      rw [Function.update_self]
      exact Nat.lt_succ_self _
    · simp only [Table.setConsumer, Table.setCore, hholds j hji] at hj
      obtain ⟨hdata, hover, hfresh'⟩ := h.won j token' hj
      exact ⟨hdata, Nat.lt_of_lt_of_le hover (hgrow _), hfresh'⟩
  · intro j j' token₁ token₂ hj hj' heq
    by_cases hji : j = i <;> by_cases hji' : j' = i
    · rw [hji, hji']
    · subst hji
      simp only [Table.setConsumer, Table.setCore, Function.update_self, hholds j' hji',
        ConsumerPc.holds] at hj hj'
      cases hj
      exact absurd heq.symm (hn j' token₂ hj')
    · subst hji'
      simp only [Table.setConsumer, Table.setCore, Function.update_self, hholds j hji,
        ConsumerPc.holds] at hj hj'
      cases hj'
      exact absurd heq (hn j token₁ hj)
    · simp only [Table.setConsumer, Table.setCore, hholds j hji, hholds j' hji'] at hj hj'
      exact h.single j j' token₁ token₂ hj hj' heq
  · intro j token' discard' current hj
    by_cases hji : j = i
    · subst hji
      simp [Table.setConsumer] at hj
    · simp only [Table.setConsumer, Table.setCore, hholds j hji] at hj
      exact h.exchanging j token' discard' current hj
  · intro p hp
    obtain ⟨hr, hover⟩ := h.own p hp
    exact ⟨hr, Nat.lt_of_lt_of_le hover (hgrow _)⟩
  · refine h.driver.frame rfl ?_ ?_
    · intro idx hstate
      refine hcore idx ?_
      rintro rfl
      rw [hready] at hstate
      exact absurd hstate (by simp)
    · intro idx hfin hnidx
      refine ⟨rfl, hheld idx ?_ hnidx⟩
      rintro rfl
      rw [hready] at hfin
      exact absurd hfin (by simp)

/-- Counting down keeps what the consumer has won. -/
theorem Inv.clear (h : Inv s) {i : Nat} {token : OpToken} {discard : Bool}
    (hpc : s.consumers i = .clearing token discard) :
    Inv { s.setConsumer i (.taking token discard) with
      readyCompletionCount := s.readyCompletionCount - 1 } := by
  have hholds : ∀ j, (Function.update s.consumers i (.taking token discard) j).holds =
      (s.consumers j).holds := by
    intro j
    by_cases hj : j = i
    · subst hj
      rw [Function.update_self, hpc]
      rfl
    · rw [Function.update_of_ne hj]
  have hheld : ∀ idx, NotHeld s idx → NotHeld { s.setConsumer i (.taking token discard) with
      readyCompletionCount := s.readyCompletionCount - 1 } idx := by
    intro idx hn j token' hj
    exact hn j token' ((hholds j).symm.trans hj)
  refine ⟨?_, ?_, ?_, ?_, h.own, h.once, ?_⟩
  · intro idx hready
    obtain ⟨hrecord, hn⟩ := h.ready idx hready
    exact ⟨hrecord, hheld idx hn⟩
  · intro j token' hj
    obtain ⟨hdata, hover, hfresh⟩ := h.won j token' ((hholds j).symm.trans hj)
    exact ⟨hdata, hover, hfresh⟩
  · intro j j' token₁ token₂ hj hj'
    exact h.single j j' token₁ token₂ ((hholds j).symm.trans hj) ((hholds j').symm.trans hj')
  · intro j token' discard' current hj
    have hj : Function.update s.consumers i (.taking token discard) j =
      .exchanging token' discard' current := hj
    by_cases hji : j = i
    · subst hji
      rw [Function.update_self] at hj
      exact absurd hj (by simp)
    · rw [Function.update_of_ne hji] at hj
      exact h.exchanging j token' discard' current hj
  · exact h.driver.frame rfl (fun _ _ => rfl) fun idx _ hn => ⟨rfl, hheld idx hn⟩

/-- The consumer takes the cell it has won, and finds its own record. -/
theorem Inv.take (h : Inv s) {i : Nat} {token : OpToken} {discard : Bool}
    (hpc : s.consumers i = .taking token discard) :
    Inv { s.setConsumer i .idle with
      data := Function.update s.data token.index none
      returned := if discard then s.returned else s.returned ++ [(token, s.data token.index)] } := by
  have hi : (s.consumers i).holds = some token := by
    rw [hpc]
    rfl
  obtain ⟨⟨record, hrecord, htoken⟩, hover, hfresh⟩ := h.won i token hi
  set s' : Table Payload := { s.setConsumer i .idle with
    data := Function.update s.data token.index none
    returned := if discard then s.returned else s.returned ++ [(token, s.data token.index)] }
    with hs'
  have hholds : ∀ j token', (s'.consumers j).holds = some token' →
      j ≠ i ∧ (s.consumers j).holds = some token' := by
    intro j token' hj
    have hj : (Function.update s.consumers i .idle j).holds = some token' := hj
    by_cases hji : j = i
    · subst hji
      rw [Function.update_self] at hj
      exact absurd hj (by simp [ConsumerPc.holds])
    · rw [Function.update_of_ne hji] at hj
      exact ⟨hji, hj⟩
  have hheld : ∀ idx, NotHeld s idx → NotHeld s' idx :=
    fun idx hn j token' hj => hn j token' (hholds j token' hj).2
  have hdata : ∀ idx, idx ≠ token.index → s'.data idx = s.data idx :=
    fun idx hidx => Function.update_of_ne hidx ..
  have hmem : ∀ p ∈ s'.returned, p ∈ s.returned ∨ p = (token, s.data token.index) := by
    intro p hp
    rw [hs'] at hp
    by_cases hdiscard : discard = true
    · simp only [hdiscard, if_true] at hp
      exact Or.inl hp
    · simp only [hdiscard] at hp
      simpa using hp
  refine ⟨?_, ?_, ?_, ?_, ?_, ?_, ?_⟩
  · intro idx hready
    obtain ⟨hrecord', hn⟩ := h.ready idx hready
    refine ⟨?_, hheld idx hn⟩
    rw [hdata idx (Ne.symm (hn i token hi))]
    exact hrecord'
  · intro j token' hj
    obtain ⟨hji, hj⟩ := hholds j token' hj
    obtain ⟨hdata', hover', hfresh'⟩ := h.won j token' hj
    have hne : token'.index ≠ token.index := fun heq =>
      hji (h.single j i token' token hj hi heq)
    refine ⟨?_, hover', ?_⟩
    · rw [hdata token'.index hne]
      exact hdata'
    · intro hin
      obtain ⟨p, hp, rfl⟩ := List.mem_map.mp hin
      rcases hmem p hp with hp | rfl
      · exact hfresh' (List.mem_map_of_mem hp)
      · exact hne rfl
  · intro j j' token₁ token₂ hj hj'
    exact h.single j j' token₁ token₂ (hholds j token₁ hj).2 (hholds j' token₂ hj').2
  · intro j token' discard' current hj
    have hj : Function.update s.consumers i .idle j = .exchanging token' discard' current := hj
    by_cases hji : j = i
    · subst hji
      rw [Function.update_self] at hj
      exact absurd hj (by simp)
    · rw [Function.update_of_ne hji] at hj
      exact h.exchanging j token' discard' current hj
  · intro p hp
    rcases hmem p hp with hp | rfl
    · exact h.own p hp
    · exact ⟨⟨record, hrecord, htoken⟩, hover⟩
  · rw [hs']
    by_cases hdiscard : discard = true
    · simp only [hdiscard, if_true]
      exact h.once
    · simp only [hdiscard, Bool.false_eq_true, if_false]
      rw [List.map_append, List.map_singleton]
      refine List.nodup_append.mpr ⟨h.once, by simp, ?_⟩
      rintro token₁ hin token₂ hin' rfl
      rw [List.mem_singleton] at hin'
      subst hin'
      exact hfresh hin
  · refine h.driver.frame rfl (fun _ _ => rfl) ?_
    intro idx _ hn
    exact ⟨hdata idx (Ne.symm (hn i token hi)), hheld idx hn⟩

theorem Inv.consumerStep (h : Inv s) {i : Nat} (hsep : Separated s (.consumer i))
    (hrun : s.consumerStep i = some s') : Inv s' := by
  unfold Separated at hsep
  unfold Table.consumerStep at hrun
  cases hpc : s.consumers i with
  | idle =>
    simp only [hpc] at hrun
    exact absurd hrun (by simp)
  | loading token discard =>
    simp only [hpc] at hrun
    have hholds : (s.consumers i).holds = none := by
      rw [hpc]
      rfl
    split at hrun
    · rename_i hready
      cases hrun
      refine h.of_setConsumer hholds rfl ?_
      intro token' discard' current heq
      cases heq
      rw [← hready.1, ← hready.2]
    · split at hrun
      · cases hrun
        exact h
      · cases hrun
        exact h.of_setConsumer hholds rfl fun _ _ _ heq => absurd heq (by simp)
  | exchanging token discard current =>
    simp only [hpc] at hrun hsep
    have hholds : (s.consumers i).holds = none := by
      rw [hpc]
      rfl
    split at hrun
    · rename_i hcurrent
      cases hrun
      exact h.win hholds (hcurrent.trans (h.exchanging i token discard current hpc)) hsep
    · cases hrun
      split
      · exact h.of_setConsumer hholds rfl fun _ _ _ heq => absurd heq (by simp)
      · exact h.of_setConsumer hholds rfl fun _ _ _ heq => absurd heq (by simp)
  | clearing token discard =>
    simp only [hpc] at hrun
    cases hrun
    exact h.clear hpc
  | taking token discard =>
    simp only [hpc] at hrun
    cases hrun
    exact h.take hpc

/-- Every separated step keeps the invariant. -/
theorem Inv.step (h : Inv s) {e : Event Payload} (hsep : Separated s e) (hs : Step s e s') :
    Inv s' := by
  unfold Step Table.next at hs
  cases e with
  | alloc =>
    simp only at hs
    split at hs
    · split at hs
      · cases hs
        exact h.of_wordsMove (wordsMove_refl rfl rfl rfl rfl) trivial
      · cases hs
        exact h.of_wordsMove (wordsMove_refl rfl rfl rfl rfl) trivial
    · exact absurd hs (by simp)
  | submit idx =>
    simp only at hs
    split at hs
    · rename_i hidle
      split at hs
      · cases hs
        refine h.of_wordsMove (wordsMove_setCore rfl rfl rfl rfl ?_ (Nat.le_refl _)) ?_
        · intro hready
          exact absurd hready (by simp)
        · unfold DriverOk Table.setCore
          rw [hidle]
          trivial
      · exact absurd hs (by simp)
    · exact absurd hs (by simp)
  | record record =>
    simp only at hs
    split at hs
    · cases hs
      exact h.of_wordsMove (wordsMove_refl rfl rfl rfl rfl) trivial
    · exact absurd hs (by simp)
  | remove token =>
    simp only at hs
    split at hs
    · split at hs
      · cases hs
        exact h.of_wordsMove (wordsMove_refl rfl rfl rfl rfl) trivial
      · exact absurd hs (by simp)
    · exact absurd hs (by simp)
  | driver => exact h.driverStep hsep hs
  | orphan token =>
    simp only at hs
    split at hs
    · rename_i hword
      cases hs
      exact h.orphan hword
    · exact absurd hs (by simp)
  | take i token discard =>
    simp only at hs
    split at hs
    · rename_i hidle
      cases hs
      refine h.of_setConsumer ?_ rfl fun _ _ _ heq => absurd heq (by simp)
      rw [hidle]
      rfl
    · exact absurd hs (by simp)
  | consumer i => exact h.consumerStep hsep hs

/-- **Completions reach their own operations in separated runs.**  If in a run a data
cell is written only while no consumer stands between winning and taking it, and no
generation wraps around, then in every state of the run each record that was taken
is the one stored for the same token, no token is served twice, and a ready slot
holds its own record. -/
theorem faithful_of_separated {capacity : Nat}
    (h : Run Step Separated (fun s => s = Table.new capacity) s) : Faithful s := by
  have hinv : Inv s := by
    refine h.invariant ?_ fun _ _ _ hinv hsep hs => hinv.step hsep hs
    rintro s rfl
    exact inv_new capacity
  exact hinv.faithful

/-- The token of slot `0`. -/
def slotToken (generation : Nat) (h : generation < 2 ^ 32) : OpToken :=
  ⟨0, generation, indexLimit_pos, h⟩

/-- What `record_completion` is given for slot `0`. -/
def slotRecord (generation : Nat) (h : generation < 2 ^ 32) : CompletionRecord Unit :=
  { token := slotToken generation h, res := 0, flags := 0, payload := () }

/-- A test for `Separated` that gives up on writes to a data cell. -/
def separatedTest (s : Table Unit) : Event Unit → Bool
  | .driver =>
      match s.driver with
      | .recordStore _ => false
      | .found idx _ => (s.core idx).generation + 1 < 2 ^ 32
      | _ => true
  | .consumer i =>
      match s.consumers i with
      | .exchanging token _ _ => token.generation + 1 < 2 ^ 32
      | _ => true
  | _ => true

theorem separated_of_test (s : Table Unit) (e : Event Unit) (h : separatedTest s e = true) :
    Separated s e := by
  unfold separatedTest at h
  unfold Separated
  cases e with
  | driver =>
    simp only at h ⊢
    split at h
    · exact absurd h (by simp)
    · rename_i hpc
      simp only [hpc]
      exact of_decide_eq_true h
    · split
      · simp_all
      · simp_all
      · trivial
  | consumer i =>
    cases hpc : s.consumers i with
    | exchanging token discard current =>
      simp only [hpc] at h ⊢
      exact of_decide_eq_true h
    | _ => simp only [hpc]
  | _ => trivial

/-- An operation of slot `0` up to the write of its record. -/
def untilStore (generation : Nat) (h : generation < 2 ^ 32) : List (Event Unit) :=
  [.alloc, .driver, .driver, .driver, .driver, .submit 0, .record (slotRecord generation h),
    .driver, .driver]

/-- The table when the first record is about to be written. -/
def beforeStore : Table Unit :=
  (replay Table.next separatedTest (Table.new 1) (untilStore 1 first_generation_lt)).get
    (by decide +kernel)

/-- The table after the write. -/
def afterStore : Table Unit :=
  (beforeStore.driverStep).get (by decide +kernel)

/-- The table after the consumer has taken the record. -/
def afterTake : Table Unit :=
  (replay Table.next separatedTest afterStore [.driver, .driver,
    .take 0 (slotToken 1 first_generation_lt) false, .consumer 0, .consumer 0, .consumer 0,
    .consumer 0]).get (by decide +kernel)

/-- One operation from its allocation to the return of its record, while no other
call is in progress. -/
theorem faithful_single_operation :
    Run Step Separated (fun s => s = Table.new 1) afterTake ∧
      afterTake.returned.map Prod.fst = [slotToken 1 (by decide)] ∧ Faithful afterTake := by
  have hnext : ∀ (s : Table Unit) e s', s.next e = some s' → Step s e s' := fun _ _ _ h => h
  have hstart : Run Step Separated (fun s => s = Table.new 1) (Table.new 1 : Table Unit) :=
    Run.start rfl
  have hbefore : Run Step Separated (fun s => s = Table.new 1) beforeStore :=
    hstart.replay hnext separated_of_test (Option.some_get _).symm
  have hseparated : Separated beforeStore .driver := by
    have hdriver : beforeStore.driver = .recordStore (slotRecord 1 (by decide)) := by
      with_unfolding_all rfl
    have hconsumers : beforeStore.consumers = fun _ => .idle := by
      with_unfolding_all rfl
    simp only [Separated, hdriver, NotHeld, hconsumers]
    intro i token h
    exact absurd h (by simp [ConsumerPc.holds])
  have hafter : Run Step Separated (fun s => s = Table.new 1) afterStore :=
    hbefore.next .driver hseparated (Option.some_get _).symm
  have hrun : Run Step Separated (fun s => s = Table.new 1) afterTake :=
    hafter.replay hnext separated_of_test (Option.some_get _).symm
  exact ⟨hrun, by decide +kernel, faithful_of_separated hrun⟩

/-- Consumer `0` wins the record of generation `1` and stops; the slot is removed,
allocated and completed again; the consumer then takes the cell. -/
def overtaking : List (Event Unit) :=
  untilStore 1 first_generation_lt ++
    ([.driver, .driver, .driver, .take 0 (slotToken 1 first_generation_lt) false, .consumer 0,
      .consumer 0, .remove (slotToken 1 first_generation_lt), .driver,
      .driver] : List (Event Unit)) ++ untilStore 3 (by decide) ++
    ([.driver, .driver, .driver, .consumer 0, .consumer 0] : List (Event Unit))

/-- The table after these events. -/
def overtaken : Table Unit :=
  (replay Table.next (fun _ _ => true) (Table.new 1) overtaking).get (by decide +kernel)

/-- The call for generation `1` returns the record of generation `3`, whose slot is
left ready and empty. -/
theorem overtaken_not_faithful :
    Run Step Always (fun s => s = Table.new 1) overtaken ∧
      overtaken.returned = [(slotToken 1 (by decide), some (slotRecord 3 (by decide)))] ∧
      (overtaken.core 0).state = .inFlightReady ∧ overtaken.data 0 = none ∧
      ¬ Faithful overtaken := by
  have hstart : Run Step Always (fun s => s = Table.new 1) (Table.new 1 : Table Unit) :=
    Run.start rfl
  have hnext : ∀ (s : Table Unit) e s', s.next e = some s' → Step s e s' := fun _ _ _ h => h
  have hrun : Run Step Always (fun s => s = Table.new 1) overtaken :=
    hstart.replay hnext (fun _ _ _ => trivial) (Option.some_get _).symm
  have hreturned : overtaken.returned =
      [(slotToken 1 (by decide), some (slotRecord 3 (by decide)))] := by
    with_unfolding_all rfl
  refine ⟨hrun, hreturned, by decide +kernel, by with_unfolding_all rfl, ?_⟩
  intro h
  obtain ⟨record, hrecord, htoken⟩ := h.own _ (by rw [hreturned]; exact List.mem_singleton.mpr rfl)
  cases hrecord
  exact absurd (congrArg OpToken.generation htoken) (by decide)

end Veloq.Driver.TableSteps
