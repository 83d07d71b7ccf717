import Veloq.Storage.OptionArc
set_option autoImplicit false

/-!
# Storage: when a cell does not resurrect what it held

Every reference in a strong count is a handle of a caller, the cell's or that of a running call,
and every box that is not freed is the cell's or that of a running call.  A `load_clone` has no
reference of its own between its load and its increment.  So the counts are right as long as
nothing is freed that a `load_clone` has loaded and not used yet.
-/

namespace Veloq.Storage

open Veloq.Foundation

/-- One, if `o` is `x`. -/
def tally (o : Option Nat) (x : Nat) : Nat := (decide (o = some x)).toNat

theorem tally_none (x : Nat) : tally none x = 0 := rfl

theorem tally_self (x : Nat) : tally (some x) x = 1 := by simp [tally]

theorem tally_of_ne {x y : Nat} (h : x ≠ y) : tally (some x) y = 0 := by simp [tally, h]

/-- An `Arc` is released when its count gets to zero, and only then. -/
structure ArcInner.Ledger (inner : ArcInner) : Prop where
  unmade : inner.made = false → inner.strong = 0 ∧ inner.released = 0
  zero : inner.made = true → inner.strong = 0 → inner.released = 1
  pos : inner.made = true → 0 < inner.strong → inner.released = 0

namespace ArcInner.Ledger

variable {inner : ArcInner}

theorem made_of_pos (h : inner.Ledger) (hpos : 0 < inner.strong) : inner.made = true := by
  by_contra hmade
  have hzero := (h.unmade (Bool.eq_false_iff.mpr hmade)).1
  omega

theorem raise (h : inner.Ledger) (hpos : 0 < inner.strong) (handles : Nat) :
    Ledger { inner with strong := inner.strong + 1, handles := handles } := by
  have hmade := h.made_of_pos hpos
  refine ⟨fun hf => ?_, fun _ hzero => ?_, fun _ _ => h.pos hmade hpos⟩
  · exact absurd (hmade.symm.trans hf) Bool.noConfusion
  · exact absurd hzero (Nat.succ_ne_zero _)

theorem lower (h : inner.Ledger) (hpos : 0 < inner.strong) (handles : Nat) :
    Ledger
      { inner with
        strong := inner.strong - 1
        handles := handles
        released := inner.released + if inner.strong = 1 then 1 else 0 } := by
  have hmade := h.made_of_pos hpos
  have hkept := h.pos hmade hpos
  refine ⟨fun hf => ?_, fun _ (hzero : inner.strong - 1 = 0) => ?_,
    fun _ (hlt : 0 < inner.strong - 1) => ?_⟩
  · exact absurd (hmade.symm.trans hf) Bool.noConfusion
  · show inner.released + _ = 1
    rw [if_pos (by omega), hkept]
  · show inner.released + _ = 0
    rw [if_neg (by omega), hkept]

theorem rehandle (h : inner.Ledger) (handles : Nat) : Ledger { inner with handles := handles } :=
  ⟨h.unmade, h.zero, h.pos⟩

theorem released_le (h : inner.Ledger) : inner.released ≤ 1 := by
  cases hmade : inner.made with
  | false => rw [(h.unmade hmade).2]; exact Nat.zero_le 1
  | true =>
      rcases Nat.eq_zero_or_pos inner.strong with hzero | hpos
      · rw [h.zero hmade hzero]
      · rw [h.pos hmade hpos]; exact Nat.zero_le 1

end ArcInner.Ledger

namespace CellPc

/-- The pointer that a call has to itself. -/
def held : CellPc → Option Raw
  | swap new _ => new
  | cas raw | fromRaw raw _ => some raw
  | idle | load | readBox _ | increment _ | decrement _ => none

/-- The `Arc` that a call has a reference to. -/
def arc : CellPc → Option Nat
  | decrement a => some a
  | pc => pc.held.map Raw.arc

/-- The box that a call has to itself. -/
def box (pc : CellPc) : Option Nat := pc.held.bind Raw.box

def owns (a : Nat) (pc : CellPc) : Bool := decide (pc.arc = some a)

def keepsBox (b : Nat) (pc : CellPc) : Bool := decide (pc.box = some b)

theorem arc_of_held {pc : CellPc} {raw : Raw} (h : pc.held = some raw) : pc.arc = some raw.arc := by
  cases pc with
  | decrement a => cases h
  | idle | load | readBox | increment | swap | cas | fromRaw => exact congrArg (Option.map Raw.arc) h

end CellPc

namespace OptionArc

variable {s s' : OptionArc} {e : CellEvent} {t a b : Nat} {raw : Raw}

def cellArc (s : OptionArc) : Option Nat := s.cell.map Raw.arc

def cellBox (s : OptionArc) : Option Nat := s.cell.bind Raw.box

/-- The pointer is the cell's or that of a running call. -/
def Keeps (s : OptionArc) (raw : Raw) : Prop :=
  s.cell = some raw ∨ ∃ t, (s.threads t).held = some raw

/-- The references and the boxes are in the counts, and what a `load_clone` has loaded lives. -/
structure Inv (s : OptionArc) : Prop where
  intact : s.fault = none
  strong : ∀ a, ∃ n, Census (fun t => CellPc.owns a (s.threads t) = true) n ∧
    (s.arcs a).strong = (s.arcs a).handles + tally s.cellArc a + n
  boxed : ∀ b, ∃ n, Census (fun t => CellPc.keepsBox b (s.threads t) = true) n ∧
    (s.boxes b).arc.isSome.toNat = tally s.cellBox b + n
  content : ∀ raw b, s.Keeps raw → raw.box = some b → s.boxes b = .live raw.arc
  read : ∀ t raw, s.threads t = .readBox raw → ∃ b, raw.box = some b ∧ s.boxes b = .live raw.arc
  counted : ∀ t a, s.threads t = .increment a → 0 < (s.arcs a).strong
  ledger : ∀ a, (s.arcs a).Ledger
  settled : s.dropped = true → s.cell = none ∧ ∀ t, s.threads t = .idle

theorem Inv.new (strategy : Strategy) : Inv (new strategy) := by
  refine ⟨rfl, fun a => ⟨0, Census.zero fun t => ?_, rfl⟩, fun b => ⟨0, Census.zero fun t => ?_, rfl⟩,
    fun raw b hkeeps => ?_, fun t raw h => ?_, fun t a h => ?_, fun a => ⟨fun _ => ⟨rfl, rfl⟩, ?_, ?_⟩,
    fun h => ?_⟩
  · exact Bool.false_ne_true
  · exact Bool.false_ne_true
  · rcases hkeeps with hcell | ⟨t, ht⟩
    · cases hcell
    · cases ht
  · cases h
  · cases h
  · exact fun h => Bool.noConfusion h
  · exact fun h => Bool.noConfusion h
  · cases h

/-! ## What one step may change -/

/-- The box is as before, or it is not the business of any call but that of `t`. -/
def BoxStays (s s' : OptionArc) (t b : Nat) : Prop :=
  s'.boxes b = s.boxes b ∨ (∀ u, u ≠ t → (s.threads u).box ≠ some b) ∧
    ∀ u raw, s.threads u = .readBox raw → raw.box ≠ some b

/-- The call of `t` goes on, and the references and the boxes that it, the cell and the callers
have are in balance with the counts. -/
structure Moves (s s' : OptionArc) (t : Nat) (pc : CellPc) : Prop where
  threads : s'.threads = Function.update s.threads t pc
  intact : s'.fault = none
  arcs : ∀ a, (s'.arcs a).strong +
      ((s.arcs a).handles + tally s.cellArc a + tally (s.threads t).arc a) =
    (s.arcs a).strong + ((s'.arcs a).handles + tally s'.cellArc a + tally pc.arc a)
  boxes : ∀ b, (s'.boxes b).arc.isSome.toNat + (tally s.cellBox b + tally (s.threads t).box b) =
    (s.boxes b).arc.isSome.toNat + (tally s'.cellBox b + tally pc.box b)
  stays : ∀ b, BoxStays s s' t b
  content : ∀ raw b, s'.cell = some raw ∨ pc.held = some raw → raw.box = some b →
    s'.boxes b = .live raw.arc
  read : ∀ raw, pc = .readBox raw → ∃ b, raw.box = some b ∧ s'.boxes b = .live raw.arc
  counted : ∀ a, pc = .increment a → 0 < (s'.arcs a).strong
  lives : ∀ a, 0 < (s.arcs a).strong → 0 < (s'.arcs a).strong ∨ s.Unobserved a
  ledger : ∀ a, (s'.arcs a).Ledger
  settled : s'.dropped = true → s'.cell = none ∧ ∀ u, s'.threads u = .idle

theorem Moves.inv (pc : CellPc) (hm : Moves s s' t pc) (h : Inv s) : Inv s' := by
  have hself : s'.threads t = pc := by
    rw [hm.threads]
    exact Function.update_self ..
  have hother : ∀ u, u ≠ t → s'.threads u = s.threads u := fun u hu => by
    rw [hm.threads]
    exact Function.update_of_ne hu ..
  refine ⟨hm.intact, fun a => ?_, fun b => ?_, fun raw b hkeeps hraw => ?_, fun u raw hu => ?_,
    fun u a hu => ?_, hm.ledger, hm.settled⟩
  · obtain ⟨n, hcensus, hstrong⟩ := h.strong a
    obtain ⟨m, hcensus', hcount⟩ := hcensus.update (p := CellPc.owns a) t pc
    refine ⟨m, hm.threads ▸ hcensus', ?_⟩
    have hbalance := hm.arcs a
    unfold tally at hstrong hbalance ⊢
    unfold CellPc.owns at hcount
    omega
  · obtain ⟨n, hcensus, hboxed⟩ := h.boxed b
    obtain ⟨m, hcensus', hcount⟩ := hcensus.update (p := CellPc.keepsBox b) t pc
    refine ⟨m, hm.threads ▸ hcensus', ?_⟩
    have hbalance := hm.boxes b
    unfold tally at hboxed hbalance ⊢
    unfold CellPc.keepsBox at hcount
    omega
  · by_cases hown : s'.cell = some raw ∨ pc.held = some raw
    · exact hm.content raw b hown hraw
    · -- another call has the pointer, and the box with it
      rcases hkeeps with hcell | ⟨u, hheld⟩
      · exact absurd (.inl hcell) hown
      · have hu : u ≠ t := fun heq => hown (.inr (by rw [← hself, ← heq, hheld]))
        rw [hother u hu] at hheld
        have hbox : (s.threads u).box = some b := by
          unfold CellPc.box
          rw [hheld, Option.bind_some, hraw]
        rcases hm.stays b with hsame | ⟨hfree, _⟩
        · rw [hsame]
          exact h.content raw b (.inr ⟨u, hheld⟩) hraw
        · exact absurd hbox (hfree u hu)
  · by_cases hut : u = t
    · rw [hut, hself] at hu
      exact hm.read raw hu
    · rw [hother u hut] at hu
      obtain ⟨b, hraw, hlive⟩ := h.read u raw hu
      rcases hm.stays b with hsame | ⟨_, hunread⟩
      · exact ⟨b, hraw, hsame.trans hlive⟩
      · exact absurd hraw (hunread u raw hu)
  · by_cases hut : u = t
    · rw [hut, hself] at hu
      exact hm.counted a hu
    · rw [hother u hut] at hu
      exact (hm.lives a (h.counted u a hu)).resolve_right fun hnobody => hnobody u hu

theorem freeBox_none (h : raw.box = none) : s.freeBox raw = s := by
  unfold freeBox
  rw [h]

theorem freeBox_some (h : raw.box = some b) : s.freeBox raw = s.setBox b .freed := by
  unfold freeBox
  rw [h]

theorem fillBox_none (h : raw.box = none) : s.fillBox raw = s := by
  unfold fillBox
  rw [h]

theorem fillBox_some (h : raw.box = some b) : s.fillBox raw = s.setBox b (.live raw.arc) := by
  unfold fillBox
  rw [h]

theorem freeBox_threads : (s.freeBox raw).threads = s.threads := by
  unfold freeBox
  split <;> rfl

theorem freeBox_cell : (s.freeBox raw).cell = s.cell := by
  unfold freeBox
  split <;> rfl

theorem freeBox_dropped (raw : Raw) (d : Bool) :
    freeBox { s with dropped := d } raw = { s.freeBox raw with dropped := d } := by
  unfold freeBox
  split <;> rfl

theorem freeBox_goto (pc : CellPc) : (s.goto t pc).freeBox raw = (s.freeBox raw).goto t pc := by
  unfold freeBox
  split <;> rfl

theorem fillBox_dropped : (s.fillBox raw).dropped = s.dropped := by
  unfold fillBox
  split <;> rfl

theorem fillBox_threads : (s.fillBox raw).threads = s.threads := by
  unfold fillBox
  split <;> rfl

theorem fillBox_goto (pc : CellPc) : (s.goto t pc).fillBox raw = (s.fillBox raw).goto t pc := by
  unfold fillBox
  split <;> rfl

namespace Inv

/-! ## Who keeps what alive -/

theorem pos_of_handle (h : Inv s) (ha : 0 < (s.arcs a).handles) : 0 < (s.arcs a).strong := by
  obtain ⟨n, _, hstrong⟩ := h.strong a
  omega

theorem pos_of_cell (h : Inv s) (ha : s.cellArc = some a) : 0 < (s.arcs a).strong := by
  obtain ⟨n, _, hstrong⟩ := h.strong a
  rw [ha, tally_self] at hstrong
  omega

theorem pos_of_arc (h : Inv s) (ha : (s.threads t).arc = some a) : 0 < (s.arcs a).strong := by
  obtain ⟨n, hcensus, hstrong⟩ := h.strong a
  have hpos := hcensus.pos (i := t) (decide_eq_true ha)
  omega

/-- A pointer that is kept leads to its `Arc`. -/
theorem contents_of_keeps (h : Inv s) (hkeeps : s.Keeps raw) : s.contents raw = some raw.arc := by
  unfold contents
  cases hraw : raw.box with
  | none => rfl
  | some b =>
      simp only [h.content raw b hkeeps hraw]
      rfl

/-- A box of a call is nobody else's. -/
theorem box_alone (h : Inv s) (hb : (s.threads t).box = some b) :
    s.cellBox ≠ some b ∧ ∀ u, u ≠ t → (s.threads u).box ≠ some b := by
  obtain ⟨n, hcensus, hboxed⟩ := h.boxed b
  have hpos := hcensus.pos (i := t) (decide_eq_true hb)
  have hle : (s.boxes b).arc.isSome.toNat ≤ 1 := Bool.toNat_le _
  constructor
  · intro hcell
    rw [hcell, tally_self] at hboxed
    omega
  · intro u hu hbox
    exact hu (hcensus.eq_of_le_one (by omega) (decide_eq_true hbox) (decide_eq_true hb))

/-- A box that was not made is nobody's. -/
theorem box_fresh (h : Inv s) (hb : s.boxes b = .fresh) :
    s.cellBox ≠ some b ∧ (∀ u, (s.threads u).box ≠ some b) ∧
      ∀ u raw, s.threads u = .readBox raw → raw.box ≠ some b := by
  obtain ⟨n, hcensus, hboxed⟩ := h.boxed b
  have hzero : (s.boxes b).arc.isSome.toNat = 0 := by rw [hb]; rfl
  refine ⟨fun hcell => ?_, fun u hu => ?_, fun u raw hu hraw => ?_⟩
  · rw [hcell, tally_self] at hboxed
    omega
  · have hpos := hcensus.pos (i := u) (decide_eq_true hu)
    omega
  · obtain ⟨b', hb', hlive⟩ := h.read u raw hu
    rw [Option.some.inj (hraw.symm.trans hb'), hlive] at hb
    cases hb

/-! ## The steps -/

/-- A pointer goes from the cell to a call or back, or a call only goes on. -/
theorem relocate {c : Option Raw} {pc : CellPc} (h : Inv s) (hopen : s.dropped = false)
    (harc : ∀ a, tally s.cellArc a + tally (s.threads t).arc a =
      tally (c.map Raw.arc) a + tally pc.arc a)
    (hbox : ∀ b, tally s.cellBox b + tally (s.threads t).box b =
      tally (c.bind Raw.box) b + tally pc.box b)
    (hcontent : ∀ raw b, c = some raw ∨ pc.held = some raw → raw.box = some b →
      s.boxes b = .live raw.arc)
    (hread : ∀ raw, pc = .readBox raw → ∃ b, raw.box = some b ∧ s.boxes b = .live raw.arc)
    (hcounted : ∀ a, pc = .increment a → 0 < (s.arcs a).strong) :
    Inv (goto { s with cell := c } t pc) := by
  refine Moves.inv (s := s) (t := t) pc ⟨rfl, h.intact, fun a => ?_, fun b => ?_,
    fun b => .inl rfl, hcontent, hread, hcounted, fun a ha => .inl ha,
    h.ledger, fun hd => ?_⟩ h
  · have := harc a
    show (s.arcs a).strong + ((s.arcs a).handles + tally s.cellArc a + tally (s.threads t).arc a) =
      (s.arcs a).strong + ((s.arcs a).handles + tally (c.map Raw.arc) a + tally pc.arc a)
    omega
  · have := hbox b
    show (s.boxes b).arc.isSome.toNat + (tally s.cellBox b + tally (s.threads t).box b) =
      (s.boxes b).arc.isSome.toNat + (tally (c.bind Raw.box) b + tally pc.box b)
    omega
  · exact absurd (hopen.symm.trans hd) Bool.false_ne_true

/-- The count of one `Arc` changes, together with the references of a call or a caller. -/
theorem recount {inner : ArcInner} {pc : CellPc} (h : Inv s)
    (hbalance : inner.strong + ((s.arcs a).handles + tally (s.threads t).arc a) =
      (s.arcs a).strong + (inner.handles + tally pc.arc a))
    (hrest : ∀ x, x ≠ a → tally (s.threads t).arc x = tally pc.arc x)
    (hheld : pc.held = (s.threads t).held)
    (hwaits : pc = s.threads t ∨ (∀ raw, pc ≠ .readBox raw) ∧ ∀ x, pc ≠ .increment x)
    (hlives : 0 < (s.arcs a).strong → 0 < inner.strong ∨ s.Unobserved a)
    (hledger : inner.Ledger) (hover : s.dropped = true → pc = .idle) :
    Inv ((s.setArc a inner).goto t pc) := by
  have harc : ∀ x, x ≠ a → (s.setArc a inner).arcs x = s.arcs x := fun x hx =>
    Function.update_of_ne hx ..
  have hself : (s.setArc a inner).arcs a = inner := Function.update_self ..
  have hlives' : ∀ x, 0 < (s.arcs x).strong →
      0 < ((s.setArc a inner).arcs x).strong ∨ s.Unobserved x := by
    intro x hx
    by_cases hxa : x = a
    · subst hxa
      rw [hself]
      exact hlives hx
    · rw [harc x hxa]
      exact .inl hx
  refine Moves.inv (s := s) (t := t) pc ⟨rfl, h.intact, fun x => ?_, fun b => ?_, fun b => .inl rfl,
    fun raw b hraw => ?_, fun raw hraw => ?_, fun x hx => ?_, hlives', fun x => ?_, fun hd => ?_⟩ h
  · show ((s.setArc a inner).arcs x).strong + _ =
      _ + (((s.setArc a inner).arcs x).handles + tally s.cellArc x + _)
    by_cases hxa : x = a
    · subst hxa
      rw [hself]
      omega
    · rw [harc x hxa, hrest x hxa]
  · show _ + _ = _ + (tally s.cellBox b + tally pc.box b)
    unfold CellPc.box
    rw [hheld]
    rfl
  · rw [hheld] at hraw
    exact h.content raw b (hraw.imp_right fun hr => ⟨t, hr⟩)
  · rcases hwaits with hsame | ⟨hnot, _⟩
    · exact h.read t raw (hsame ▸ hraw)
    · exact absurd hraw (hnot raw)
  · rcases hwaits with hsame | ⟨_, hnot⟩
    · have hpc : s.threads t = .increment x := hsame ▸ hx
      refine (hlives' x (h.counted t x hpc)).resolve_right fun hnobody => hnobody t hpc
    · exact absurd hx (hnot x)
  · show ((s.setArc a inner).arcs x).Ledger
    by_cases hxa : x = a
    · subst hxa
      rw [hself]
      exact hledger
    · rw [harc x hxa]
      exact h.ledger x
  · obtain ⟨hcell, hidle⟩ := h.settled hd
    refine ⟨hcell, fun u => ?_⟩
    show Function.update s.threads t pc u = .idle
    by_cases hu : u = t
    · rw [hu, Function.update_self, hover hd]
    · rw [Function.update_of_ne hu, hidle u]

theorem content_of_cell (h : Inv s) : ∀ raw b, s.cell = some raw → raw.box = some b →
    s.boxes b = .live raw.arc := fun raw b hcell => h.content raw b (.inl hcell)

/-- A box that a call has to itself and that nobody reads is freed. -/
theorem free {give : Bool} (h : Inv s) (hopen : s.dropped = false)
    (hpc : s.threads t = .fromRaw raw give) (hunread : s.Unread raw) :
    Inv ((s.freeBox raw).goto t (.decrement raw.arc)) := by
  have harc : (s.threads t).arc = some raw.arc := by rw [hpc]; rfl
  cases hraw : raw.box with
  | none =>
      rw [freeBox_none hraw]
      have hbox : (s.threads t).box = none := by rw [hpc]; exact hraw
      refine h.relocate (c := s.cell) hopen (fun a => ?_) (fun b => ?_) (fun raw' b hr => ?_)
        (fun _ hr => by cases hr) (fun _ hr => by cases hr)
      · rw [harc]
        rfl
      · rw [hbox]
        rfl
      · exact h.content_of_cell raw' b (hr.resolve_right fun hr => by cases hr)
  | some b =>
      rw [freeBox_some hraw]
      have hbox : (s.threads t).box = some b := by rw [hpc]; exact hraw
      have hlive : s.boxes b = .live raw.arc := h.content raw b (.inr ⟨t, by rw [hpc]; rfl⟩) hraw
      obtain ⟨hcell, hothers⟩ := h.box_alone hbox
      have hsame : ∀ x, x ≠ b → (s.setBox b .freed).boxes x = s.boxes x := fun x hx =>
        Function.update_of_ne hx ..
      have hfreed : (s.setBox b .freed).boxes b = .freed := Function.update_self ..
      refine Moves.inv (s := s) (t := t) (.decrement raw.arc) ⟨rfl, h.intact, fun a => ?_,
        fun x => ?_, fun x => ?_, fun raw' x hr hx => ?_, fun _ hr => (by cases hr),
        fun _ hr => (by cases hr), fun _ ha => .inl ha, h.ledger, fun hd => ?_⟩ h
      · rw [harc]
        rfl
      · show ((s.setBox b .freed).boxes x).arc.isSome.toNat + _ = _ + (tally s.cellBox x + 0)
        rw [hbox]
        by_cases hxb : x = b
        · rw [hxb, hfreed, hlive, tally_self]
          simp only [BoxStage.arc, Option.isSome_none, Option.isSome_some, Bool.toNat_false,
            Bool.toNat_true]
          omega
        · rw [hsame x hxb, tally_of_ne (Ne.symm hxb)]
      · by_cases hxb : x = b
        · subst hxb
          exact .inr ⟨hothers, fun u raw' hu hr => hunread u raw' hu (hr.trans hraw.symm)⟩
        · exact .inl (hsame x hxb)
      · have hr' : s.cell = some raw' := hr.resolve_right fun hr => by cases hr
        have hne : x ≠ b := fun heq => hcell (by rw [cellBox, hr', Option.bind_some, hx, heq])
        exact (hsame x hne).trans (h.content_of_cell raw' x hr' hx)
      · exact absurd (hopen.symm.trans hd) Bool.false_ne_true

/-- A reference goes into a new box. -/
theorem alloc (pc : CellPc) (raw : Raw) (h : Inv s) (hopen : s.dropped = false)
    (hpc : s.threads t = .decrement raw.arc) (hfits : s.rawFits raw = true)
    (hheld : pc.held = some raw) : Inv ((s.fillBox raw).goto t pc) := by
  have harc : (s.threads t).arc = some raw.arc := by rw [hpc]; rfl
  have hbox : (s.threads t).box = none := by rw [hpc]; rfl
  have hpcArc : pc.arc = some raw.arc := CellPc.arc_of_held hheld
  have hpcBox : pc.box = raw.box := by rw [CellPc.box, hheld, Option.bind_some]
  have hnotRead : ∀ raw', pc ≠ .readBox raw' := fun raw' hr => by rw [hr] at hheld; cases hheld
  have hnotInc : ∀ a, pc ≠ .increment a := fun a hr => by rw [hr] at hheld; cases hheld
  cases hraw : raw.box with
  | none =>
      rw [fillBox_none hraw]
      refine h.relocate (c := s.cell) hopen (fun a => ?_) (fun b => ?_) (fun raw' b hr hb => ?_)
        (fun raw' hr => absurd hr (hnotRead raw')) (fun a hr => absurd hr (hnotInc a))
      · rw [harc, hpcArc]
        rfl
      · rw [hbox, hpcBox, hraw]
        rfl
      · rcases hr with hcell | hr
        · exact h.content_of_cell raw' b hcell hb
        · rw [Option.some.inj (hr.symm.trans hheld), hraw] at hb
          cases hb
  | some b =>
      rw [fillBox_some hraw]
      have hfresh : s.boxes b = .fresh := by
        unfold rawFits at hfits
        rw [hraw] at hfits
        cases hstrategy : s.strategy <;> rw [hstrategy] at hfits
        · cases hfits
        · exact of_decide_eq_true hfits
      obtain ⟨hcell, hnobody, hunread⟩ := h.box_fresh hfresh
      have hsame : ∀ x, x ≠ b → (s.setBox b (.live raw.arc)).boxes x = s.boxes x := fun x hx =>
        Function.update_of_ne hx ..
      have hlive : (s.setBox b (.live raw.arc)).boxes b = .live raw.arc := Function.update_self ..
      refine Moves.inv (s := s) (t := t) pc ⟨rfl, h.intact, fun a => ?_,
        fun x => ?_, fun x => ?_, fun raw' x hr hx => ?_, fun raw' hr => absurd hr (hnotRead raw'),
        fun a hr => absurd hr (hnotInc a), fun _ ha => .inl ha, h.ledger, fun hd => ?_⟩ h
      · rw [harc, hpcArc]
        rfl
      · show ((s.setBox b (.live raw.arc)).boxes x).arc.isSome.toNat + _ =
          _ + (tally s.cellBox x + _)
        rw [hbox, hpcBox, hraw]
        by_cases hxb : x = b
        · rw [hxb, hlive, hfresh, tally_self, tally_none]
          simp only [BoxStage.arc, Option.isSome_none, Option.isSome_some, Bool.toNat_false,
            Bool.toNat_true]
          omega
        · rw [hsame x hxb, tally_of_ne (Ne.symm hxb), tally_none]
      · by_cases hxb : x = b
        · subst hxb
          exact .inr ⟨fun u _ => hnobody u, hunread⟩
        · exact .inl (hsame x hxb)
      · show (s.setBox b (.live raw.arc)).boxes x = .live raw'.arc
        rcases hr with (hr : s.cell = some raw') | hr
        · have hne : x ≠ b := fun heq => hcell (by rw [cellBox, hr, Option.bind_some, hx, heq])
          exact (hsame x hne).trans (h.content_of_cell raw' x hr hx)
        · have hsame' : raw' = raw := Option.some.inj (hr.symm.trans hheld)
          rw [hsame', hraw] at hx
          rw [← Option.some.inj hx, hsame']
          exact hlive
      · exact absurd (hopen.symm.trans hd) Bool.false_ne_true

/-- A box that is not freed has an `Arc` that lives. -/
theorem pos_of_live (h : Inv s) (hb : s.boxes b = .live a) : 0 < (s.arcs a).strong := by
  obtain ⟨n, hcensus, hboxed⟩ := h.boxed b
  have hone : (s.boxes b).arc.isSome.toNat = 1 := by rw [hb]; rfl
  by_cases hcell : s.cellBox = some b
  · obtain ⟨raw, hraw, hbox⟩ := Option.bind_eq_some_iff.mp hcell
    have hlive := h.content raw b (.inl hraw) hbox
    rw [hb] at hlive
    refine h.pos_of_cell ?_
    rw [cellArc, hraw, Option.map_some, BoxStage.live.inj hlive]
  · have hzero : tally s.cellBox b = 0 := by simp [tally, hcell]
    obtain ⟨t, ht⟩ := hcensus.exists_of_pos (by omega)
    obtain ⟨raw, hraw, hbox⟩ := Option.bind_eq_some_iff.mp (of_decide_eq_true ht)
    have hlive := h.content raw b (.inr ⟨t, hraw⟩) hbox
    rw [hb] at hlive
    refine h.pos_of_arc (t := t) ?_
    rw [CellPc.arc_of_held hraw, BoxStage.live.inj hlive]

theorem open_of_call (h : Inv s) (hcall : s.threads t ≠ .idle) : s.dropped = false := by
  by_contra hd
  exact hcall ((h.settled (eq_true_of_ne_false hd)).2 t)

/-- A call goes on with what it has. -/
theorem goOn {pc : CellPc} (h : Inv s) (hopen : s.dropped = false)
    (harc : pc.arc = (s.threads t).arc) (hheld : pc.held = (s.threads t).held)
    (hread : ∀ raw, pc = .readBox raw → ∃ b, raw.box = some b ∧ s.boxes b = .live raw.arc)
    (hcounted : ∀ a, pc = .increment a → 0 < (s.arcs a).strong) : Inv (s.goto t pc) := by
  refine h.relocate (c := s.cell) hopen (fun a => ?_) (fun b => ?_) (fun raw b hr hb => ?_)
    hread hcounted
  · rw [harc]
    rfl
  · rw [CellPc.box, CellPc.box, hheld]
    rfl
  · rw [hheld] at hr
    exact h.content raw b (hr.imp_right fun hr => ⟨t, hr⟩) hb

theorem load (h : Inv s) (hpc : s.threads t = .load) (hs : s.advance t = some s') : Inv s' := by
  have hopen := h.open_of_call (t := t) (by rw [hpc]; simp)
  simp only [advance, hpc] at hs
  cases hcell : s.cell with
  | none =>
      rw [hcell] at hs
      cases hs
      exact h.goOn hopen (by rw [hpc]; rfl) (by rw [hpc]; rfl) (fun _ hr => by cases hr)
        (fun _ hr => by cases hr)
  | some raw =>
      rw [hcell] at hs
      cases hs
      have hpos : 0 < (s.arcs raw.arc).strong := h.pos_of_cell (by rw [cellArc, hcell]; rfl)
      cases hraw : raw.box with
      | none =>
          rw [if_pos rfl]
          refine h.goOn hopen (by rw [hpc]; rfl) (by rw [hpc]; rfl) (fun _ hr => by cases hr)
            fun a ha => ?_
          cases ha
          exact hpos
      | some b =>
          rw [if_neg (by simp)]
          refine h.goOn hopen (by rw [hpc]; rfl) (by rw [hpc]; rfl) (fun raw' hr => ?_)
            (fun _ hr => by cases hr)
          cases hr
          exact ⟨b, hraw, h.content_of_cell raw b hcell hraw⟩

theorem readBox (h : Inv s) (hpc : s.threads t = .readBox raw) (hs : s.advance t = some s') :
    Inv s' := by
  have hopen := h.open_of_call (t := t) (by rw [hpc]; simp)
  obtain ⟨b, hraw, hlive⟩ := h.read t raw hpc
  have hcontents : s.contents raw = some raw.arc := by
    unfold contents
    simp only [hraw, hlive]
    rfl
  simp only [advance, hpc, hcontents] at hs
  cases hs
  refine h.goOn hopen (by rw [hpc]; rfl) (by rw [hpc]; rfl) (fun _ hr => by cases hr) fun a ha => ?_
  cases ha
  exact h.pos_of_live hlive

end Inv

/-! ## The counts -/

theorem increment_give (hpos : 0 < (s.arcs a).strong) :
    (s.incrementStrong a).giveHandle a = s.setArc a
      { s.arcs a with
        strong := (s.arcs a).strong + 1
        handles := (s.arcs a).handles + 1 } := by
  rw [incrementStrong, if_neg (by omega)]
  simp only [giveHandle, setArc, Function.update_self, Function.update_idem]

theorem decrementStrong_eq (hpos : 0 < (s.arcs a).strong) :
    s.decrementStrong a = s.setArc a
      { s.arcs a with
        strong := (s.arcs a).strong - 1
        released := (s.arcs a).released + if (s.arcs a).strong = 1 then 1 else 0 } := by
  rw [decrementStrong, if_neg (by omega)]

theorem take_decrement (hpos : 0 < (s.arcs a).strong) :
    (s.takeHandle a).decrementStrong a = s.setArc a
      { s.arcs a with
        strong := (s.arcs a).strong - 1
        handles := (s.arcs a).handles - 1
        released := (s.arcs a).released + if (s.arcs a).strong = 1 then 1 else 0 } := by
  have hself : ((s.takeHandle a).arcs a).strong = (s.arcs a).strong := by
    simp only [takeHandle, setArc, Function.update_self]
  rw [decrementStrong_eq (by omega)]
  simp only [takeHandle, setArc, Function.update_self, Function.update_idem]

theorem goto_threads_self (t : Nat) (pc : CellPc) : (s.goto t pc).threads t = pc :=
  Function.update_self ..

theorem goto_threads_of_ne (t : Nat) (pc : CellPc) {u : Nat} (hu : u ≠ t) :
    (s.goto t pc).threads u = s.threads u := Function.update_of_ne hu ..

theorem goto_goto (t : Nat) (pc pc' : CellPc) : (s.goto t pc).goto t pc' = s.goto t pc' := by
  simp only [goto, Function.update_idem]

theorem decrementStrong_threads : (s.decrementStrong a).threads = s.threads := by
  unfold decrementStrong
  split <;> rfl

theorem decrementStrong_cell : (s.decrementStrong a).cell = s.cell := by
  unfold decrementStrong
  split <;> rfl

theorem decrementStrong_dropped (d : Bool) :
    decrementStrong { s with dropped := d } a = { s.decrementStrong a with dropped := d } := by
  by_cases hzero : (s.arcs a).strong = 0
  · rw [decrementStrong, decrementStrong, if_pos hzero, if_pos hzero]
    rfl
  · rw [decrementStrong, decrementStrong, if_neg hzero, if_neg hzero]
    rfl

theorem decrementStrong_goto (pc : CellPc) :
    (s.goto t pc).decrementStrong a = (s.decrementStrong a).goto t pc := by
  unfold decrementStrong
  show (if (s.arcs a).strong = 0 then _ else _) = _
  split <;> rfl

theorem goto_self (t : Nat) : s.goto t (s.threads t) = s := by
  simp only [goto, Function.update_eq_self]

theorem goto_idle (h : s.threads t = .idle) : s.goto t .idle = s := by
  rw [← h, goto_self]

namespace Inv

/-- The increment of a `load_clone`. -/
theorem increment (h : Inv s) (hpc : s.threads t = .increment a) (hs : s.advance t = some s') :
    Inv s' := by
  have hpos := h.counted t a hpc
  simp only [advance, hpc, increment_give hpos] at hs
  cases hs
  refine h.recount ?_ (fun x _ => by rw [hpc]; rfl) (by rw [hpc]; rfl)
    (.inr ⟨fun _ hr => (by cases hr), fun _ hr => (by cases hr)⟩) (fun _ => .inl (Nat.succ_pos _))
    ((h.ledger a).raise hpos _) fun _ => rfl
  rw [hpc]
  show (s.arcs a).strong + 1 + ((s.arcs a).handles + 0) =
    (s.arcs a).strong + ((s.arcs a).handles + 1 + 0)
  omega

/-- The decrement at the end of a `store`. -/
theorem decrement (h : Inv s) (hpc : s.threads t = .decrement a)
    (hlast : (s.arcs a).strong = 1 → s.Unobserved a) (hs : s.advance t = some s') : Inv s' := by
  have harc : (s.threads t).arc = some a := by rw [hpc]; rfl
  have hpos := h.pos_of_arc harc
  simp only [advance, hpc, decrementStrong_eq hpos] at hs
  cases hs
  refine h.recount ?_ (fun x hx => ?_) (by rw [hpc]; rfl)
    (.inr ⟨fun _ hr => (by cases hr), fun _ hr => (by cases hr)⟩) (fun _ => ?_)
    ((h.ledger a).lower hpos _) fun _ => rfl
  · rw [harc, tally_self]
    show (s.arcs a).strong - 1 + ((s.arcs a).handles + 1) =
      (s.arcs a).strong + ((s.arcs a).handles + 0)
    omega
  · rw [harc, tally_of_ne (Ne.symm hx)]
    rfl
  · by_cases hone : (s.arcs a).strong = 1
    · exact .inr (hlast hone)
    · refine .inl ?_
      show 0 < (s.arcs a).strong - 1
      omega

/-- The caller's count of an `Arc` changes. -/
theorem recountCaller {inner : ArcInner} (h : Inv s)
    (hbalance : inner.strong + (s.arcs a).handles = (s.arcs a).strong + inner.handles)
    (hlives : 0 < (s.arcs a).strong → 0 < inner.strong ∨ s.Unobserved a)
    (hledger : inner.Ledger) : Inv (s.setArc a inner) := by
  have hsame : Inv ((s.setArc a inner).goto 0 (s.threads 0)) := by
    refine h.recount ?_ (fun _ _ => rfl) rfl (.inl rfl) hlives hledger fun hd => (h.settled hd).2 0
    omega
  rwa [show s.threads 0 = (s.setArc a inner).threads 0 from rfl, goto_self] at hsame

theorem swap {new : Option Raw} {give : Bool} (h : Inv s) (hpc : s.threads t = .swap new give)
    (hs : s.advance t = some s') : Inv s' := by
  have hopen := h.open_of_call (t := t) (by rw [hpc]; simp)
  have harc : (s.threads t).arc = new.map Raw.arc := by rw [hpc]; rfl
  have hbox : (s.threads t).box = new.bind Raw.box := by rw [hpc]; rfl
  have hheld : (s.threads t).held = new := by rw [hpc]; rfl
  simp only [advance, hpc] at hs
  cases hcell : s.cell with
  | none =>
      rw [hcell] at hs
      cases hs
      refine h.relocate (c := new) hopen (fun a => ?_) (fun b => ?_) (fun raw b hr => ?_)
        (fun _ hr => by cases hr) (fun _ hr => by cases hr)
      · rw [harc, cellArc, hcell]
        exact Nat.add_comm ..
      · rw [hbox, cellBox, hcell]
        exact Nat.add_comm ..
      · have hr' := hr.resolve_right fun hr => by cases hr
        exact h.content raw b (.inr ⟨t, hheld.trans hr'⟩)
  | some old =>
      rw [hcell] at hs
      cases hs
      refine h.relocate (c := new) hopen (fun a => ?_) (fun b => ?_) (fun raw b hr => ?_)
        (fun _ hr => by cases hr) (fun _ hr => by cases hr)
      · rw [harc, cellArc, hcell]
        exact Nat.add_comm ..
      · rw [hbox, cellBox, hcell]
        exact Nat.add_comm ..
      · rcases hr with hr | hr
        · exact h.content raw b (.inr ⟨t, hheld.trans hr⟩)
        · cases hr
          exact h.content_of_cell old b hcell

theorem cas (h : Inv s) (hpc : s.threads t = .cas raw) (hs : s.advance t = some s') :
    Inv s' := by
  have hopen := h.open_of_call (t := t) (by rw [hpc]; simp)
  have harc : (s.threads t).arc = some raw.arc := by rw [hpc]; rfl
  have hbox : (s.threads t).box = raw.box := by rw [hpc]; rfl
  have hheld : (s.threads t).held = some raw := by rw [hpc]; rfl
  simp only [advance, hpc] at hs
  cases hcell : s.cell with
  | none =>
      rw [hcell] at hs
      cases hs
      refine h.relocate (c := some raw) hopen (fun a => ?_) (fun b => ?_) (fun raw' b hr => ?_)
        (fun _ hr => by cases hr) (fun _ hr => by cases hr)
      · rw [harc, cellArc, hcell]
        exact Nat.add_comm ..
      · rw [hbox, cellBox, hcell]
        exact Nat.add_comm ..
      · have hr' := hr.resolve_right fun hr => by cases hr
        exact h.content raw' b (.inr ⟨t, hheld.trans hr'⟩)
  | some old =>
      rw [hcell] at hs
      cases hs
      exact h.goOn hopen (by rw [hpc]; rfl) (by rw [hpc]; rfl) (fun _ hr => by cases hr)
        (fun _ hr => by cases hr)

theorem fromRaw {give : Bool} (h : Inv s) (hpc : s.threads t = .fromRaw raw give)
    (hunread : s.Unread raw) (hs : s.advance t = some s') : Inv s' := by
  have hopen := h.open_of_call (t := t) (by rw [hpc]; simp)
  have hfreed := h.free hopen hpc hunread
  have hcontents := h.contents_of_keeps (.inr ⟨t, by rw [hpc]; rfl⟩ : s.Keeps raw)
  simp only [advance, hpc, takeOut, hcontents] at hs
  cases give with
  | false =>
      cases hs
      exact hfreed
  | true =>
      cases hs
      -- the reference goes from the call to the caller
      have hdec : ((s.freeBox raw).goto t (.decrement raw.arc)).threads t = .decrement raw.arc :=
        Function.update_self ..
      have hgiven : Inv ((((s.freeBox raw).goto t (.decrement raw.arc)).giveHandle raw.arc).goto t
          .idle) := by
        refine hfreed.recount ?_ (fun x hx => ?_) (by rw [hdec]; rfl)
          (.inr ⟨fun _ hr => (by cases hr), fun _ hr => (by cases hr)⟩) (fun hpos => .inl hpos)
          ((hfreed.ledger raw.arc).rehandle _) fun _ => rfl
        · rw [hdec]
          show _ + (_ + tally (some raw.arc) raw.arc) = _ + (_ + 1 + 0)
          rw [tally_self]
        · rw [hdec]
          exact tally_of_ne (Ne.symm hx)
      have hsame : (((s.freeBox raw).goto t (.decrement raw.arc)).giveHandle raw.arc).goto t .idle =
          ((s.freeBox raw).giveHandle raw.arc).goto t .idle := by
        simp only [goto, giveHandle, setArc, Function.update_idem]
      exact hsame ▸ hgiven

/-- A call takes its next step. -/
theorem advance (h : Inv s) (hcare : s.Careful (.advance t)) (hs : s.advance t = some s') :
    Inv s' := by
  unfold Careful at hcare
  cases hpc : s.threads t with
  | idle =>
      simp only [OptionArc.advance, hpc] at hs
      cases hs
  | load => exact h.load hpc hs
  | readBox raw => exact h.readBox hpc hs
  | increment a => exact h.increment hpc hs
  | swap new give => exact h.swap hpc hs
  | cas raw => exact h.cas hpc hs
  | fromRaw raw give =>
      simp only [hpc] at hcare
      exact h.fromRaw hpc hcare hs
  | decrement a =>
      simp only [hpc] at hcare
      exact h.decrement hpc hcare hs

/-- A call that has nothing to begin with. -/
theorem call {pc : CellPc} (h : Inv s) (harc : pc.arc = none) (hheld : pc.held = none)
    (hread : ∀ raw, pc ≠ .readBox raw) (hcounted : ∀ a, pc ≠ .increment a)
    (hs : s.call t pc = some s') : Inv s' := by
  obtain ⟨⟨hopen, hidle⟩, hs⟩ := Option.ite_none_right_eq_some.mp hs
  cases hs
  exact h.goOn hopen (by rw [hidle, harc]; rfl) (by rw [hidle, hheld]; rfl)
    (fun raw hr => absurd hr (hread raw)) (fun a hr => absurd hr (hcounted a))

/-- A call that begins with an `Arc` of the caller. -/
theorem callWith {pc : CellPc} (h : Inv s) (hheld : pc.held = some raw)
    (hs : ((s.toRaw raw).bind fun s => s.call t pc) = some s') : Inv s' := by
  obtain ⟨s₁, hraw, hs⟩ := Option.bind_eq_some_iff.mp hs
  obtain ⟨⟨hfits, hhandle⟩, hraw⟩ := Option.ite_none_right_eq_some.mp hraw
  cases hraw
  obtain ⟨⟨hopen, hidle⟩, hs⟩ := Option.ite_none_right_eq_some.mp hs
  cases hs
  rw [fillBox_dropped] at hopen
  rw [fillBox_threads] at hidle
  have hidle' : s.threads t = .idle := hidle
  -- the reference goes from the caller to the call, and then into the box
  have htaken : Inv ((s.takeHandle raw.arc).goto t (.decrement raw.arc)) := by
    refine h.recount ?_ (fun x hx => ?_) (by rw [hidle']; rfl)
      (.inr ⟨fun _ hr => (by cases hr), fun _ hr => (by cases hr)⟩) (fun hpos => .inl hpos)
      ((h.ledger raw.arc).rehandle _) fun hd => absurd (hopen.symm.trans hd) Bool.false_ne_true
    · rw [hidle']
      show (s.arcs raw.arc).strong + ((s.arcs raw.arc).handles + 0) = (s.arcs raw.arc).strong +
        ((s.arcs raw.arc).handles - 1 + tally (some raw.arc) raw.arc)
      rw [tally_self]
      omega
    · rw [hidle']
      exact (tally_of_ne (Ne.symm hx)).symm
  have hfilled := htaken.alloc (t := t) pc raw hopen (Function.update_self ..)
    hfits hheld
  rwa [fillBox_goto, goto_goto] at hfilled

/-- The cell is empty and no call is running. -/
theorem close (h : Inv s) (hcell : s.cell = none) (hidle : ∀ t, s.threads t = .idle) :
    Inv { s with dropped := true } :=
  ⟨h.intact, h.strong, h.boxed, h.content, h.read, h.counted, h.ledger, fun _ => ⟨hcell, hidle⟩⟩

/-- The destructor of the cell is the end of a `store` that nobody disturbs. -/
theorem dropCell (h : Inv s) (hopen : s.dropped = false) (hidle : ∀ t, s.threads t = .idle) :
    Inv s.dropCell := by
  cases hcell : s.cell with
  | none =>
      have hsame : s.dropCell = { s with dropped := true } := by
        simp only [OptionArc.dropCell, hcell]
      rw [hsame]
      exact h.close hcell hidle
  | some raw =>
      have htaken : Inv (goto { s with cell := none } 0 (.fromRaw raw false)) := by
        refine h.relocate hopen (fun a => ?_) (fun b => ?_) (fun raw' b hr => ?_)
          (fun _ hr => by cases hr) (fun _ hr => by cases hr)
        · rw [hidle 0, cellArc, hcell]
          exact Nat.add_comm ..
        · rw [hidle 0, cellBox, hcell]
          exact Nat.add_comm ..
        · have hr' := hr.resolve_left fun hr => by cases hr
          cases hr'
          exact h.content_of_cell raw b hcell
      have hfreed : Inv ((goto { s with cell := none } 0 (.fromRaw raw false)).freeBox raw |>.goto 0
          (.decrement raw.arc)) := by
        refine htaken.free hopen (goto_threads_self ..) fun u raw' hu => ?_
        by_cases hu0 : u = 0
        · rw [hu0, goto_threads_self] at hu
          cases hu
        · rw [goto_threads_of_ne _ _ hu0] at hu
          exact absurd ((hidle u).symm.trans hu) (by simp)
      rw [freeBox_goto, goto_goto] at hfreed
      have hdropped := hfreed.decrement (t := 0) (goto_threads_self ..)
        (fun _ u hu => by
          by_cases hu0 : u = 0
          · rw [hu0, goto_threads_self] at hu
            cases hu
          · rw [goto_threads_of_ne _ _ hu0, freeBox_threads] at hu
            exact absurd ((hidle u).symm.trans hu) (by simp))
        (by simp only [OptionArc.advance, goto_threads_self]; rfl)
      rw [decrementStrong_goto, goto_goto, goto_idle (by
        rw [decrementStrong_threads, freeBox_threads]
        exact hidle 0)] at hdropped
      have hcontents := h.contents_of_keeps (.inl hcell)
      have hlast := hdropped.close (by rw [decrementStrong_cell, freeBox_cell]) fun t => by
        rw [decrementStrong_threads, freeBox_threads]
        exact hidle t
      have hsame : s.dropCell =
          { (freeBox { s with cell := none } raw).decrementStrong raw.arc with dropped := true } := by
        simp only [OptionArc.dropCell, hcell, hcontents]
        have hfree := freeBox_dropped (s := { s with cell := none }) raw true
        exact (congrArg (decrementStrong · raw.arc) hfree).trans
          (decrementStrong_dropped true)
      rw [hsame]
      exact hlast

/-- Every step of a careful run keeps the invariant. -/
theorem step (h : Inv s) (hcare : s.Careful e) (hs : CellStep s e s') : Inv s' := by
  obtain ⟨halone, hs⟩ := hs
  obtain ⟨_, hs⟩ := Option.ite_none_right_eq_some.mp hs
  cases e with
  | newArc a =>
      obtain ⟨hmade, hs⟩ := Option.ite_none_left_eq_some.mp hs
      cases hs
      obtain ⟨hzero, _⟩ := (h.ledger a).unmade (Bool.eq_false_iff.mpr hmade)
      obtain ⟨n, _, hstrong⟩ := h.strong a
      refine h.recountCaller ?_ (fun _ => .inl Nat.one_pos)
        ⟨fun hf => Bool.noConfusion hf, fun _ hf => absurd hf Nat.one_ne_zero, fun _ _ => rfl⟩
      show 1 + (s.arcs a).handles = (s.arcs a).strong + 1
      omega
  | cloneHandle a =>
      obtain ⟨hhandle, hs⟩ := Option.ite_none_right_eq_some.mp hs
      have hpos := h.pos_of_handle hhandle
      rw [increment_give hpos] at hs
      cases hs
      refine h.recountCaller ?_ (fun _ => .inl (Nat.succ_pos _)) ((h.ledger a).raise hpos _)
      show (s.arcs a).strong + 1 + (s.arcs a).handles =
        (s.arcs a).strong + ((s.arcs a).handles + 1)
      omega
  | dropHandle a =>
      obtain ⟨hhandle, hs⟩ := Option.ite_none_right_eq_some.mp hs
      have hpos := h.pos_of_handle hhandle
      rw [take_decrement hpos] at hs
      cases hs
      refine h.recountCaller ?_ (fun _ => ?_) ((h.ledger a).lower hpos _)
      · show (s.arcs a).strong - 1 + (s.arcs a).handles =
          (s.arcs a).strong + ((s.arcs a).handles - 1)
        omega
      · by_cases hone : (s.arcs a).strong = 1
        · exact .inr (hcare hone)
        · refine .inl ?_
          show 0 < (s.arcs a).strong - 1
          omega
  | loadClone t =>
      exact h.call rfl rfl (fun _ hr => by cases hr) (fun _ hr => by cases hr) hs
  | take t =>
      exact h.call rfl rfl (fun _ hr => by cases hr) (fun _ hr => by cases hr) hs
  | store t new =>
      cases new with
      | none => exact h.call rfl rfl (fun _ hr => by cases hr) (fun _ hr => by cases hr) hs
      | some raw => exact h.callWith rfl hs
  | compareExchangeNone t raw => exact h.callWith rfl hs
  | advance t => exact h.advance hcare hs
  | dropCell =>
      obtain ⟨hopen, hs⟩ := Option.ite_none_left_eq_some.mp hs
      cases hs
      exact h.dropCell (Bool.eq_false_iff.mpr hopen) halone

theorem neverResurrects (h : Inv s) : s.NeverResurrects := by
  refine ⟨h.intact, fun a => (h.ledger a).released_le, fun hd hnone a hmade => ?_⟩
  obtain ⟨hcell, hidle⟩ := h.settled hd
  obtain ⟨n, hcensus, hstrong⟩ := h.strong a
  have hn : n = 0 := by
    by_contra hpos
    obtain ⟨t, ht⟩ := hcensus.exists_of_pos (Nat.pos_of_ne_zero hpos)
    rw [hidle t] at ht
    exact absurd ht Bool.false_ne_true
  refine (h.ledger a).zero hmade ?_
  rw [hstrong, hnone a, cellArc, hcell, hn]
  rfl

end Inv

/-- **Runs in which a cell never resurrects a freed value.**  In every run of a thin or a fat cell,
in every order of the steps of any number of calls, in which nothing is freed that a `load_clone`
has loaded and not used yet: no freed memory is accessed, so that every increment finds a count
that is positive, nothing is released twice, and once the cell and all handles are dropped every
`Arc` was released. -/
theorem never_resurrects (strategy : Strategy) (s : OptionArc)
    (hrun : Run CellStep Careful (fun s => s = new strategy) s) : s.NeverResurrects := by
  have hinv : Inv s := by
    refine Run.invariant (fun s hnew => ?_) (fun s e s' h hcare hs => ?_) hrun
    · rw [hnew]
      exact Inv.new strategy
    · exact h.step hcare hs
  exact hinv.neverResurrects

/-- A step that is not the drop of the cell. -/
def stepInUse (s : OptionArc) (e : CellEvent) : Option OptionArc :=
  if e = .dropCell then none else s.step e

theorem cellStep_of_inUse (h : s.stepInUse e = some s') : CellStep s e s' := by
  obtain ⟨hne, hs⟩ := Option.ite_none_left_eq_some.mp h
  refine ⟨?_, hs⟩
  cases e with
  | dropCell => exact absurd rfl hne
  | newArc | cloneHandle | dropHandle | loadClone | take | store | compareExchangeNone | advance =>
      trivial

/-- Nothing is freed. -/
def frees (s : OptionArc) : CellEvent → Bool
  | .dropHandle a => decide ((s.arcs a).strong = 1)
  | .advance t =>
      match s.threads t with
      | .decrement _ | .fromRaw _ _ => true
      | _ => false
  | _ => false

theorem careful_of_frees (h : (!s.frees e) = true) : s.Careful e := by
  have hf : s.frees e = false := Bool.not_eq_true' _ |>.mp h
  cases e with
  | dropHandle a => exact fun hone => absurd hone (of_decide_eq_false hf)
  | advance t =>
      simp only [frees] at hf
      simp only [Careful]
      cases hpc : s.threads t <;> rw [hpc] at hf
      all_goals first | trivial | cases hf
  | newArc | cloneHandle | loadClone | take | store | compareExchangeNone | dropCell => trivial

/-- A call stores an `Arc` in a fat cell, another one clones it, and the first handle is
dropped. -/
def storeClone : List CellEvent :=
  [.newArc 0, .cloneHandle 0, .store 0 (some { arc := 0, box := some 0 }), .advance 0,
    .loadClone 1, .advance 1, .advance 1, .advance 1, .dropHandle 0]

def cloned : OptionArc :=
  (replay stepInUse (fun s e => !s.frees e) (new .fat) storeClone).get (by decide)

theorem cloned_idle (t : Nat) : cloned.threads t = .idle := by
  rcases t with _ | _ | t
  · decide
  · decide
  · rfl

/-- The cell is dropped, and the handle that `load_clone` has returned is left. -/
theorem cloned_neverResurrects :
    ∃ s : OptionArc, s.dropped = true ∧ (s.arcs 0).strong = 1 ∧ s.NeverResurrects := by
  have hstart : Run CellStep Careful (fun s => s = new .fat) (new .fat) := .start rfl
  have hreplay : replay stepInUse (fun s e => !s.frees e) (new .fat) storeClone = some cloned :=
    (Option.some_get _).symm
  have hrun := hstart.replay (fun _ _ _ => cellStep_of_inUse) (fun _ _ => careful_of_frees) hreplay
  have hdrop := hrun.next CellEvent.dropCell trivial ⟨cloned_idle, rfl⟩
  exact ⟨_, by decide, by decide, never_resurrects .fat _ hdrop⟩

/-- The only `Arc` is taken out and dropped while a `load_clone` is about to increment its
count. -/
def takenWhileLoaded : List CellEvent :=
  [.newArc 0, .store 0 (some { arc := 0, box := none }), .advance 0, .loadClone 1, .advance 1,
    .take 2, .advance 2, .advance 2, .dropHandle 0, .advance 1]

def resurrected : OptionArc :=
  (replay stepInUse (fun _ _ => true) (new .thin) takenWhileLoaded).get (by decide)

/-- The increment finds a count of zero. -/
theorem arc_resurrected :
    ¬ ∀ (strategy : Strategy) (s : OptionArc),
      Run CellStep Always (fun s => s = new strategy) s → s.NeverResurrects := by
  intro hall
  have hstart : Run CellStep Always (fun s => s = new .thin) (new .thin) := .start rfl
  have hreplay : replay stepInUse (fun _ _ => true) (new .thin) takenWhileLoaded =
      some resurrected := (Option.some_get _).symm
  have hrun := hstart.replay (fun _ _ _ => cellStep_of_inUse) (fun _ _ _ => trivial) hreplay
  have hintact := (hall .thin resurrected hrun).intact
  exact absurd hintact (by decide)

end OptionArc

end Veloq.Storage
