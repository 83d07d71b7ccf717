import Veloq.Runtime.JoinWaker
import Mathlib.Tactic.SplitIfs
set_option autoImplicit false

/-!
# Runtime: a registered waker is called

A handle that rests with a node that was not removed has it in the list, or the completion is
calling its waker, or has called it.  Whoever links a node has found the task not completed
with the lock in hand, so the completion has yet to take the lock.
-/

namespace Veloq.Runtime.JoinWaker

open Foundation Intrusive

variable {W : Type}

namespace HandlePc

/-- With the lock of the list. -/
def inside : HandlePc W → Bool
  | lookLocked _ | push _ | remove => true
  | _ => false

/-- About to link the node. -/
def pushing : HandlePc W → Bool
  | push _ => true
  | _ => false

/-- The waker that the node has got. -/
def carries : HandlePc W → Option W
  | look waker | lock waker | lookLocked waker | push waker | wake waker => some waker
  | _ => none

/-- Outside of a call, or before it has done anything. -/
def rests : HandlePc W → Bool
  | idle | compare _ => true
  | _ => false

/-- In `remove_waker`. -/
def removes : HandlePc W → Bool
  | lookRemove | lockRemove | remove => true
  | _ => false

theorem inside_of_pushing {pc : HandlePc W} (h : pc.pushing = true) : pc.inside = true := by
  cases pc with
  | push => rfl
  | _ => cases h

theorem outside_of_rests {pc : HandlePc W} (h : pc.rests = true) : pc.inside = false := by
  cases pc with
  | idle | compare => rfl
  | _ => cases h

end HandlePc

namespace Notifier

/-- Before it takes the lock. -/
def early : Notifier → Bool
  | idle | lock => true
  | _ => false

/-- With the lock of the list. -/
def inside : Notifier → Bool
  | pop | wake _ => true
  | _ => false

end Notifier

namespace Handle

/-- What holds of a handle whose node is linked or not. -/
structure Ok (h : Handle W) (k : Nat) (linked : Bool) (locked : Option Holder)
    (notifier : Notifier) (woken : List (Nat × W)) : Prop where
  calm : h.pc ≠ .panicked
  held : h.pc.inside = true → locked = some (.handle k)
  pushing : h.pc.pushing = true → notifier.early = true
  carrying : ∀ waker, h.pc.carries = some waker → h.node = some waker
  owned : linked = true → h.node ≠ none
  waking : notifier = .wake k → h.node ≠ none
  registered : ∀ waker, h.registered = some waker →
    h.node = some waker ∧ h.removed = false ∧ h.pc = .idle
  served : ∀ waker, h.node = some waker → h.removed = false → h.pc.rests = true →
    linked = true ∨ notifier = .wake k ∨ (k, waker) ∈ woken
  removing : h.pc.removes = true → h.removed = true

variable {h : Handle W} {k : Nat} {linked : Bool} {locked : Option Holder} {notifier : Notifier}
  {woken woken' : List (Nat × W)}

/-- Somebody else takes the lock, or gives it back. -/
theorem Ok.relock (hok : h.Ok k linked locked notifier woken) (hne : locked ≠ some (.handle k))
    (locked' : Option Holder) : h.Ok k linked locked' notifier woken :=
  ⟨hok.calm, fun hinside => absurd (hok.held hinside) hne, hok.pushing, hok.carrying, hok.owned,
    hok.waking, hok.registered, hok.served, hok.removing⟩

/-- A waker is called. -/
theorem Ok.wake (hok : h.Ok k linked locked notifier woken) (p : Nat × W) :
    h.Ok k linked locked notifier (woken ++ [p]) :=
  ⟨hok.calm, hok.held, hok.pushing, hok.carrying, hok.owned, hok.waking, hok.registered,
    fun waker hnode hremoved hrests => (hok.served waker hnode hremoved hrests).imp_right
      fun hserved => hserved.imp_right (List.mem_append_left _), hok.removing⟩

theorem not_pushing (hok : h.Ok k linked locked notifier woken)
    (hne : locked ≠ some (.handle k)) : h.pc.pushing = false := by
  cases hpc : h.pc with
  | push waker => exact absurd (hok.held (by rw [hpc]; rfl)) hne
  | _ => rfl

/-- The completion goes on, where it has nothing to do with this node. -/
theorem Ok.notify (hok : h.Ok k linked locked notifier woken) {notifier' : Notifier}
    (hpushing : h.pc.pushing = false ∨ notifier'.early = true) (hwake : notifier ≠ .wake k)
    (hwake' : notifier' ≠ .wake k) : h.Ok k linked locked notifier' woken :=
  ⟨hok.calm, hok.held, fun hp => hpushing.resolve_left (by rw [hp]; decide), hok.carrying,
    hok.owned, fun heq => absurd heq hwake', hok.registered,
    fun waker hnode hremoved hrests => (hok.served waker hnode hremoved hrests).imp_right
      fun hserved => .inr (hserved.resolve_left hwake), hok.removing⟩

end Handle

namespace Waiters

/-- The list, the lock and the completion. -/
structure Inv (s : Waiters W) : Prop where
  list : ∃ keys, Represents s.links s.wakers keys ∧ ∀ k, (s.links k).linked = true → k ∈ keys
  notifying : s.notifier.inside = true → s.locked = some .notifier
  begun : s.notifier ≠ .idle → s.completed = true
  emptied : s.notifier = .done → ∀ k, (s.links k).linked = false
  handles : ∀ k, (s.handles k).Ok k (s.links k).linked s.locked s.notifier s.woken

variable {s s' : Waiters W} {k : Nat} {waker : W} {h : Handle W}

@[simp] theorem setHandle_self : (s.setHandle k h).handles k = h := Function.update_self ..

theorem setHandle_of_ne {j : Nat} (hj : j ≠ k) : (s.setHandle k h).handles j = s.handles j :=
  Function.update_of_ne hj ..

theorem Inv.new : Inv (new : Waiters W) := by
  refine ⟨⟨[], Represents.new, ?_⟩, ?_, ?_, ?_, fun k => ⟨?_, ?_, ?_, ?_, ?_, ?_, ?_, ?_, ?_⟩⟩
  all_goals simp [Waiters.new, Link.new, Notifier.inside, HandlePc.inside, HandlePc.pushing,
    HandlePc.carries, HandlePc.removes]

/-- Handles apart from `k` stay all right. -/
theorem handles_of {t : Waiters W}
    (hk : h.Ok k (t.links k).linked t.locked t.notifier t.woken)
    (hother : ∀ j, j ≠ k → (s.handles j).Ok j (t.links j).linked t.locked t.notifier t.woken)
    (j : Nat) :
    ((s.setHandle k h).handles j).Ok j (t.links j).linked t.locked t.notifier t.woken := by
  by_cases hj : j = k
  · rw [hj, setHandle_self]
    exact hk
  · rw [setHandle_of_ne hj]
    exact hother j hj

/-- A handle moves, and leaves the list, the lock and the completion alone. -/
theorem Inv.move (hi : s.Inv) (hok : h.Ok k (s.links k).linked s.locked s.notifier s.woken) :
    (s.setHandle k h).Inv :=
  ⟨hi.list, hi.notifying, hi.begun, hi.emptied, handles_of hok fun j _ => hi.handles j⟩

/-- A handle takes the lock or gives it back. -/
theorem Inv.relock (hi : s.Inv) {locked : Option Holder}
    (hlocked : s.locked = none ∨ s.locked = some (.handle k))
    (hok : h.Ok k (s.links k).linked locked s.notifier s.woken) :
    Inv { s.setHandle k h with locked := locked } := by
  have hne : ∀ j, j ≠ k → s.locked ≠ some (.handle j) := by
    intro j hj
    rcases hlocked with hlocked | hlocked
    · rw [hlocked]
      exact (Option.some_ne_none _).symm
    · rw [hlocked]
      rintro ⟨⟩
      exact hj rfl
  refine ⟨hi.list, fun hinside => ?_, hi.begun, hi.emptied,
    handles_of (t := { s with locked := locked }) hok
      fun j hj => (hi.handles j).relock (hne j hj) _⟩
  have hheld := hi.notifying hinside
  rcases hlocked with hlocked | hlocked
  · exact absurd (hheld.symm.trans hlocked) (Option.some_ne_none _)
  · exact Holder.noConfusion (Option.some.inj (hlocked.symm.trans hheld))

/-! ## Calls of a handle -/

theorem Inv.registered_none (hi : s.Inv) (hpc : (s.handles k).pc ≠ .idle) :
    (s.handles k).registered = none := by
  cases hr : (s.handles k).registered with
  | none => rfl
  | some waker => exact absurd ((hi.handles k).registered waker hr).2.2 hpc

/-- In the middle of a call, outside of the lock. -/
theorem Ok_of_call {linked : Bool} {locked : Option Holder} {notifier : Notifier}
    {woken : List (Nat × W)} (hcalm : h.pc ≠ .panicked) (hinside : h.pc.inside = false)
    (hcarrying : ∀ waker, h.pc.carries = some waker → h.node = some waker)
    (hnode : linked = true ∨ notifier = .wake k → h.node ≠ none) (hregistered : h.registered = none)
    (hrests : h.pc.rests = true ∨ h.pc.removes = true → h.removed = true) :
    h.Ok k linked locked notifier woken where
  calm := hcalm
  held hin := absurd hin (by rw [hinside]; decide)
  pushing hp := absurd (HandlePc.inside_of_pushing hp) (by rw [hinside]; decide)
  carrying := hcarrying
  owned hl := hnode (.inl hl)
  waking hw := hnode (.inr hw)
  registered waker hw := absurd (hw.symm.trans hregistered) (Option.some_ne_none waker)
  served waker _ hremoved hr := absurd (hremoved.symm.trans (hrests (.inl hr))) (by decide)
  removing hr := hrests (.inr hr)

/-- In the middle of a call, with the lock. -/
theorem Ok_of_inside {linked : Bool} {notifier : Notifier} {woken : List (Nat × W)}
    (hinside : h.pc.inside = true) (hpushing : h.pc.pushing = true → notifier.early = true)
    (hcarrying : ∀ waker, h.pc.carries = some waker → h.node = some waker)
    (hnode : linked = true ∨ notifier = .wake k → h.node ≠ none)
    (hregistered : h.registered = none) (hremoves : h.pc.removes = true → h.removed = true) :
    h.Ok k linked (some (.handle k)) notifier woken where
  calm hp := Bool.false_ne_true (by rw [hp] at hinside; exact hinside)
  held _ := rfl
  pushing := hpushing
  carrying := hcarrying
  owned hl := hnode (.inl hl)
  waking hw := hnode (.inr hw)
  registered waker hw := absurd (hw.symm.trans hregistered) (Option.some_ne_none waker)
  served _ _ _ hr := absurd hinside (by rw [HandlePc.outside_of_rests hr]; exact Bool.false_ne_true)
  removing := hremoves

/-- A registration has returned. -/
theorem Ok_of_registered {linked : Bool} {locked : Option Holder} {notifier : Notifier}
    {woken : List (Nat × W)} (hpc : h.pc = .idle) (hnode : h.node = some waker)
    (hregistered : h.registered = some waker) (hremoved : h.removed = false)
    (hserved : linked = true ∨ notifier = .wake k ∨ (k, waker) ∈ woken) :
    h.Ok k linked locked notifier woken where
  calm := by rw [hpc]; simp
  held hin := absurd hin (by rw [hpc]; exact Bool.false_ne_true)
  pushing hp := absurd hp (by rw [hpc]; exact Bool.false_ne_true)
  carrying waker hw := absurd hw (by rw [hpc]; exact (Option.some_ne_none waker).symm)
  owned _ := by rw [hnode]; exact Option.some_ne_none waker
  waking _ := by rw [hnode]; exact Option.some_ne_none waker
  registered w hw := by
    obtain rfl := Option.some.inj (hregistered.symm.trans hw)
    exact ⟨hnode, hremoved, hpc⟩
  served w hw _ _ := by
    obtain rfl := Option.some.inj (hnode.symm.trans hw)
    exact hserved
  removing hr := absurd hr (by rw [hpc]; exact Bool.false_ne_true)

theorem Inv.node_ne_none (hi : s.Inv) :
    (s.links k).linked = true ∨ s.notifier = .wake k → (s.handles k).node ≠ none :=
  fun h => h.elim (hi.handles k).owned (hi.handles k).waking

variable [DecidableEq W]

theorem Inv.register (hi : s.Inv) {granted : Bool} (hpc : (s.handles k).pc = .idle) :
    (s.register k waker granted).Inv := by
  have hok := hi.handles k
  unfold Waiters.register
  split
  · rename_i old hnode
    refine hi.move ⟨by simp, fun hin => absurd hin Bool.false_ne_true,
      fun hp => absurd hp Bool.false_ne_true, fun w hw => absurd hw (Option.some_ne_none w).symm,
      hok.owned, hok.waking, fun w hw => absurd hw (Option.some_ne_none w).symm,
      fun w hw hremoved _ => hok.served w hw hremoved (by rw [hpc]; rfl),
      fun hr => absurd hr Bool.false_ne_true⟩
  · split
    · exact hi.move (Ok_of_call (by simp) rfl (fun _ hw => hw) (fun _ => Option.some_ne_none waker)
        rfl fun hr => absurd hr (by simp [HandlePc.rests, HandlePc.removes]))
    · exact hi

theorem Inv.removeWaker (hi : s.Inv) : (s.setHandle k
    { s.handles k with pc := .lookRemove, registered := none, removed := true }).Inv :=
  hi.move (Ok_of_call (by simp) rfl (fun w hw => absurd hw (Option.some_ne_none w).symm)
    hi.node_ne_none rfl fun _ => rfl)

/-- `register_waker_on` looks at the waker in the node. -/
theorem Inv.compare (hi : s.Inv) (hpc : (s.handles k).pc = .compare waker)
    (horderly : (s.handles k).node = some waker → (s.handles k).removed = false)
    (hs : s.handleStep k = some s') : s'.Inv := by
  have hok := hi.handles k
  unfold handleStep at hs
  simp only [hpc] at hs
  split_ifs at hs with hnode
  · cases hs
    exact hi.move (Ok_of_registered rfl hnode rfl (horderly hnode)
      (hok.served waker hnode (horderly hnode) (by rw [hpc]; rfl)))
  · cases hs
    refine hi.move (Ok_of_call (by simp) rfl (fun _ hw => hw) (fun _ => Option.some_ne_none waker)
      (hi.registered_none (by rw [hpc]; simp)) ?_)
    simp [HandlePc.rests, HandlePc.removes]

/-- A handle comes to the next place of a call without the lock. -/
theorem Inv.goto (hi : s.Inv) {pc : HandlePc W} (hpc : (s.handles k).pc ≠ .idle)
    (hcalm : pc ≠ .panicked) (hinside : pc.inside = false)
    (hcarries : ∀ w, pc.carries = some w → (s.handles k).pc.carries = some w)
    (hrests : pc.rests = true ∨ pc.removes = true → (s.handles k).pc.removes = true) :
    (s.goto k pc).Inv :=
  hi.move (Ok_of_call hcalm hinside (fun w hw => (hi.handles k).carrying w (hcarries w hw))
    hi.node_ne_none (hi.registered_none hpc) fun hr => (hi.handles k).removing (hrests hr))

/-- A handle takes the lock. -/
theorem Inv.enter (hi : s.Inv) {pc : HandlePc W} (hpc : (s.handles k).pc ≠ .idle)
    (hlocked : s.locked = none) (hinside : pc.inside = true) (hpushing : pc.pushing = false)
    (hcarries : ∀ w, pc.carries = some w → (s.handles k).pc.carries = some w)
    (hremoves : pc.removes = true → (s.handles k).pc.removes = true) :
    Inv { s.goto k pc with locked := some (.handle k) } :=
  hi.relock (.inl hlocked) (Ok_of_inside hinside
    (fun hp => absurd hp (by rw [hpushing]; decide))
    (fun w hw => (hi.handles k).carrying w (hcarries w hw)) hi.node_ne_none
    (hi.registered_none hpc) fun hr => (hi.handles k).removing (hremoves hr))

/-- A handle gives the lock back. -/
theorem Inv.leave (hi : s.Inv) {pc : HandlePc W} (hpc : (s.handles k).pc.inside = true)
    (hcalm : pc ≠ .panicked) (hinside : pc.inside = false)
    (hcarries : ∀ w, pc.carries = some w → (s.handles k).pc.carries = some w)
    (hrests : pc.rests = true ∨ pc.removes = true → (s.handles k).pc.removes = true) :
    Inv { s.goto k pc with locked := none } :=
  hi.relock (.inr ((hi.handles k).held hpc)) (Ok_of_call hcalm hinside
    (fun w hw => (hi.handles k).carrying w (hcarries w hw)) hi.node_ne_none
    (hi.registered_none fun heq => Bool.false_ne_true (by rw [heq] at hpc; exact hpc))
    fun hr => (hi.handles k).removing (hrests hr))

theorem Inv.others_outside (hi : s.Inv) (hpc : (s.handles k).pc.inside = true) {j : Nat}
    (hj : j ≠ k) : s.locked ≠ some (.handle j) := by
  rw [(hi.handles k).held hpc]
  rintro ⟨⟩
  exact hj rfl

/-- `push_back` of a node that is not linked. -/
theorem Inv.push (hi : s.Inv) (hpc : (s.handles k).pc = .push waker)
    (horderly : (s.links k).linked = false) (hs : s.handleStep k = some s') : s'.Inv := by
  have hok := hi.handles k
  have hinside : (s.handles k).pc.inside = true := by rw [hpc]; rfl
  obtain ⟨keys, hrep, hkeys⟩ := hi.list
  have hk : k ∉ keys := fun hin => Bool.false_ne_true (horderly.symm.trans (hrep.linked hin))
  obtain ⟨links, wakers, hpush, hrep', hframe⟩ := hrep.pushBack hk horderly
  have hlinked : ∀ j, j ≠ k → (links j).linked = (s.links j).linked := by
    intro j hj
    by_cases hin : j ∈ keys
    · rw [hrep'.linked (List.mem_append_left _ hin), hrep.linked hin]
    · rw [hframe j hj hin]
  have hself : (links k).linked = true := hrep'.linked (List.mem_append_right _ List.mem_cons_self)
  have hearly : s.notifier.early = true := hok.pushing (by rw [hpc]; rfl)
  have hnotifying : s.notifier.inside = false := by
    cases hn : s.notifier with
    | pop | wake =>
      rw [hn] at hearly
      exact absurd hearly Bool.false_ne_true
    | _ => rfl
  unfold handleStep at hs
  simp only [hpc, hpush] at hs
  cases hs
  refine ⟨⟨_, hrep', fun j hj => ?_⟩, fun hin => ?_, hi.begun, fun hdone => ?_, ?_⟩
  · by_cases hjk : j = k
    · exact List.mem_append_right _ (List.mem_singleton.mpr hjk)
    · exact List.mem_append_left _ (hkeys j ((hlinked j hjk).symm.trans hj))
  · exact absurd (hnotifying.symm.trans hin) Bool.false_ne_true
  · change s.notifier = .done at hdone
    rw [hdone] at hearly
    exact absurd hearly (by decide)
  · refine handles_of (t := { s with links := links, locked := none }) ?_ fun j hj => ?_
    · exact Ok_of_registered rfl (hok.carrying waker (by rw [hpc]; rfl)) rfl rfl (.inl hself)
    · show (s.handles j).Ok j (links j).linked none s.notifier s.woken
      rw [hlinked j hj]
      exact (hi.handles j).relock (hi.others_outside hinside hj) none

/-- The waker of a registration that came too late is called at once. -/
theorem Inv.wake (hi : s.Inv) (hpc : (s.handles k).pc = .wake waker)
    (hs : s.handleStep k = some s') : s'.Inv := by
  have hok := hi.handles k
  unfold handleStep at hs
  simp only [hpc] at hs
  cases hs
  refine ⟨hi.list, hi.notifying, hi.begun, hi.emptied, handles_of
    (t := { s with woken := s.woken ++ [(k, waker)] }) ?_ fun j _ => (hi.handles j).wake _⟩
  exact Ok_of_registered rfl (hok.carrying waker (by rw [hpc]; rfl)) rfl rfl
    (.inr (.inr (List.mem_append_right _ List.mem_cons_self)))

/-- A node is taken out of the list, by its handle or by the completion. -/
theorem unlink {links links' : Nat → Link Nat} {wakers : LinkedList Nat} {keys as bs : List Nat}
    (hrep : Represents links wakers keys) (hkeys : keys = as ++ k :: bs)
    (hall : ∀ j, (links j).linked = true → j ∈ keys)
    {wakers' : LinkedList Nat} (hrep' : Represents links' wakers' (as ++ bs))
    (hframe : ∀ j ∉ keys, links' j = links j) (hself : links' k = Link.new) :
    (∀ j, (links' j).linked = true → j ∈ as ++ bs) ∧
      ∀ j, j ≠ k → (links' j).linked = (links j).linked := by
  have hsplit : ∀ j, j ≠ k → j ∈ keys → j ∈ as ++ bs := by
    intro j hj hin
    rw [hkeys] at hin
    rcases List.mem_append.mp hin with hin | hin
    · exact List.mem_append_left _ hin
    · exact List.mem_append_right _ ((List.mem_cons.mp hin).resolve_left hj)
  have hother : ∀ j, j ≠ k → (links' j).linked = (links j).linked := by
    intro j hj
    by_cases hin : j ∈ keys
    · rw [hrep'.linked (hsplit j hj hin), hrep.linked hin]
    · rw [hframe j hin]
  refine ⟨fun j hj => ?_, hother⟩
  have hjk : j ≠ k := by
    rintro rfl
    rw [hself] at hj
    exact Bool.false_ne_true hj
  exact hsplit j hjk (hall j ((hother j hjk).symm.trans hj))

/-- `remove_waker` takes a linked node out. -/
theorem Inv.remove (hi : s.Inv) (hpc : (s.handles k).pc = .remove)
    (hs : s.handleStep k = some s') : s'.Inv := by
  have hok := hi.handles k
  have hinside : (s.handles k).pc.inside = true := by rw [hpc]; rfl
  unfold handleStep at hs
  simp only [hpc] at hs
  split_ifs at hs with hlinked
  · obtain ⟨keys, hrep, hkeys⟩ := hi.list
    obtain ⟨as, bs, rfl⟩ := List.append_of_mem (hkeys k hlinked)
    obtain ⟨links, wakers, hremove, hrep', hframe⟩ := hrep.remove
    have hself : links k = Link.new := by
      have := LinkedList.remove_self s.links s.wakers k
      rw [hremove] at this
      exact this
    obtain ⟨hall, hother⟩ := unlink hrep rfl hkeys hrep' hframe hself
    rw [hremove] at hs
    cases hs
    refine ⟨⟨_, hrep', hall⟩, fun hin => ?_, hi.begun, fun hdone j => ?_, ?_⟩
    · have hheld := hi.notifying hin
      rw [hok.held hinside] at hheld
      exact Holder.noConfusion (Option.some.inj hheld)
    · exact absurd hlinked (by rw [hi.emptied hdone k]; exact Bool.false_ne_true)
    · refine handles_of (t := { s with links := links, locked := none }) ?_ fun j hj => ?_
      · exact Ok_of_call (by simp) rfl (fun w hw => absurd hw (Option.some_ne_none w).symm)
          (fun _ => hi.node_ne_none (.inl hlinked)) (hi.registered_none (by rw [hpc]; simp))
          fun _ => hok.removing (by rw [hpc]; rfl)
      · show (s.handles j).Ok j (links j).linked none s.notifier s.woken
        rw [hother j hj]
        exact (hi.handles j).relock (hi.others_outside hinside hj) none
  · cases hs
    exact hi.leave hinside (by simp) rfl (fun w hw => absurd hw (Option.some_ne_none w).symm)
      fun _ => by rw [hpc]; rfl

theorem Inv.handleStep (hi : s.Inv) (horderly : s.Orderly (.handle k))
    (hs : s.handleStep k = some s') : s'.Inv := by
  have hok := hi.handles k
  have hs' := hs
  unfold Waiters.handleStep at hs
  simp only [Orderly] at horderly
  cases hpc : (s.handles k).pc <;> simp only [hpc] at hs horderly
  case idle | panicked => cases hs
  case compare => exact hi.compare hpc horderly hs'
  case push => exact hi.push hpc horderly hs'
  case wake => exact hi.wake hpc hs'
  case remove => exact hi.remove hpc hs'
  case look waker =>
    cases hs
    split
    · exact hi.goto (by rw [hpc]; simp) (by simp) rfl (fun w hw => by rw [hpc]; exact hw)
        (by simp [HandlePc.rests, HandlePc.removes])
    · exact hi.goto (by rw [hpc]; simp) (by simp) rfl (fun w hw => by rw [hpc]; exact hw)
        (by simp [HandlePc.rests, HandlePc.removes])
  case lock waker =>
    split_ifs at hs with hlocked
    cases hs
    exact hi.enter (by rw [hpc]; simp) hlocked rfl rfl (fun w hw => by rw [hpc]; exact hw)
      fun hr => absurd hr Bool.false_ne_true
  case lookLocked waker =>
    have hinside : (s.handles k).pc.inside = true := by rw [hpc]; rfl
    split_ifs at hs with hcompleted
    · cases hs
      exact hi.leave hinside (by simp) rfl (fun w hw => by rw [hpc]; exact hw)
        (by simp [HandlePc.rests, HandlePc.removes])
    · cases hs
      -- the task is not completed, so nobody notifies
      have hidle : s.notifier = .idle := by
        by_contra hne
        exact hcompleted (hi.begun hne)
      have hpush := hi.move (k := k) (h := { s.handles k with pc := .push waker })
        (by
          rw [hok.held hinside]
          exact Ok_of_inside rfl (fun _ => by rw [hidle]; rfl)
            (fun w hw => hok.carrying w (by rw [hpc]; exact hw)) hi.node_ne_none
            (hi.registered_none (by rw [hpc]; simp)) fun hr => absurd hr Bool.false_ne_true)
      exact hpush
  case lookRemove =>
    cases hs
    split
    · exact hi.goto (by rw [hpc]; simp) (by simp) rfl
        (fun w hw => absurd hw (Option.some_ne_none w).symm) fun _ => by rw [hpc]; rfl
    · exact hi.goto (by rw [hpc]; simp) (by simp) rfl
        (fun w hw => absurd hw (Option.some_ne_none w).symm) fun _ => by rw [hpc]; rfl
  case lockRemove =>
    split_ifs at hs with hlocked
    cases hs
    exact hi.enter (by rw [hpc]; simp) hlocked rfl rfl
      (fun w hw => absurd hw (Option.some_ne_none w).symm) fun _ => by rw [hpc]; rfl

/-! ## The completion -/

theorem Inv.complete (hi : s.Inv) (hcompleted : s.completed = false) :
    Inv { s with completed := true, notifier := .lock } := by
  have hidle : s.notifier = .idle := by
    by_contra hne
    exact Bool.false_ne_true (hcompleted.symm.trans (hi.begun hne))
  refine ⟨hi.list, fun hin => absurd hin Bool.false_ne_true, fun _ => rfl,
    fun hdone => Notifier.noConfusion hdone, fun k => ?_⟩
  exact (hi.handles k).notify (.inr rfl) (by rw [hidle]; simp) (by simp)

theorem Inv.notifyStep (hi : s.Inv) (hs : s.notifyStep = some s') : s'.Inv := by
  unfold Waiters.notifyStep at hs
  cases hn : s.notifier <;> rw [hn] at hs <;> simp only at hs
  case idle | done => cases hs
  case lock =>
    split_ifs at hs with hlocked
    cases hs
    have hnone : ∀ j, s.locked ≠ some (.handle j) := fun j => by
      rw [hlocked]
      exact (Option.some_ne_none _).symm
    refine ⟨hi.list, fun _ => rfl, fun _ => hi.begun (by rw [hn]; simp),
      fun hdone => Notifier.noConfusion hdone, fun j => ?_⟩
    have hpushing := Handle.not_pushing (hi.handles j) (hnone j)
    exact ((hi.handles j).relock (hnone j) _).notify (.inl hpushing) (by rw [hn]; simp) (by simp)
  case pop =>
    have hheld : s.locked = some .notifier := hi.notifying (by rw [hn]; rfl)
    have hhandle : ∀ j, s.locked ≠ some (.handle j) := fun j => by
      rw [hheld]
      simp
    have hcompleted := hi.begun (by rw [hn]; simp)
    obtain ⟨keys, hrep, hkeys⟩ := hi.list
    cases keys with
    | nil =>
      have hpop : s.wakers.popFront s.links = (s.links, s.wakers, none) := by
        unfold LinkedList.popFront
        rw [hrep.head]
        rfl
      rw [hpop] at hs
      cases hs
      have hunlinked : ∀ j, (s.links j).linked = false := fun j =>
        Bool.eq_false_iff.mpr fun hj => List.not_mem_nil (hkeys j hj)
      refine ⟨⟨[], hrep, hkeys⟩, fun hin => absurd hin Bool.false_ne_true, fun _ => hcompleted,
        fun _ => hunlinked, fun j => ?_⟩
      exact ((hi.handles j).relock (hhandle j) _).notify
        (.inl (Handle.not_pushing (hi.handles j) (hhandle j))) (by rw [hn]; simp) (by simp)
    | cons k keys =>
      obtain ⟨links, wakers, hpop, hrep', hframe⟩ := hrep.popFront
      have hkeys' : k :: keys = [] ++ k :: keys := rfl
      obtain ⟨hall, hother⟩ := unlink hrep hkeys' hkeys hrep' hframe (LinkedList.popFront_self hpop)
      have hlinked : (s.links k).linked = true := hrep.linked List.mem_cons_self
      rw [hpop] at hs
      cases hs
      refine ⟨⟨keys, hrep', hall⟩, fun _ => hheld, fun _ => hcompleted,
        fun hdone => Notifier.noConfusion hdone, fun j => ?_⟩
      have hok := hi.handles j
      by_cases hj : j = k
      · subst hj
        exact ⟨hok.calm, hok.held, fun hp => absurd (hok.pushing hp) (by rw [hn]; decide),
          hok.carrying, fun _ => hok.owned hlinked, fun _ => hok.owned hlinked, hok.registered,
          fun _ _ _ _ => .inr (.inl rfl), hok.removing⟩
      · show (s.handles j).Ok j (links j).linked s.locked (.wake k) s.woken
        rw [hother j hj]
        exact hok.notify (.inl (Handle.not_pushing hok (hhandle j))) (by rw [hn]; simp)
          (by simpa using fun heq => hj heq.symm)
  case wake k =>
    have hheld : s.locked = some .notifier := hi.notifying (by rw [hn]; rfl)
    cases hs
    refine ⟨hi.list, fun _ => hheld, fun _ => hi.begun (by rw [hn]; simp),
      fun hdone => Notifier.noConfusion hdone, fun j => ?_⟩
    have hok := hi.handles j
    obtain ⟨waker, hnode⟩ := Option.ne_none_iff_exists'.mp ((hi.handles k).waking hn)
    have hpushing : (s.handles j).pc.pushing = false :=
      Handle.not_pushing hok (by rw [hheld]; simp)
    rw [hnode]
    by_cases hj : j = k
    · subst hj
      refine ⟨hok.calm, hok.held, fun hp => absurd (hpushing.symm.trans hp) Bool.false_ne_true,
        hok.carrying, hok.owned, fun _ => hok.waking hn, hok.registered,
        fun w hw hremoved hr => ?_, hok.removing⟩
      obtain rfl := Option.some.inj (hnode.symm.trans hw)
      exact .inr (.inr (List.mem_append_right _ List.mem_cons_self))
    · exact (hok.wake (k, waker)).notify (.inl hpushing)
        (by rw [hn]; simpa using fun heq => hj heq.symm) (by simp)

theorem Inv.step {e : Event W} (hi : s.Inv) (horderly : s.Orderly e) (hs : Step s e s') :
    s'.Inv := by
  unfold Step Waiters.next at hs
  cases e with
  | register k waker granted =>
    simp only at hs
    split_ifs at hs with hpc
    cases hs
    exact hi.register hpc
  | removeWaker k =>
    simp only at hs
    split_ifs at hs
    cases hs
    exact hi.removeWaker
  | handle k => exact hi.handleStep horderly hs
  | complete =>
    simp only at hs
    split_ifs at hs with hcompleted
    · cases hs
      exact hi
    · cases hs
      exact hi.complete (Bool.eq_false_iff.mpr hcompleted)
  | notify => exact hi.notifyStep hs

/-! ## Runs -/

theorem Inv.run (h : Run Step Orderly (fun s : Waiters W => s = Waiters.new) s) : s.Inv := by
  refine h.invariant ?_ fun _ _ _ hi horderly hs => hi.step horderly hs
  rintro _ rfl
  exact Inv.new

/-- A completion that has the lock comes to its end: it takes out every node of the list. -/
theorem notified (h : Run Step Orderly (fun s : Waiters W => s = Waiters.new) s)
    (hpop : s.notifier = .pop) :
    ∃ s', Run Step Orderly (fun s : Waiters W => s = Waiters.new) s' ∧ s'.notifier = .done ∧
      s'.handles = s.handles := by
  obtain ⟨keys, hrep, -⟩ := (Inv.run h).list
  induction keys generalizing s with
  | nil =>
    have hnone : s.wakers.popFront s.links = (s.links, s.wakers, none) := by
      unfold LinkedList.popFront
      rw [hrep.head]
      rfl
    have hs : s.notifyStep = some { s with notifier := .done, locked := none } := by
      unfold Waiters.notifyStep
      simp only [hpop, hnone]
    exact ⟨_, h.next Event.notify trivial hs, rfl, rfl⟩
  | cons k keys ih =>
    obtain ⟨links, wakers, hfront, hrep', -⟩ := hrep.popFront
    have hs : s.notifyStep = some { s with
        notifier := .wake k, links := links, wakers := wakers } := by
      unfold Waiters.notifyStep
      simp only [hpop, hfront]
    have hpopped := h.next Event.notify trivial hs
    obtain ⟨s₂, hwake⟩ : ∃ s₂, s₂ = { s with
        notifier := .pop, links := links, wakers := wakers,
        woken := s.woken ++ ((s.handles k).node.map fun waker => (k, waker)).toList } := ⟨_, rfl⟩
    have hwoken : Run Step Orderly (fun s : Waiters W => s = Waiters.new) s₂ :=
      hpopped.next Event.notify trivial (by rw [hwake]; rfl)
    obtain ⟨s', hrun, hdone, hhandles⟩ := ih hwoken (by rw [hwake]) (by rw [hwake]; exact hrep')
    exact ⟨s', hrun, hdone, hhandles.trans (by rw [hwake])⟩

/-- **A join handle may be polled again.**  In every run in which a handle links its node
only when it is not linked, and does not rely on an earlier registration of the same waker
after `remove_waker`, no call panics, the list has each node at most once, and when the
completion has notified, every handle whose registration has returned has had its last waker
called.  A completion that has the lock gets there. -/
theorem rearmed (h : Run Step Orderly (fun s : Waiters W => s = Waiters.new) s) :
    s.Sound ∧ (s.notifier = .pop →
      ∃ s', Run Step Orderly (fun s : Waiters W => s = Waiters.new) s' ∧ s'.notifier = .done ∧
        s'.handles = s.handles) := by
  have hi := Inv.run h
  obtain ⟨keys, hrep, -⟩ := hi.list
  refine ⟨⟨fun k => (hi.handles k).calm, ⟨keys, hrep, fun k => ?_⟩, ?_⟩, notified h⟩
  · exact List.nodup_iff_count_le_one.mp hrep.nodup k
  · intro hdone k waker hpc hregistered
    obtain ⟨hnode, hremoved, -⟩ := (hi.handles k).registered waker hregistered
    rcases (hi.handles k).served waker hnode hremoved (by rw [hpc]; rfl) with hl | hw | hin
    · exact absurd ((hi.emptied hdone k).symm.trans hl) Bool.false_ne_true
    · exact Notifier.noConfusion (hdone.symm.trans hw)
    · exact hin

/-- `Orderly`, decided. -/
def orderlyTest (s : Waiters W) : Event W → Bool
  | .handle k =>
      match (s.handles k).pc with
      | .push _ => !(s.links k).linked
      | .compare waker => (s.handles k).node != some waker || !(s.handles k).removed
      | _ => true
  | _ => true

theorem orderly_of_test {e : Event W} (h : s.orderlyTest e = true) : s.Orderly e := by
  cases e with
  | handle k =>
    unfold orderlyTest at h
    unfold Orderly
    simp only at h ⊢
    cases hpc : (s.handles k).pc <;> simp only [hpc] at h ⊢
    · intro hnode
      simpa [hnode] using h
    · simpa using h
  | _ => trivial

/-- `register_waker_on` of a handle without a node, up to `push_back`. -/
def registration (k waker : Nat) : List (Event Nat) :=
  [.register k waker true, .handle k, .handle k, .handle k, .handle k]

/-- The task completes, with at most one node in the list. -/
def completion : List (Event Nat) := [.complete, .notify, .notify, .notify, .notify]

/-- A handle that is polled twice with one waker, and a completion. -/
theorem rearmed_same_waker : ∃ s : Waiters Nat,
    Run Step Orderly (fun s : Waiters Nat => s = Waiters.new) s ∧ s.notifier = .done ∧
      (s.handles 0).registered = some 7 ∧ (0, 7) ∈ s.woken ∧ s.Sound := by
  have hreplay : (replay Waiters.next orderlyTest Waiters.new
      (registration 0 7 ++ [.register 0 7 true, .handle 0] ++ completion)).map
        (fun s => (s.notifier, s.handles 0, s.woken)) =
      some (.done, ⟨some 7, .idle, some 7, false⟩, [(0, 7)]) := by
    decide +kernel
  obtain ⟨s, hs, hfacts⟩ := Option.map_eq_some_iff.mp hreplay
  simp only [Prod.mk.injEq] at hfacts
  obtain ⟨hdone, hhandle, hwoken⟩ := hfacts
  have hstart : Run Step Orderly (fun s : Waiters Nat => s = Waiters.new) Waiters.new := .start rfl
  have hrun := hstart.replay (fun _ _ _ h => h) (fun _ _ => orderly_of_test) hs
  refine ⟨s, hrun, hdone, by rw [hhandle], ?_, (rearmed hrun).1⟩
  rw [hwoken]
  exact List.mem_cons_self

/-- A handle that is polled with another waker panics.  And a handle that registers its
waker again after `remove_waker` is not in the list when the task completes. -/
theorem rearming_panics :
    (∃ s : Waiters Nat, Run Step Always (fun s : Waiters Nat => s = Waiters.new) s ∧
      (s.handles 0).pc = .panicked ∧ ¬ s.Sound) ∧
    ∃ s : Waiters Nat, Run Step Always (fun s : Waiters Nat => s = Waiters.new) s ∧
      s.notifier = .done ∧ (s.handles 0).registered = some 7 ∧ s.woken = [] ∧ ¬ s.Sound := by
  have hstart : Run Step Always (fun s : Waiters Nat => s = Waiters.new) Waiters.new := .start rfl
  constructor
  · have hreplay : (replay Waiters.next (fun _ _ => true) Waiters.new
        (registration 0 7 ++ registration 0 8 ++ [.handle 0])).map (fun s => (s.handles 0).pc) =
        some .panicked := by
      decide +kernel
    obtain ⟨s, hs, hpc⟩ := Option.map_eq_some_iff.mp hreplay
    exact ⟨s, hstart.replay (fun _ _ _ h => h) (fun _ _ _ => trivial) hs, hpc,
      fun hsound => hsound.calm 0 hpc⟩
  · have hreplay : (replay Waiters.next (fun _ _ => true) Waiters.new
        (registration 0 7 ++ [.removeWaker 0, .handle 0, .handle 0, .handle 0] ++
          [.register 0 7 true, .handle 0] ++ [.complete, .notify, .notify])).map
          (fun s => (s.notifier, s.handles 0, s.woken)) =
        some (.done, ⟨some 7, .idle, some 7, true⟩, []) := by
      decide +kernel
    obtain ⟨s, hs, hfacts⟩ := Option.map_eq_some_iff.mp hreplay
    simp only [Prod.mk.injEq] at hfacts
    obtain ⟨hdone, hhandle, hwoken⟩ := hfacts
    refine ⟨s, hstart.replay (fun _ _ _ h => h) (fun _ _ _ => trivial) hs, hdone,
      by rw [hhandle], hwoken, fun hsound => ?_⟩
    have hin := hsound.woken hdone 0 7 (by rw [hhandle]) (by rw [hhandle])
    rw [hwoken] at hin
    exact List.not_mem_nil hin

end Waiters

end Veloq.Runtime.JoinWaker
