import Mathlib.Data.List.Pairwise
import Veloq.Runtime.ArenaInvariant
set_option autoImplicit false

/-!
# Runtime: runs of the task arena

`Holds` is what the memory of an arena says about the objects in it: each lies in the used
part of its chunk, apart from the others, the drop node in front of it names it, and the list
of a chunk consists of the drop nodes of its objects.  An allocation and a release keep it
because they keep the memory (`Kept`); the drop nodes are written, linked and unlinked one at
a time.
-/

namespace Veloq.Runtime

open Veloq.Foundation
open Veloq.Intrusive (Link LinkedList Represents)

/-! ## Objects and their memory -/

/-- Where the memory of an object begins: at its drop node, if it has one. -/
def Object.start (node : NodeLayout) (o : Object) : Nat :=
  match o.dropFn with
  | none => o.ptr
  | some _ => o.ptr - roundUp node.size o.layout.align

/-- Where the memory of an object ends. -/
def Object.stop (o : Object) : Nat := o.ptr + o.layout.size

/-- The memory of two objects, drop nodes included, does not overlap. -/
def Object.Apart (node : NodeLayout) (o o' : Object) : Prop :=
  o.stop ≤ o'.start node ∨ o'.stop ≤ o.start node

/-- The number of objects in a chunk. -/
def objectsIn (live : List Object) (c : Nat) : Nat := live.countP fun o => decide (o.chunk = c)

/-- The drop nodes in a chunk. -/
def nodesIn (node : NodeLayout) (live : List Object) (c : Nat) : List Nat :=
  (live.filter fun o => o.dropFn.isSome && decide (o.chunk = c)).map (Object.start node)

/-- There is a drop node in front of an object, and it names the object. -/
structure Headed (node : NodeLayout) (nodes : Nat → DropNode) (o : Object) (f : Nat) : Prop where
  found : ∃ total, node.toLayout.extend o.layout =
    some (total, roundUp node.size o.layout.align)
  start : o.start node + roundUp node.size o.layout.align = o.ptr
  nonnull : f ≠ 0
  dropFn : (nodes (o.start node)).dropFn = f
  dataPtr : (nodes (o.start node)).dataPtr = o.ptr
  chunk : (nodes (o.start node)).chunk = o.chunk

/-- An object is aligned and lies in the used part of its chunk. -/
structure Placed (node : NodeLayout) (a : Arena) (o : Object) : Prop where
  aligned : o.layout.align ∣ o.ptr
  within : ∃ chunk, a.boxes o.chunk = some chunk ∧ chunk.ptr ≤ o.start node ∧
    o.stop ≤ chunk.ptr + chunk.used
  headed : ∀ f, o.dropFn = some f → Headed node a.nodes o f

/-- The memory of an arena and the objects in it; `objects` may count one that is about to
come or to go. -/
structure Holds (node : NodeLayout) (a : Arena) (objects : Nat → Nat) (live : List Object) :
    Prop where
  owned : a.Owned (Arena.references a.activeChunk objects)
  counted : ∀ c, objectsIn live c ≤ objects c
  placed : ∀ o ∈ live, Placed node a o
  apart : live.Pairwise (Object.Apart node)
  lists : ∀ c chunk, a.boxes c = some chunk →
    Represents (nodeLinks a.nodes) chunk.dropList (nodesIn node live c)

section Objects

variable {node : NodeLayout} {o o' : Object} {live before after : List Object} {c d f : Nat}

theorem Object.start_le (node : NodeLayout) (o : Object) : o.start node ≤ o.ptr := by
  unfold Object.start
  split
  · exact Nat.le_refl _
  · exact Nat.sub_le ..

theorem Object.start_of_some (h : o.dropFn = some f) :
    o.start node = o.ptr - roundUp node.size o.layout.align := by
  unfold Object.start
  rw [h]

instance (node : NodeLayout) : Std.Symm (Object.Apart node) := ⟨fun _ _ => Or.symm⟩

theorem objectsIn_cons : objectsIn (o :: live) c =
    Function.update (objectsIn live) o.chunk (objectsIn live o.chunk + 1) c := by
  unfold objectsIn
  by_cases hc : o.chunk = c
  · subst hc
    rw [Function.update_self, List.countP_cons_of_pos (by simp)]
  · rw [Function.update_of_ne (Ne.symm hc), List.countP_cons_of_neg (by simpa using hc)]

theorem objectsIn_middle : objectsIn (before ++ o :: after) c =
    objectsIn (o :: (before ++ after)) c :=
  List.perm_middle.countP_eq _

theorem objectsIn_pos (h : o ∈ live) : 0 < objectsIn live o.chunk :=
  List.countP_pos_iff.mpr ⟨o, h, decide_eq_true rfl⟩

theorem nodesIn_nil_of_unused (h : objectsIn live c = 0) : nodesIn node live c = [] := by
  unfold nodesIn
  rw [List.map_eq_nil_iff, List.filter_eq_nil_iff]
  intro o ho hpass
  have hc : o.chunk = c := by
    rw [Bool.and_eq_true, decide_eq_true_eq] at hpass
    exact hpass.2
  have := objectsIn_pos ho
  rw [hc] at this
  omega

theorem mem_nodesIn {p : Nat} : p ∈ nodesIn node live c ↔
    ∃ o ∈ live, o.dropFn ≠ none ∧ o.chunk = c ∧ o.start node = p := by
  simp only [nodesIn, List.mem_map, List.mem_filter, Bool.and_eq_true, decide_eq_true_eq,
    Option.isSome_iff_ne_none, and_assoc]

theorem nodesIn_cons_self (h : o.dropFn = some f) :
    nodesIn node (o :: live) o.chunk = o.start node :: nodesIn node live o.chunk := by
  unfold nodesIn
  rw [List.filter_cons_of_pos (by simp [h])]
  rfl

theorem nodesIn_cons_of_ne (h : o.chunk ≠ c) : nodesIn node (o :: live) c = nodesIn node live c := by
  unfold nodesIn
  rw [List.filter_cons_of_neg (by simp [h])]

theorem nodesIn_cons_of_none (h : o.dropFn = none) :
    nodesIn node (o :: live) c = nodesIn node live c := by
  unfold nodesIn
  rw [List.filter_cons_of_neg (by simp [h])]

theorem nodesIn_append : nodesIn node (before ++ after) c =
    nodesIn node before c ++ nodesIn node after c := by
  unfold nodesIn
  rw [List.filter_append, List.map_append]

end Objects

/-! ## What an arena holds -/

namespace Holds

variable {node : NodeLayout} {a b : Arena} {objects objects' : Nat → Nat}
variable {live before after : List Object} {o : Object} {c f : Nat}

/-- The drop node of an object lies within its memory. -/
theorem node_le (h : Placed node a o) (hf : o.dropFn ≠ none) : o.start node + node.size ≤ o.ptr := by
  obtain ⟨f, hf⟩ := Option.ne_none_iff_exists'.mp hf
  have hstart := (h.headed f hf).start
  have hle := le_roundUp node.size o.layout.align_pos
  omega

/-- Different objects have different drop nodes. -/
theorem start_ne (h : Holds node a objects live) {o o' : Object} (ho : o ∈ live) (ho' : o' ∈ live)
    (hne : o ≠ o') (hf : o.dropFn ≠ none) (hf' : o'.dropFn ≠ none) :
    o.start node ≠ o'.start node := by
  have hapart : o.Apart node o' := h.apart.forall ho ho' hne
  have hle := node_le (h.placed o ho) hf
  have hle' := node_le (h.placed o' ho') hf'
  have hpos := node.size_pos
  rcases hapart with hapart | hapart
  · unfold Object.stop at hapart
    omega
  · unfold Object.stop at hapart
    omega

/-- The lists of different chunks have no drop nodes in common. -/
theorem nodesIn_disjoint (h : Holds node a objects live) {d p : Nat} (hcd : c ≠ d)
    (hp : p ∈ nodesIn node live c) : p ∉ nodesIn node live d := by
  intro hp'
  obtain ⟨o, ho, hf, hc, hstart⟩ := mem_nodesIn.mp hp
  obtain ⟨o', ho', hf', hd, hstart'⟩ := mem_nodesIn.mp hp'
  have hne : o ≠ o' := fun heq => hcd (hc.symm.trans ((congrArg Object.chunk heq).trans hd))
  exact h.start_ne ho ho' hne hf hf' (hstart.trans hstart'.symm)

/-- What keeps the memory keeps the objects. -/
theorem kept (h : Holds node a objects live) (hkept : Arena.Kept a b)
    (howned : b.Owned (Arena.references b.activeChunk objects'))
    (hcounted : ∀ c, objectsIn live c ≤ objects' c) : Holds node b objects' live := by
  refine ⟨howned, hcounted, fun o ho => ?_, h.apart, fun c chunk' hc => ?_⟩
  · obtain ⟨haligned, ⟨chunk, hc, hstart, hstop⟩, hheaded⟩ := h.placed o ho
    refine ⟨haligned, ?_, ?_⟩
    · have hheld : 0 < Arena.references b.activeChunk objects' o.chunk := by
        have hpos := objectsIn_pos ho
        have hle := hcounted o.chunk
        unfold Arena.references
        omega
      obtain ⟨chunk', hc'⟩ := Option.ne_none_iff_exists'.mp ((howned.held _).mpr hheld)
      rcases hkept.old _ chunk' hc' with ⟨chunk₀, hc₀, hgrown, -⟩ | ⟨hnone, -⟩
      · obtain rfl := Option.some.inj (hc.symm.trans hc₀)
        have hused := hgrown.used
        refine ⟨chunk', hc', ?_, ?_⟩
        · rw [hgrown.ptr]
          exact hstart
        · rw [hgrown.ptr]
          omega
      · exact absurd (hc.symm.trans hnone) (Option.some_ne_none _)
    · rw [hkept.nodes]
      exact hheaded
  · rw [hkept.nodes]
    rcases hkept.old c chunk' hc with ⟨chunk, hc, -, hlist⟩ | ⟨hnone, hlist⟩
    · rw [hlist]
      exact h.lists c chunk hc
    · have hunused : objectsIn live c = 0 := by
        have := (h.owned.unused hnone).2
        have := h.counted c
        omega
      rw [hlist, nodesIn_nil_of_unused hunused]
      exact Represents.new

/-- Memory outside of the drop nodes may be written. -/
theorem rewrite (h : Holds node a objects live) (nodes : Nat → DropNode)
    (hsame : ∀ o ∈ live, o.dropFn ≠ none → nodes (o.start node) = a.nodes (o.start node)) :
    Holds node { a with nodes := nodes } objects live := by
  refine ⟨h.owned.congr rfl rfl fun _ => rfl, h.counted, fun o ho => ?_, h.apart,
    fun c chunk hc => ?_⟩
  · obtain ⟨haligned, hwithin, hheaded⟩ := h.placed o ho
    refine ⟨haligned, hwithin, fun f hf => ?_⟩
    have hnode := hsame o ho (by simp [hf])
    obtain ⟨hfound, hstart, hnonnull, hdropFn, hdataPtr, hchunk⟩ := hheaded f hf
    exact ⟨hfound, hstart, hnonnull, (congrArg DropNode.dropFn hnode).trans hdropFn,
      (congrArg DropNode.dataPtr hnode).trans hdataPtr,
      (congrArg DropNode.chunk hnode).trans hchunk⟩
  · refine (h.lists c chunk hc).congr fun p hp => ?_
    obtain ⟨o, ho, hf, -, rfl⟩ := mem_nodesIn.mp hp
    exact congrArg DropNode.link (hsame o ho hf)

/-- The list of one chunk changes, together with the links of drop nodes. -/
theorem relist (h : Holds node a objects live) {chunk : Chunk} (hc : a.boxes c = some chunk)
    (live' : List Object) (links : Nat → Link Nat) (list : LinkedList Nat)
    (hcounted : ∀ d, objectsIn live' d ≤ objects d) (hplaced : ∀ o ∈ live', Placed node a o)
    (hapart : live'.Pairwise (Object.Apart node))
    (hlist : Represents links list (nodesIn node live' c))
    (hother : ∀ d, d ≠ c → nodesIn node live' d = nodesIn node live d ∧
      ∀ p ∈ nodesIn node live d, links p = nodeLinks a.nodes p) :
    Holds node { a with
      nodes := withNodeLinks a.nodes links
      boxes := Function.update a.boxes c (some { chunk with dropList := list }) } objects live' := by
  have hcount := h.owned.count c chunk hc
  have hpos : 0 < chunk.activeCount := by
    rw [hcount]
    exact (h.owned.held c).mp (by rw [hc]; exact Option.some_ne_none _)
  have hgrown : Arena.Grown chunk { chunk with dropList := list } := ⟨rfl, rfl, Nat.le_refl _⟩
  have howned := h.owned.setBox hc hgrown (h.owned.wf c chunk hc).used rfl hpos
  refine ⟨howned.congr rfl rfl fun d => ?_, hcounted, fun o ho => ?_, hapart, fun d chunk' hd => ?_⟩
  · by_cases hdc : d = c
    · subst hdc
      rw [Function.update_self]
      exact hcount.symm
    · rw [Function.update_of_ne hdc]
  · obtain ⟨haligned, ⟨chunk', hc', hstart, hstop⟩, hheaded⟩ := hplaced o ho
    refine ⟨haligned, ?_, fun f hf => ?_⟩
    · by_cases hoc : o.chunk = c
      · rw [hoc] at hc'
        obtain rfl := Option.some.inj (hc.symm.trans hc')
        refine ⟨{ chunk with dropList := list }, ?_, hstart, hstop⟩
        rw [hoc]
        exact Arena.setBox_self
      · exact ⟨chunk', (Arena.setBox_of_ne hoc).trans hc', hstart, hstop⟩
    · obtain ⟨hfound, hstart, hnonnull, hdropFn, hdataPtr, hchunk⟩ := hheaded f hf
      exact ⟨hfound, hstart, hnonnull, hdropFn, hdataPtr, hchunk⟩
  · by_cases hdc : d = c
    · subst hdc
      obtain rfl := Option.some.inj (Arena.setBox_self.symm.trans hd)
      exact hlist
    · have hold : a.boxes d = some chunk' := (Arena.setBox_of_ne hdc).symm.trans hd
      obtain ⟨hnodes, hlinks⟩ := hother d hdc
      rw [hnodes]
      exact (h.lists d chunk' hold).congr hlinks

/-- A new object with a destructor gets its drop node. -/
theorem pushNode (h : Holds node a objects live) (hf : o.dropFn = some f) (hnonnull : f ≠ 0)
    {total : Layout} {p offset : Nat} (hextend : node.toLayout.extend o.layout = some (total, offset))
    (hptr : o.ptr = p + offset)
    {chunk : Chunk} (hc : a.boxes o.chunk = some chunk) (haligned : total.align ∣ p)
    (hbegin : chunk.ptr ≤ p) (hend : p + total.size ≤ chunk.ptr + chunk.used)
    (hcounted : ∀ d, objectsIn (o :: live) d ≤ objects d)
    (hapart : ∀ o' ∈ live, p + total.size ≤ o'.start node ∨ o'.stop ≤ p) :
    ∃ b, a.pushNode node p o.ptr f o.chunk = some b ∧ Holds node b objects (o :: live) := by
  obtain ⟨hoffset, hsize, halign, hdvd, hle⟩ := Layout.extend_spec hextend
  have hstart : o.start node = p := by
    rw [Object.start_of_some hf, hptr, ← hoffset]
    omega
  have hstop : o.stop = p + total.size := by
    unfold Object.stop
    omega
  have hpos := node.size_pos
  have hfar : ∀ o' ∈ live, o'.dropFn ≠ none → p ≠ o'.start node ∧
      ¬(o'.start node < p + node.size ∧ p < o'.start node + node.size) := by
    intro o' ho' hf'
    have hnode := node_le (h.placed o' ho') hf'
    rcases hapart o' ho' with hapart | hapart
    · omega
    · unfold Object.stop at hapart
      omega
  let value : DropNode := { link := Link.new, dropFn := f, dataPtr := o.ptr, chunk := o.chunk }
  let nodes := writeNode node a.nodes p value
  have hself : nodes p = value := if_pos rfl
  have hwritten : Holds node { a with nodes := nodes } objects live := by
    refine h.rewrite nodes fun o' ho' hf' => ?_
    obtain ⟨hne, hoverlap⟩ := hfar o' ho' hf'
    show writeNode node a.nodes p value (o'.start node) = _
    unfold writeNode
    rw [if_neg (Ne.symm hne), if_neg hoverlap]
  have hnotMem : p ∉ nodesIn node live o.chunk := by
    intro hp
    obtain ⟨o', ho', hf', -, hp⟩ := mem_nodesIn.mp hp
    exact (hfar o' ho' hf').1 hp.symm
  have hlinked : (nodeLinks nodes p).linked = false := by
    unfold nodeLinks
    rw [hself]
    rfl
  obtain ⟨links, list, hpush, hrep, hframe⟩ :=
    (hwritten.lists o.chunk chunk hc).pushFront hnotMem hlinked
  refine ⟨_, ?_, hwritten.relist hc (o :: live) links list hcounted ?_ ?_ ?_ ?_⟩
  · unfold Arena.pushNode
    simp only [hc]
    exact congrArg (Option.map _) hpush
  · intro o' ho'
    rcases List.mem_cons.mp ho' with rfl | ho'
    · refine ⟨?_, ⟨chunk, hc, ?_, ?_⟩, fun f' hf' => ?_⟩
      · rw [hptr]
        exact Nat.dvd_add (Nat.dvd_trans halign haligned) hdvd
      · omega
      · omega
      · obtain rfl := Option.some.inj (hf.symm.trans hf')
        have hnode : nodes (o'.start node) = value := by
          rw [hstart]
          exact hself
        exact ⟨⟨total, hoffset ▸ hextend⟩, by omega, hnonnull, congrArg DropNode.dropFn hnode,
          congrArg DropNode.dataPtr hnode, congrArg DropNode.chunk hnode⟩
    · exact hwritten.placed o' ho'
  · refine List.pairwise_cons.mpr ⟨fun o' ho' => ?_, h.apart⟩
    unfold Object.Apart
    rw [hstart, hstop]
    exact hapart o' ho'
  · rw [nodesIn_cons_self hf, hstart]
    exact hrep
  · intro d hd
    refine ⟨nodesIn_cons_of_ne (Ne.symm hd), fun q hq => hframe q ?_ ?_⟩
    · rintro rfl
      obtain ⟨o', ho', hf', -, hp⟩ := mem_nodesIn.mp hq
      exact (hfar o' ho' hf').1 hp.symm
    · exact hwritten.nodesIn_disjoint hd hq

/-- `drop_object` runs the destructor, takes out the drop node and gives up the reference. -/
theorem dropObject
    (h : Holds node a (objectsIn (before ++ o :: after)) (before ++ o :: after))
    (hf : o.dropFn = some f) :
    ∃ b, a.dropObject node o.ptr o.layout = some (b, some (f, o.ptr)) ∧
      Holds node b (objectsIn (before ++ after)) (before ++ after) := by
  have ho : o ∈ before ++ o :: after := by simp
  have hrest : ∀ o' ∈ before ++ after, o' ∈ before ++ o :: after := fun o' ho' =>
    (List.sublist_cons_self o after).append_left before |>.subset ho'
  have hplaced := h.placed o ho
  obtain ⟨⟨total, hfound⟩, hstart, hnonnull, hdropFn, hdataPtr, hchunk⟩ := hplaced.headed f hf
  obtain ⟨chunk, hc, -, -⟩ := hplaced.within
  have hnodePtr : o.ptr - roundUp node.size o.layout.align = o.start node := by omega
  have hapart : (before ++ after).Pairwise (Object.Apart node) :=
    h.apart.sublist ((List.sublist_cons_self o after).append_left before)
  have hstarts : ∀ o' ∈ before ++ after, o'.dropFn ≠ none → o'.start node ≠ o.start node := by
    intro o' ho' hf'
    have hsplit := List.pairwise_middle (fun {_ _} => Or.symm) |>.mp h.apart
    have hapart' := (List.pairwise_cons.mp hsplit).1 o' ho'
    have hnode := node_le (h.placed o' (hrest o' ho')) hf'
    have hnode' := node_le hplaced (by rw [hf]; exact Option.some_ne_none _)
    have hpos := node.size_pos
    unfold Object.Apart Object.stop at hapart'
    omega
  -- only the field of the destructor changes before the node is taken out
  obtain ⟨nodes, hnodes⟩ : ∃ nodes, Function.update a.nodes (o.start node)
      { link := (a.nodes (o.start node)).link
        dataPtr := (a.nodes (o.start node)).dataPtr
        dropFn := 0
        chunk := o.chunk } = nodes := ⟨_, rfl⟩
  have hlinks : nodeLinks nodes = nodeLinks a.nodes := by
    funext q
    unfold nodeLinks
    by_cases hq : q = o.start node
    · rw [hq, ← hnodes, Function.update_self]
    · rw [← hnodes, Function.update_of_ne hq]
  have hkeys : nodesIn node (before ++ o :: after) o.chunk =
      nodesIn node before o.chunk ++ o.start node :: nodesIn node after o.chunk := by
    rw [nodesIn_append, nodesIn_cons_self hf]
  have hrep := h.lists o.chunk chunk hc
  rw [hkeys] at hrep
  obtain ⟨links, list, hremove, hrep', hframe⟩ := hrep.remove
  rw [← hkeys] at hframe
  have hcounted : ∀ d, objectsIn (before ++ after) d ≤ objectsIn (before ++ o :: after) d :=
    fun d => ((List.sublist_cons_self o after).append_left before).countP_le
  have hrelisted := h.relist hc (before ++ after) links list hcounted
    (fun o' ho' => h.placed o' (hrest o' ho')) hapart (nodesIn_append ▸ hrep') fun d hd => by
      refine ⟨?_, fun q hq => hframe q (h.nodesIn_disjoint hd hq)⟩
      rw [nodesIn_append, nodesIn_append, nodesIn_cons_of_ne (Ne.symm hd)]
  have hholds := hrelisted.rewrite (withNodeLinks nodes links) fun o' ho' hf' => by
    have hne : nodes (o'.start node) = a.nodes (o'.start node) := by
      rw [← hnodes, Function.update_of_ne (hstarts o' ho' hf')]
    unfold withNodeLinks
    rw [hne]
  obtain ⟨b, hrelease, howned, hkept, hactive⟩ := hholds.owned.release (c := o.chunk) (by
    have hpos := objectsIn_pos ho
    unfold Arena.references
    omega)
  refine ⟨b, ?_, hholds.kept hkept (howned.congr rfl rfl fun d => ?_) fun _ => Nat.le_refl _⟩
  · unfold Arena.dropObject
    simp only [hfound, hnodePtr, hdropFn, hchunk, hc, hnodes, hlinks, hremove]
    rw [if_neg hnonnull]
    exact congrArg (Option.map _) hrelease
  · show _ = Function.update (Arena.references a.activeChunk _) _
      (Arena.references a.activeChunk _ _ - 1) d
    rw [show b.activeChunk = a.activeChunk from hactive]
    unfold Arena.references
    by_cases hd : d = o.chunk
    · subst hd
      rw [Function.update_self, objectsIn_middle, objectsIn_cons, Function.update_self]
      omega
    · rw [Function.update_of_ne hd, objectsIn_middle, objectsIn_cons, Function.update_of_ne hd]

/-- Memory that has been cut off is apart from the objects. -/
theorem granted (h : Holds node a (objectsIn live) live) {layout : Layout} {p : Nat}
    (hgranted : Arena.Granted a b (objectsIn live) layout p o.chunk) :
    Holds node b (objectsIn (o :: live)) live ∧
      ∀ o' ∈ live, p + layout.size ≤ o'.start node ∨ o'.stop ≤ p := by
  have hholds : Holds node b (objectsIn (o :: live)) live := by
    refine h.kept hgranted.kept (hgranted.owned.congr rfl rfl fun c => ?_) fun c => ?_
    · unfold Arena.references
      rw [objectsIn_cons]
    · exact (List.sublist_cons_self o live).countP_le
  refine ⟨hholds, fun o' ho' => ?_⟩
  obtain ⟨chunk, hc, hbegin, hend⟩ := hgranted.within
  by_cases hsame : o'.chunk = o.chunk
  · obtain ⟨chunk', hc', -, hstop⟩ := (h.placed o' ho').within
    rw [hsame] at hc'
    have hbeyond := hgranted.beyond chunk' hc'
    exact Or.inr (by omega)
  · obtain ⟨chunk', hc', hstart, hstop⟩ := (hholds.placed o' ho').within
    have hused := (hholds.owned.wf _ chunk hc).used
    have hused' := (hholds.owned.wf _ chunk' hc').used
    rcases hholds.owned.apart _ _ chunk' chunk hsame hc' hc with hapart | hapart
    · exact Or.inr (by omega)
    · exact Or.inl (by omega)

/-- A new object without a destructor has no drop node. -/
theorem cons (h : Holds node b objects live) (hf : o.dropFn = none)
    (haligned : o.layout.align ∣ o.ptr) {chunk : Chunk} (hc : b.boxes o.chunk = some chunk)
    (hbegin : chunk.ptr ≤ o.ptr) (hend : o.stop ≤ chunk.ptr + chunk.used)
    (hcounted : ∀ d, objectsIn (o :: live) d ≤ objects d)
    (hapart : ∀ o' ∈ live, o.stop ≤ o'.start node ∨ o'.stop ≤ o.ptr) :
    Holds node b objects (o :: live) := by
  have hstart : o.start node = o.ptr := by
    unfold Object.start
    rw [hf]
  refine ⟨h.owned, hcounted, fun o' ho' => ?_, List.pairwise_cons.mpr ⟨fun o' ho' => ?_, h.apart⟩,
    fun d chunk' hd => ?_⟩
  · rcases List.mem_cons.mp ho' with rfl | ho'
    · refine ⟨haligned, ⟨chunk, hc, hstart ▸ hbegin, hend⟩, fun f hf' => ?_⟩
      exact absurd (hf.symm.trans hf').symm (Option.some_ne_none f)
    · exact h.placed o' ho'
  · unfold Object.Apart
    rw [hstart]
    exact hapart o' ho'
  · rw [nodesIn_cons_of_none hf]
    exact h.lists d chunk' hd

end Holds

/-! ## The end of an arena -/

/-- The destructor call that a drop node stands for. -/
def DropNode.call (n : DropNode) : Option (Nat × Nat) :=
  if n.dropFn = 0 then none else some (n.dropFn, n.dataPtr)

namespace Arena

/-- All destructors of a chunk run, in the order of the list; other drop nodes stay. -/
theorem runDestructors_spec {nodes : Nat → DropNode} {list : LinkedList Nat} {keys : List Nat}
    (h : Represents (nodeLinks nodes) list keys) (ran : List (Nat × Nat)) :
    ∃ nodes', runDestructors keys.length nodes list ran =
        some (nodes', ran ++ keys.filterMap fun p => (nodes p).call) ∧
      ∀ q ∉ keys, nodes' q = nodes q := by
  induction keys generalizing nodes list ran with
  | nil =>
    refine ⟨nodes, ?_, fun _ _ => rfl⟩
    show (if list.isEmpty then some (nodes, ran) else none) = _
    rw [if_pos (h.isEmpty_iff.mpr rfl)]
    simp
  | cons p keys ih =>
    obtain ⟨links, list', hpop, hrep, hframe⟩ := h.popFront
    obtain ⟨hnotMem, -⟩ := List.nodup_cons.mp h.nodup
    obtain ⟨nodes', hnodes⟩ : ∃ nodes', Function.update (withNodeLinks nodes links) p
        { link := links p, dataPtr := (nodes p).dataPtr, dropFn := 0, chunk := (nodes p).chunk } =
          nodes' := ⟨_, rfl⟩
    have hother : ∀ q, q ≠ p → nodes' q = { nodes q with link := links q } := by
      intro q hq
      rw [← hnodes, Function.update_of_ne hq]
      rfl
    have hrep' : Represents (nodeLinks nodes') list' keys := hrep.congr fun q hq => by
      have hqp : q ≠ p := fun heq => hnotMem (heq ▸ hq)
      unfold nodeLinks
      rw [hother q hqp]
    have hcalls : (keys.filterMap fun q => (nodes' q).call) =
        keys.filterMap fun q => (nodes q).call := by
      refine List.filterMap_congr fun q hq => ?_
      have hqp : q ≠ p := fun heq => hnotMem (heq ▸ hq)
      rw [hother q hqp]
      rfl
    obtain ⟨nodes'', hrun, hframe'⟩ := ih hrep'
      (if (nodes p).dropFn = 0 then ran else ran ++ [((nodes p).dropFn, (nodes p).dataPtr)])
    refine ⟨nodes'', ?_, fun q hq => ?_⟩
    · show runDestructors (keys.length + 1) nodes list ran = _
      unfold runDestructors
      rw [hpop]
      simp only [hnodes]
      rw [hrun, hcalls, List.filterMap_cons]
      unfold DropNode.call
      by_cases hzero : (nodes p).dropFn = 0
      · rw [if_pos hzero, if_pos hzero]
      · rw [if_neg hzero, if_neg hzero, List.append_assoc]
        rfl
    · obtain ⟨hqp, hqkeys⟩ := not_or.mp (mt List.mem_cons.mpr hq)
      rw [hframe' q hqkeys, hother q hqp, hframe q hq]
      rfl

/-- All chunks are freed, and all destructors run. -/
theorem dropChunks_spec {a : Arena} {keys : List Nat} {parts : Nat → List Nat}
    (hchunks : Represents (chunkLinks a.boxes) a.chunks keys)
    (hkeys : ∀ c, c ∈ keys ↔ a.boxes c ≠ none)
    (hlists : ∀ c chunk, a.boxes c = some chunk →
      Represents (nodeLinks a.nodes) chunk.dropList (parts c))
    (hdisjoint : ∀ c d p, c ≠ d → p ∈ parts c → p ∉ parts d) (ran : List (Nat × Nat)) :
    ∃ b, dropChunks keys.length a ran = some (b, ran ++
        keys.flatMap fun c => (parts c).filterMap fun p => (a.nodes p).call) ∧
      ∀ c, b.boxes c = none := by
  induction keys generalizing a ran with
  | nil =>
    refine ⟨a, ?_, fun c => ?_⟩
    · show (if a.chunks.isEmpty then some (a, ran) else none) = _
      rw [if_pos (hchunks.isEmpty_iff.mpr rfl)]
      simp
    · by_contra hc
      exact absurd ((hkeys c).mpr hc) (by simp)
  | cons c keys ih =>
    obtain ⟨links, chunks, hpop, hrep, hframe⟩ := hchunks.popFront
    obtain ⟨hnotMem, -⟩ := List.nodup_cons.mp hchunks.nodup
    obtain ⟨chunk, hc⟩ := Option.ne_none_iff_exists'.mp ((hkeys c).mp (List.mem_cons_self ..))
    have hlist := hlists c chunk hc
    obtain ⟨nodes, hrun, hnodes⟩ := runDestructors_spec hlist ran
    rw [← hlist.len] at hrun
    obtain ⟨a', ha'⟩ : ∃ a' : Arena, { a with
        chunks := chunks
        boxes := Function.update (withChunkLinks a.boxes links) c none
        nodes := nodes } = a' := ⟨_, rfl⟩
    have hgone : a'.boxes c = none := by
      rw [← ha']
      exact Function.update_self ..
    have hother : ∀ d, d ≠ c → a'.boxes d = withChunkLinks a.boxes links d := by
      intro d hd
      rw [← ha']
      exact Function.update_of_ne hd ..
    have hmem : ∀ d ∈ keys, d ≠ c ∧ a.boxes d ≠ none := fun d hd =>
      ⟨fun heq => hnotMem (heq ▸ hd), (hkeys d).mp (List.mem_cons_of_mem c hd)⟩
    have hkeys' : ∀ d, d ∈ keys ↔ a'.boxes d ≠ none := by
      intro d
      by_cases hd : d = c
      · rw [hd, hgone]
        simp [hnotMem]
      · rw [hother d hd, withChunkLinks_ne_none, ← hkeys d]
        simp [hd]
    have hchunks' : Represents (chunkLinks a'.boxes) a'.chunks keys := by
      rw [show a'.chunks = chunks from ha' ▸ rfl]
      refine hrep.congr fun d hd => ?_
      obtain ⟨hdc, hbox⟩ := hmem d hd
      rw [chunkLinks_congr (hother d hdc), chunkLinks_withChunkLinks hbox]
    have hsame : ∀ d, d ≠ c → ∀ p ∈ parts d, a'.nodes p = a.nodes p := by
      intro d hd p hp
      rw [← ha']
      exact hnodes p (hdisjoint d c p hd hp)
    have hlists' : ∀ d chunk', a'.boxes d = some chunk' →
        Represents (nodeLinks a'.nodes) chunk'.dropList (parts d) := by
      intro d chunk' hd
      have hdc : d ≠ c := by
        rintro rfl
        exact Option.some_ne_none _ (hd.symm.trans hgone)
      obtain ⟨chunk'', hbox, rfl⟩ := withChunkLinks_eq_some ((hother d hdc).symm.trans hd)
      refine (hlists d chunk'' hbox).congr fun p hp => ?_
      exact congrArg DropNode.link (hsame d hdc p hp)
    obtain ⟨b, hrun', hempty⟩ := ih hchunks' hkeys' hlists' (ran ++
      (parts c).filterMap fun p => (a.nodes p).call)
    refine ⟨b, ?_, hempty⟩
    have hcalls : (keys.flatMap fun d => (parts d).filterMap fun p => (a'.nodes p).call) =
        keys.flatMap fun d => (parts d).filterMap fun p => (a.nodes p).call := by
      refine List.flatMap_congr fun d hd => List.filterMap_congr fun p hp => ?_
      rw [hsame d (hmem d hd).1 p hp]
    show dropChunks (keys.length + 1) a ran = _
    unfold dropChunks
    simp only [hpop, hc, hrun, ha']
    rw [hrun', hcalls, List.flatMap_cons, List.append_assoc]

end Arena

/-- The objects of a list of chunks, chunk by chunk. -/
theorem flatMap_perm {live : List Object} {keys : List Nat} (hnodup : keys.Nodup)
    (hmem : ∀ o ∈ live, o.chunk ∈ keys) :
    (keys.flatMap fun c => live.filter fun o => decide (o.chunk = c)).Perm live := by
  induction keys generalizing live with
  | nil =>
    rw [List.eq_nil_iff_forall_not_mem.mpr fun o ho => List.not_mem_nil (hmem o ho)]
    exact List.Perm.refl _
  | cons c keys ih =>
    obtain ⟨hc, hnodup⟩ := List.nodup_cons.mp hnodup
    have hrest : ∀ o ∈ live.filter (fun o => !decide (o.chunk = c)), o.chunk ∈ keys := by
      intro o ho
      obtain ⟨ho, hne⟩ := List.mem_filter.mp ho
      rcases List.mem_cons.mp (hmem o ho) with heq | hin
      · simp [heq] at hne
      · exact hin
    have hsame : (keys.flatMap fun d => live.filter fun o => decide (o.chunk = d)) =
        keys.flatMap fun d => (live.filter fun o => !decide (o.chunk = c)).filter
          fun o => decide (o.chunk = d) := by
      refine List.flatMap_congr fun d hd => ?_
      rw [List.filter_filter]
      refine List.filter_congr fun o _ => ?_
      by_cases hod : o.chunk = d
      · have hdc : d ≠ c := fun heq => hc (heq ▸ hd)
        simp [hod, hdc]
      · simp [hod]
    rw [List.flatMap_cons, hsame]
    exact ((ih hnodup hrest).append_left _).trans (List.filter_append_perm _ live)

/-- The drop nodes of a chunk stand for the destructor calls that its objects are due. -/
theorem Holds.calls {node : NodeLayout} {a : Arena} {objects : Nat → Nat} {live : List Object}
    (h : Holds node a objects live) (c : Nat) :
    ((nodesIn node live c).filterMap fun p => (a.nodes p).call) =
      (live.filter fun o => decide (o.chunk = c)).filterMap Object.destructor := by
  unfold nodesIn
  rw [List.filterMap_map, List.filterMap_filter, List.filterMap_filter]
  refine List.filterMap_congr fun o ho => ?_
  unfold Object.destructor
  cases hf : o.dropFn with
  | none => simp
  | some f =>
    obtain ⟨-, -, hnonnull, hdropFn, hdataPtr, -⟩ := (h.placed o ho).headed f hf
    have hcall : (a.nodes (o.start node)).call = some (f, o.ptr) := by
      unfold DropNode.call
      rw [hdropFn, hdataPtr, if_neg hnonnull]
    simp only [Option.isSome_some, Bool.true_and, Function.comp_apply, hcall, Option.map_some]

/-- With the arena every chunk is freed, and the destructors of all objects run. -/
theorem Holds.drop {node : NodeLayout} {a : Arena} {objects : Nat → Nat} {live : List Object}
    (h : Holds node a objects live) :
    ∃ b r, a.drop = some (b, r) ∧ (∀ c, b.boxes c = none) ∧
      r.Perm (live.filterMap Object.destructor) := by
  obtain ⟨keys, hrep, hkeys⟩ := h.owned.listed
  obtain ⟨b, hrun, hempty⟩ := Arena.dropChunks_spec hrep hkeys h.lists
    (fun _ _ _ hcd hp => h.nodesIn_disjoint hcd hp) []
  rw [← hrep.len] at hrun
  refine ⟨b, _, hrun, hempty, ?_⟩
  have hmem : ∀ o ∈ live, o.chunk ∈ keys := by
    intro o ho
    obtain ⟨chunk, hc, -⟩ := (h.placed o ho).within
    rw [hkeys o.chunk, hc]
    exact Option.some_ne_none _
  rw [List.nil_append, show (fun c => (nodesIn node live c).filterMap fun p => (a.nodes p).call) = _
    from funext h.calls, ← List.filterMap_flatMap]
  exact (flatMap_perm hrep.nodup hmem).filterMap _

/-! ## The invariant -/

/-- Before its end an arena holds the objects that have not been dropped, and their
destructors are all that is due; afterwards it holds nothing, and nothing is due. -/
structure Inv (node : NodeLayout) (s : Tenants) : Prop where
  holds : s.ended = false → Holds node s.arena (objectsIn s.live) s.live
  gone : s.ended = true → ∀ c, s.arena.boxes c = none
  due : s.due.Perm (s.ran ++ s.live.filterMap Object.destructor)
  last : s.ended = true → s.live = []

namespace Inv

variable {node : NodeLayout} {s s' : Tenants} {e : ArenaEvent}

theorem new (nodes : Nat → DropNode) : Inv node (Tenants.new nodes) := by
  refine ⟨fun _ => ⟨⟨?_, ?_, ⟨[], Represents.new, ?_⟩, ?_, ?_⟩, ?_, ?_, List.Pairwise.nil, ?_⟩,
    fun h => Bool.noConfusion h, List.Perm.refl _, fun h => Bool.noConfusion h⟩
  · exact fun c chunk hc => absurd hc.symm (Option.some_ne_none _)
  · exact fun c _ chunk _ _ hc => absurd hc.symm (Option.some_ne_none _)
  · exact fun c => ⟨fun hc => absurd hc List.not_mem_nil, fun hc => absurd rfl hc⟩
  · exact fun c chunk hc => absurd hc.symm (Option.some_ne_none _)
  · exact fun c => ⟨fun hc => absurd rfl hc, fun hc => absurd hc (Nat.lt_irrefl 0)⟩
  · exact fun _ => Nat.le_refl 0
  · exact fun o ho => absurd ho List.not_mem_nil
  · exact fun c chunk hc => absurd hc.symm (Option.some_ne_none _)

/-- A refused allocation changes nothing. -/
theorem refused {a b : Arena} {layout : Layout} {dropFn : Option Nat} {ptr c : Nat}
    (h : a.alloc node layout dropFn ptr c = some (b, none)) : b = a := by
  unfold Arena.alloc at h
  split at h
  · split at h
    · cases h
      rfl
    · obtain ⟨r, -, h⟩ := Option.bind_eq_some_iff.mp h
      obtain ⟨_, -, h⟩ := Option.map_eq_some_iff.mp h
      exact absurd (Prod.mk.inj h).2 (Option.some_ne_none _)
  · obtain ⟨_, -, h⟩ := Option.map_eq_some_iff.mp h
    exact absurd (Prod.mk.inj h).2 (Option.some_ne_none _)

theorem alloc (h : Inv node s) {layout : Layout} {dropFn : Option Nat} {ptr c p chunk : Nat}
    {a : Arena} (hopen : s.ended = false) (hprovided : Provided node s (.alloc layout dropFn ptr c))
    (halloc : s.arena.alloc node layout dropFn ptr c = some (a, some (p, chunk))) :
    Holds node a (objectsIn (⟨p, layout, dropFn, chunk⟩ :: s.live))
      (⟨p, layout, dropFn, chunk⟩ :: s.live) := by
  obtain ⟨hnonnull, hnew, hfresh⟩ := hprovided
  have hholds := h.holds hopen
  unfold Arena.alloc at halloc
  split at halloc
  · rename_i f
    have hf : f ≠ 0 := fun heq => hnonnull (congrArg some heq)
    split at halloc
    · exact absurd (Prod.mk.inj (Option.some.inj halloc)).2.symm (Option.some_ne_none _)
    · rename_i total offset hextend
      obtain ⟨⟨b, q, d⟩, hraw, halloc⟩ := Option.bind_eq_some_iff.mp halloc
      obtain ⟨b', hpush, halloc⟩ := Option.map_eq_some_iff.mp halloc
      cases halloc
      have htotal : node.total layout (some f) = some total := by
        unfold NodeLayout.total
        rw [hextend]
        rfl
      have hgranted := Arena.allocRaw_spec hholds.owned hnew (hfresh total htotal) hraw
      obtain ⟨hb, hapart⟩ := hholds.granted (o := ⟨q + offset, layout, some f, d⟩) hgranted
      obtain ⟨chunk, hc, hbegin, hend⟩ := hgranted.within
      obtain ⟨b'', hpush', hdone⟩ := hb.pushNode (o := ⟨q + offset, layout, some f, d⟩) rfl hf
        hextend rfl hc hgranted.aligned hbegin hend (fun _ => Nat.le_refl _) hapart
      obtain rfl := Option.some.inj (hpush.symm.trans hpush')
      exact hdone
  · obtain ⟨⟨b, q, d⟩, hraw, halloc⟩ := Option.map_eq_some_iff.mp halloc
    cases halloc
    have hgranted := Arena.allocRaw_spec hholds.owned hnew (hfresh layout rfl) hraw
    obtain ⟨hb, hapart⟩ := hholds.granted (o := ⟨p, layout, none, chunk⟩) hgranted
    obtain ⟨piece, hc, hbegin, hend⟩ := hgranted.within
    exact hb.cons rfl hgranted.aligned hc hbegin hend (fun _ => Nat.le_refl _) hapart

theorem write (h : Inv node s) {o : Object} {p : Nat} {value : DropNode} (hopen : s.ended = false)
    (ho : o ∈ s.live) (hp : p < o.ptr + o.layout.size) (hp' : o.ptr < p + node.size) :
    Holds node { s.arena with nodes := Function.update s.arena.nodes p value } (objectsIn s.live)
      s.live := by
  have hholds := h.holds hopen
  refine hholds.rewrite _ fun o' ho' hf' => ?_
  have hnode := Holds.node_le (hholds.placed o' ho') hf'
  have hne : o'.start node ≠ p := by
    by_cases hoo : o' = o
    · subst hoo
      omega
    · have hapart : o'.Apart node o := hholds.apart.forall ho' ho hoo
      have hle := o.start_le node
      unfold Object.Apart Object.stop at hapart
      omega
  exact Function.update_of_ne hne ..

theorem step (h : Inv node s) (hprovided : Provided node s e) (hstep : ArenaStep node s e s') :
    Inv node s' := by
  have hended : s.ended = false → s.ended = true → False := fun hopen hend =>
    Bool.noConfusion (hopen.symm.trans hend)
  cases hstep with
  | refused hopen halloc =>
    obtain rfl := refused halloc
    exact h
  | alloc hopen halloc =>
    rename_i layout dropFn ptr c p chunk a
    refine ⟨fun _ => h.alloc hopen hprovided halloc, fun hend => (hended hopen hend).elim, ?_,
      fun hend => (hended hopen hend).elim⟩
    cases dropFn with
    | none => exact h.due
    | some f => exact (h.due.cons (f, p)).trans List.perm_middle.symm
  | dropObject hopen hlive hf hdrop =>
    rename_i before after o a r
    obtain ⟨f, hf⟩ := Option.ne_none_iff_exists'.mp hf
    have hholds := h.holds hopen
    rw [hlive] at hholds
    obtain ⟨b, hdrop', hb⟩ := hholds.dropObject hf
    obtain ⟨rfl, rfl⟩ := Prod.mk.inj (Option.some.inj (hdrop'.symm.trans hdrop))
    refine ⟨fun _ => hb, fun hend => (hended hopen hend).elim, ?_,
      fun hend => (hended hopen hend).elim⟩
    have hcall : o.destructor = some (f, o.ptr) := by
      unfold Object.destructor
      rw [hf]
      rfl
    have hdue := h.due
    rw [hlive, List.filterMap_append, List.filterMap_cons_some hcall, ← List.append_assoc] at hdue
    show s.due.Perm ((f, o.ptr) :: s.ran ++ (before ++ after).filterMap Object.destructor)
    rw [List.filterMap_append, List.cons_append, ← List.append_assoc]
    exact hdue.trans List.perm_middle
  | write hopen ho hp hp' =>
    exact ⟨fun _ => h.write hopen ho hp hp', fun hend => (hended hopen hend).elim, h.due,
      fun hend => (hended hopen hend).elim⟩
  | drop hopen hdrop =>
    rename_i a r
    obtain ⟨b, r', hdrop', hempty, hperm⟩ := (h.holds hopen).drop
    obtain ⟨rfl, rfl⟩ := Prod.mk.inj (Option.some.inj (hdrop'.symm.trans hdrop))
    refine ⟨fun hopen' => Bool.noConfusion hopen', fun _ => hempty, ?_, fun _ => rfl⟩
    show s.due.Perm (r' ++ s.ran ++ [])
    rw [List.append_nil]
    exact h.due.trans (List.perm_append_comm.trans (hperm.symm.append_right _))

end Inv

/-! ## Soundness -/

/-- What an arena promises until it is dropped. -/
structure Sound (node : NodeLayout) (s : Tenants) : Prop where
  /-- Objects lie apart from each other and from the drop nodes. -/
  disjoint : s.live.Pairwise (Object.Apart node)
  /-- Objects are aligned, and lie in chunks that have not been freed. -/
  placed : ∀ o ∈ s.live, 0 < o.ptr ∧ o.layout.align ∣ o.ptr ∧
    ∃ chunk, s.arena.boxes o.chunk = some chunk ∧ chunk.ptr ≤ o.start node ∧
      o.start node ≤ o.ptr ∧ o.stop ≤ chunk.ptr + chunk.size
  nonnull : ∀ layout ptr c a p d, s.arena.boxes c = none →
    Fresh s.arena ptr (Arena.chunkSize layout) →
    s.arena.allocSlow layout ptr c = some (a, p, d) → p ≠ 0
  count : ∀ c chunk, s.arena.boxes c = some chunk →
    chunk.activeCount = Arena.references s.arena.activeChunk (objectsIn s.live) c
  freed : ∀ c, s.arena.boxes c = none ↔
    Arena.references s.arena.activeChunk (objectsIn s.live) c = 0
  dropObject : ∀ o f, o ∈ s.live → o.dropFn = some f →
    ∃ a, s.arena.dropObject node o.ptr o.layout = some (a, some (f, o.ptr))
  drop : ∃ a r, s.arena.drop = some (a, r)
  destructors : s.due.Perm (s.ran ++ s.live.filterMap Object.destructor)

/-- In every run of calls and of writes to the objects the arena is sound until it is
dropped; then every chunk has been freed, and every destructor has run once. -/
theorem arena_sound {node : NodeLayout} {nodes : Nat → DropNode} {s : Tenants}
    (hrun : Run (ArenaStep node) (Provided node) (fun s => s = Tenants.new nodes) s) :
    (s.ended = false → Sound node s) ∧
      (s.ended = true → (∀ c, s.arena.boxes c = none) ∧ s.due.Perm s.ran) := by
  have h : Inv node s := by
    refine hrun.invariant ?_ fun _ _ _ h hprovided hstep => h.step hprovided hstep
    rintro _ rfl
    exact Inv.new nodes
  refine ⟨fun hopen => ?_, fun hend => ⟨h.gone hend, ?_⟩⟩
  · have hholds := h.holds hopen
    refine ⟨hholds.apart, fun o ho => ?_, fun layout ptr c a p d hnew hfresh halloc => ?_,
      hholds.owned.count, fun c => ?_, fun o f ho hf => ?_, ?_, h.due⟩
    · obtain ⟨haligned, ⟨chunk, hc, hbegin, hend⟩, -⟩ := hholds.placed o ho
      have hwf := hholds.owned.wf _ chunk hc
      have hpos := hwf.pos
      have hused := hwf.used
      have hle := o.start_le node
      exact ⟨by omega, haligned, chunk, hc, hbegin, hle, by omega⟩
    · exact Nat.ne_of_gt (Arena.allocSlow_spec hholds.owned hnew hfresh halloc).pos
    · have hheld := hholds.owned.held c
      rw [← Nat.pos_iff_ne_zero.not_left, ← hheld, not_not]
    · obtain ⟨before, after, hlive⟩ := List.append_of_mem ho
      rw [hlive] at hholds
      obtain ⟨a, hdrop, -⟩ := hholds.dropObject hf
      exact ⟨a, hdrop⟩
    · obtain ⟨a, r, hdrop, -⟩ := hholds.drop
      exact ⟨a, r, hdrop⟩
  · have hdue := h.due
    rw [h.last hend, List.filterMap_nil, List.append_nil] at hdue
    exact hdue

/-- A run in which one object is allocated and the arena is dropped over it. -/
theorem arena_sound_one_object : ∃ (node : NodeLayout) (s s' : Tenants),
    s.live.map Object.ptr = [4096 + 56] ∧ Sound node s ∧ s'.due = [(7, 4096 + 56)] ∧
      (∀ c, s'.arena.boxes c = none) ∧ s'.due.Perm s'.ran := by
  let node : NodeLayout := ⟨⟨56, 8, ⟨3, by decide, rfl⟩, by decide⟩, by decide⟩
  let layout : Layout := ⟨24, 8, ⟨3, by decide, rfl⟩, by decide⟩
  let start := Tenants.new fun _ => DropNode.garbage
  have hstart : Run (ArenaStep node) (Provided node) (fun s => s = start) start := Run.start rfl
  have hsize : (node.toLayout.extend layout).map (fun r => Arena.chunkSize r.1) = some 8192 := by
    decide +kernel
  have hprovided : Provided node start (.alloc layout (some 7) 4096 1) := by
    refine ⟨by decide, rfl, fun total htotal => ?_⟩
    obtain ⟨⟨total', offset⟩, hfound, htotal⟩ := Option.map_eq_some_iff.mp htotal
    obtain rfl : total' = total := htotal
    rw [hfound] at hsize
    have hchunk : Arena.chunkSize total' = 8192 := Option.some.inj hsize
    rw [hchunk]
    exact ⟨by decide, by decide, by decide, fun c chunk hc => absurd hc.symm (Option.some_ne_none _)⟩
  have hresult : (start.arena.alloc node layout (some 7) 4096 1).map Prod.snd =
      some (some (4096 + 56, 1)) := by
    decide +kernel
  obtain ⟨⟨a, r⟩, halloc, hr⟩ := Option.map_eq_some_iff.mp hresult
  obtain rfl : r = some (4096 + 56, 1) := hr
  have hone := hstart.next _ hprovided (.alloc rfl halloc)
  have hsound := (arena_sound hone).1 rfl
  obtain ⟨b, ran, hdrop⟩ := hsound.drop
  have hdropped := hone.next ArenaEvent.drop trivial (.drop rfl hdrop)
  exact ⟨node, _, _, rfl, hsound, rfl, (arena_sound hdropped).2 rfl⟩

end Veloq.Runtime
