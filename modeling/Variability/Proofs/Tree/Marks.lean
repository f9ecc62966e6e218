import Variability.Proofs.Tree.Nodes
import Variability.Proofs.Tree.Walk
import Variability.Transform

/-!
What stays when unedited subtrees are cut. A walk down lists every node behind its parent, so one
pass over the walk backwards marks everything above the marked nodes; with a node its parents stay
on both sides. Nothing is marked but what an edit leads up to, and the ends of marked branches.
-/

namespace Variability.Tree

/-- Links go both ways between nodes of their side, and parents stand before their children. -/
structure Linked (t : Tree) : Prop where
  ordered : t.ParentsFirst
  mem_children : ∀ {s p c}, c ∈ t.children s p ↔ t.parent s c = some p
  owner : ∀ {s c p}, t.parent s c = some p → (t.node p).existsOn s
  child : ∀ {s c p}, t.parent s c = some p → (t.node c).existsOn s

/-- Links go both ways between nodes of their side, and the walk up ends from every node. -/
structure Grounded (t : Tree) : Prop where
  mem_children : ∀ {s p c}, c ∈ t.children s p ↔ t.parent s c = some p
  owner : ∀ {s c p}, t.parent s c = some p → (t.node p).existsOn s
  child : ∀ {s c p}, t.parent s c = some p → (t.node c).existsOn s
  ends : ∀ {s i}, i < t.size → ∃ chain, t.lineage? s i = some chain

theorem Linked.grounded {t : Tree} (linked : t.Linked) : t.Grounded where
  mem_children := linked.mem_children
  owner := linked.owner
  child := linked.child
  ends := fun {s i} _ => linked.ordered.exists_lineage s i

/-- Every node of a list stands behind its parent, or its parent was seen before. -/
def Preceded (t : Tree) (s : Side) (seen : List Nat) : List Nat → Prop
  | [] => True
  | c :: nodes => (∀ p, t.parent s c = some p → p ∈ seen) ∧ t.Preceded s (c :: seen) nodes

variable {t : Tree} {s : Side}

/-- A walk down lists every node behind its parent, when the parents of what is on the stack were
listed. -/
theorem Grounded.preceded_walkDown (grounded : t.Grounded) {steps : Nat} {met : Marks}
    {stack seen : List Nat} (above : ∀ i ∈ stack, ∀ p, t.parent s i = some p → p ∈ seen) :
    t.Preceded s seen (t.walkDown s steps met stack) := by
  induction steps generalizing met stack seen with
  | zero => trivial
  | succ steps ih =>
      cases stack with
      | nil => trivial
      | cons i stack =>
          obtain ⟨here, rest⟩ := List.forall_mem_cons.mp above
          rw [walkDown]
          split
          · exact ih rest
          · refine ⟨here, ih fun j member p parent => ?_⟩
            rcases List.mem_append.mp member with child | waiting
            · rw [grounded.mem_children.mp child] at parent
              obtain rfl := Option.some.inj parent
              exact List.mem_cons_self
            · exact List.mem_cons_of_mem i (rest j waiting p parent)

theorem Grounded.preceded_preorder (grounded : t.Grounded) (s : Side) :
    t.Preceded s [] (t.preorder s) := by
  refine grounded.preceded_walkDown fun r root p parent => ?_
  rw [(mem_roots.mp root).2.2] at parent
  cases parent

theorem Grounded.mem_preorder (grounded : t.Grounded) {i : Nat} (inside : i < t.size)
    (present : (t.node i).existsOn s) : i ∈ t.preorder s := by
  obtain ⟨chain, lineage⟩ := grounded.ends (s := s) inside
  exact mem_preorder_of_lineage grounded.mem_children.mpr grounded.owner inside present lineage

@[simp] theorem size_markParent (t : Tree) (s : Side) (marks : Marks) (i : Nat) :
    (t.markParent s marks i).size = marks.size := by
  unfold markParent
  split
  · cases t.parent s i <;> simp
  · rfl

theorem has_markParent {marks : Marks} {i j : Nat} :
    (t.markParent s marks i).has j ↔
      (marks.has i ∧ t.parent s i = some j ∧ j < marks.size) ∨ marks.has j := by
  unfold markParent
  split
  · next marked =>
      cases linked : t.parent s i with
      | none => simp
      | some p =>
          simp only [Option.elim_some, Marks.has_add, marked, true_and, Option.some.injEq]
          constructor
          · rintro (⟨rfl, inside⟩ | old)
            · exact .inl ⟨rfl, inside⟩
            · exact .inr old
          · rintro (⟨rfl, inside⟩ | old)
            · exact .inl ⟨rfl, inside⟩
            · exact .inr old
  · next unmarked => simp [unmarked]

@[simp] theorem size_foldr_markParent (marks : Marks) (nodes : List Nat) :
    (nodes.foldr (fun i marks => t.markParent s marks i) marks).size = marks.size := by
  induction nodes with
  | nil => rfl
  | cons i nodes ih => rw [List.foldr_cons, size_markParent, ih]

theorem has_foldr_markParent {marks : Marks} {i : Nat} (marked : marks.has i) (nodes : List Nat) :
    (nodes.foldr (fun i marks => t.markParent s marks i) marks).has i := by
  induction nodes with
  | nil => exact marked
  | cons j nodes ih => exact has_markParent.mpr (.inr ih)

/-- When every node of a list stands behind its parent, marking parents from the end of the list to
its start leaves no parent of a marked node unmarked. -/
theorem Preceded.closed {seen nodes : List Nat} (preceded : t.Preceded s seen nodes)
    {marks : Marks} {i p : Nat} (member : i ∈ nodes) (unseen : i ∉ seen)
    (marked : (nodes.foldr (fun i marks => t.markParent s marks i) marks).has i)
    (linked : t.parent s i = some p) (inside : p < marks.size) :
    (nodes.foldr (fun i marks => t.markParent s marks i) marks).has p := by
  induction nodes generalizing seen with
  | nil => cases member
  | cons c nodes ih =>
      rw [List.foldr_cons, has_markParent] at marked ⊢
      have here : (nodes.foldr (fun i marks => t.markParent s marks i) marks).has i := by
        rcases marked with ⟨-, parent, -⟩ | old
        · exact absurd (preceded.1 i parent) unseen
        · exact old
      by_cases head : i = c
      · subst head
        exact .inl ⟨here, linked, by rwa [size_foldr_markParent]⟩
      · have later : i ∈ nodes := (List.mem_cons.mp member).resolve_left head
        have unseenToo : i ∉ c :: seen := by
          rw [List.mem_cons, not_or]
          exact ⟨head, unseen⟩
        exact .inr (ih preceded.2 later unseenToo here)

theorem markAbove_eq (marks : Marks) :
    t.markAbove marks s = (t.preorder s).foldr (fun i marks => t.markParent s marks i) marks := by
  rw [markAbove, List.foldl_reverse]

@[simp] theorem size_markAbove (marks : Marks) : (t.markAbove marks s).size = marks.size := by
  rw [markAbove_eq, size_foldr_markParent]

theorem has_markAbove {marks : Marks} {i : Nat} (marked : marks.has i) :
    (t.markAbove marks s).has i := by
  rw [markAbove_eq]
  exact has_foldr_markParent marked _

/-- What passes from a node to its parent holds of everything that marking parents reaches. -/
theorem forall_markAbove {motive : Nat → Prop}
    (up : ∀ i p, t.parent s i = some p → motive i → motive p) {marks : Marks}
    (all : ∀ i, marks.has i → motive i) : ∀ i, (t.markAbove marks s).has i → motive i := by
  rw [markAbove_eq]
  induction t.preorder s with
  | nil => exact all
  | cons c nodes ih =>
      intro i marked
      rw [List.foldr_cons, has_markParent] at marked
      rcases marked with ⟨below, parent, -⟩ | old
      · exact up c i parent (ih c below)
      · exact ih i old

theorem Grounded.markAbove_closed (grounded : t.Grounded) {marks : Marks} {i p : Nat}
    (size : marks.size = t.size) (marked : (t.markAbove marks s).has i)
    (parent : t.parent s i = some p) : (t.markAbove marks s).has p := by
  have inside : i < t.size := lt_size_of_parent parent
  have insideAbove := lt_size_of_mem_children (grounded.mem_children.mpr parent)
  rw [markAbove_eq] at marked ⊢
  exact (grounded.preceded_preorder s).closed
    (grounded.mem_preorder inside (grounded.child parent)) List.not_mem_nil marked parent
    (size ▸ insideAbove)

/-- Marks that hold all edited nodes, and with a node its parents. -/
structure Marks.Upward (marks : Marks) (t : Tree) : Prop where
  size : marks.size = t.size
  edited : ∀ {i}, i < t.size → isEdited (t.node i) → marks.has i
  parents : ∀ {s i p}, marks.has i → t.parent s i = some p → marks.has p

theorem parent_eq_of_not_edited {i : Nat} (unedited : ¬ isEdited (t.node i)) (s s' : Side) :
    t.parent s i = t.parent s' i := by
  have same : t.parent .before i = t.parent .after i := by
    simp only [isEdited, Bool.or_eq_true, decide_eq_true_eq, not_or, ne_eq,
      Decidable.not_not] at unedited
    exact unedited.2
  cases s <;> cases s' <;> simp [same]

theorem has_map_isEdited {i : Nat} (inside : i < t.size) (edited : isEdited (t.node i)) :
    Marks.has (t.nodes.map isEdited) i := by
  obtain ⟨n, lookup⟩ : ∃ n, t.nodes[i]? = some n := ⟨_, Array.getElem?_eq_getElem inside⟩
  have found : t.node i = n := by rw [node, lookup, Option.getD_some]
  rw [found] at edited
  rw [Marks.has, Array.getElem?_map, lookup]
  exact edited

theorem Grounded.upward_markAbove (grounded : t.Grounded) :
    (Side.all.foldl t.markAbove (t.nodes.map isEdited)).Upward t := by
  change (t.markAbove (t.markAbove (t.nodes.map isEdited) .before) .after).Upward t
  have size : Array.size (t.nodes.map isEdited) = t.size := Array.size_map
  have first {i : Nat} (inside : i < t.size) (edited : isEdited (t.node i)) :
      (t.markAbove (t.nodes.map isEdited) .before).has i :=
    has_markAbove (has_map_isEdited inside edited)
  have second {i p : Nat} (marked : (t.markAbove (t.markAbove (t.nodes.map isEdited) .before)
      .after).has i) (parent : t.parent .after i = some p) :
      (t.markAbove (t.markAbove (t.nodes.map isEdited) .before) .after).has p :=
    grounded.markAbove_closed (by rw [size_markAbove, size]) marked parent
  refine ⟨by rw [size_markAbove, size_markAbove, size], ?_, ?_⟩
  · intro i inside edited
    exact has_markAbove (first inside edited)
  · intro s i p marked parent
    -- an edited node was marked before both passes; any other has one parent on both sides, and
    -- the second pass comes to it
    by_cases edited : isEdited (t.node i)
    · cases s with
      | before =>
          have inside : i < t.size := lt_size_of_parent parent
          exact has_markAbove (grounded.markAbove_closed size (first inside edited) parent)
      | after => exact second marked parent
    · rw [parent_eq_of_not_edited edited s .after] at parent
      exact second marked parent

theorem has_markEndif {marks : Marks} {i j : Nat} :
    (t.markEndif marks i).has j ↔
      marks.has j ∨ (i = j ∧ j < marks.size ∧ (t.node j).kind = .endif ∧
        ∃ s p, t.parent s j = some p ∧ marks.has p) := by
  have closes : (Side.all.any fun s => (t.parent s i).any marks.has) ↔
      ∃ s p, t.parent s i = some p ∧ marks.has p := by
    simp only [List.any_eq_true, Option.any_eq_true]
    exact ⟨fun ⟨s, _, p, parent, marked⟩ => ⟨s, p, parent, marked⟩,
      fun ⟨s, p, parent, marked⟩ => ⟨s, by cases s <;> decide, p, parent, marked⟩⟩
  unfold markEndif
  simp only
  split
  · next holds =>
      rw [Bool.and_eq_true, decide_eq_true_eq, closes] at holds
      rw [Marks.has_add, or_comm]
      refine or_congr_right ⟨?_, ?_⟩
      · rintro ⟨rfl, inside⟩
        exact ⟨rfl, inside, holds⟩
      · rintro ⟨rfl, inside, -⟩
        exact ⟨rfl, inside⟩
  · next fails =>
      rw [Bool.and_eq_true, decide_eq_true_eq, closes] at fails
      refine (or_iff_left ?_).symm
      rintro ⟨rfl, -, holds⟩
      exact fails holds

/-- Where no node is below an `endif`, marking one after the other marks those whose parents are
marked at the start. -/
theorem has_foldl_markEndif
    (childless : ∀ {s c p}, t.parent s c = some p → (t.node p).kind ≠ .endif) {marks : Marks}
    {nodes : List Nat} {j : Nat} :
    (nodes.foldl t.markEndif marks).has j ↔
      marks.has j ∨ (j ∈ nodes ∧ j < marks.size ∧ (t.node j).kind = .endif ∧
        ∃ s p, t.parent s j = some p ∧ marks.has p) := by
  induction nodes generalizing marks with
  | nil => simp
  | cons i nodes ih =>
      have size : (t.markEndif marks i).size = marks.size := by
        unfold markEndif
        simp only
        split
        · exact Marks.size_add marks i
        · rfl
      have same {s : Side} {p : Nat} (parent : t.parent s j = some p) :
          (t.markEndif marks i).has p ↔ marks.has p := by
        rw [has_markEndif, or_iff_left]
        rintro ⟨-, -, endif, -⟩
        exact childless parent endif
      have above : (∃ s p, t.parent s j = some p ∧ (t.markEndif marks i).has p) ↔
          ∃ s p, t.parent s j = some p ∧ marks.has p :=
        exists₂_congr fun s p => and_congr_right same
      rw [List.foldl_cons, ih, above, has_markEndif, size, List.mem_cons, or_assoc]
      refine or_congr_right ⟨?_, ?_⟩
      · rintro (⟨rfl, holds⟩ | ⟨later, holds⟩)
        · exact ⟨.inl rfl, holds⟩
        · exact ⟨.inr later, holds⟩
      · rintro ⟨rfl | later, holds⟩
        · exact .inl ⟨rfl, holds⟩
        · exact .inr ⟨later, holds⟩

theorem Marks.Upward.markEndif {marks : Marks} (upward : marks.Upward t) (i : Nat) :
    (t.markEndif marks i).Upward t := by
  unfold Tree.markEndif
  simp only
  split
  · next closes =>
      refine ⟨by rw [size_add, upward.size], ?_, ?_⟩
      · intro j inside edited
        exact has_add.mpr (.inr (upward.edited inside edited))
      · intro s j p marked parent
        refine has_add.mpr (.inr ?_)
        rcases has_add.mp marked with ⟨rfl, inside⟩ | old
        · by_cases edited : isEdited (t.node i)
          · exact upward.parents (upward.edited (upward.size ▸ inside) edited) parent
          · rw [Bool.and_eq_true, List.any_eq_true] at closes
            obtain ⟨-, s', -, marked⟩ := closes
            rw [← parent_eq_of_not_edited edited s s', parent] at marked
            exact marked
        · exact upward.parents old parent
  · exact upward

theorem Grounded.upward_editedMarks (grounded : t.Grounded) : t.editedMarks.Upward t := by
  have passes (nodes : List Nat) {marks : Marks} (upward : marks.Upward t) :
      (nodes.foldl t.markEndif marks).Upward t := by
    induction nodes generalizing marks with
    | nil => exact upward
    | cons i nodes ih => exact ih (upward.markEndif i)
  exact passes (List.range t.size) grounded.upward_markAbove

end Variability.Tree
