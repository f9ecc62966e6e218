import Mathlib.Data.List.Sort
import Variability.Proofs.Tree.Walk

/-!
What the absence of flaws means. The ids of a flawless tree tell its nodes apart, a parent and its
child exist on the side on which they are linked, and parents and lists of children say the same.
Labels, guards and lines have no part in it.
-/

namespace Variability

/-- A node without its text: what a flaw can be about. -/
def Node.frame (n : Node) : Node :=
  { n with
    label := ""
    guard := none
    lines := ⟨0, 0⟩ }

namespace Tree

theorem firstFlaw?_eq_none_iff {t : Tree} :
    t.firstFlaw? = none ↔
      t.rootFlaw? = none ∧ t.idFlaw? = none ∧ t.linkFlaw? = none ∧ t.cycleFlaw? = none := by
  simp [firstFlaw?]

theorem firstRepeated?_eq_none_iff {seen xs : List Nat} :
    firstRepeated? seen xs = none ↔ xs.Nodup ∧ ∀ x ∈ xs, x ∉ seen := by
  induction xs generalizing seen with
  | nil => simp [firstRepeated?]
  | cons x xs ih =>
      rw [firstRepeated?]
      by_cases old : x ∈ seen
      · simp [old]
      · rw [if_neg old, ih, List.nodup_cons, List.forall_mem_cons]
        constructor
        · rintro ⟨distinct, unseen⟩
          exact ⟨⟨fun member => unseen x member List.mem_cons_self, distinct⟩, old,
            fun y member seen => unseen y member (List.mem_cons_of_mem x seen)⟩
        · rintro ⟨⟨alone, distinct⟩, -, unseen⟩
          refine ⟨distinct, fun y member => ?_⟩
          rw [List.mem_cons, not_or]
          exact ⟨fun same => alone (same ▸ member), unseen y member⟩

theorem idFlaw?_eq_none_iff {t : Tree} :
    t.idFlaw? = none ↔ (t.nodes.toList.map (·.id)).Nodup := by
  simp [idFlaw?, firstRepeated?_eq_none_iff]

theorem rootFlaw?_eq_none_iff {t : Tree} :
    t.rootFlaw? = none ↔
      (t.shape = .tree → (t.positions (·.kind = .root)).length = 1) ∧
        (t.shape = .graph → t.positions (·.kind = .root) = []) := by
  cases shape : t.shape <;> simp [rootFlaw?, shape]

/-- A parent is as it should be when nothing is wrong with the two ends of the link, and the parent
lists the node once; a node without one is not left over. -/
theorem parentFlaw?_eq_none_iff {t : Tree} {s : Side} {i : Nat} :
    t.parentFlaw? s i = none ↔
      (∀ p, t.parent s i = some p →
        ((t.node i).existsOn s ∧ (t.node i).kind ≠ .root ∧
          (t.node p).existsOn s ∧ (t.node p).kind.isScope) ∧ (t.children s p).count i = 1) ∧
      (t.parent s i = none → (t.node i).existsOn s → (t.node i).kind ≠ .root →
        t.shape ≠ .tree) := by
  rw [parentFlaw?]
  cases linked : t.parent s i with
  | none =>
      rw [show (t.node i).parent s = none from linked]
      simp
  | some p =>
      rw [show (t.node i).parent s = some p from linked]
      simp only [Option.some.injEq, forall_eq', reduceCtorEq, false_implies, and_true]
      split_ifs with root absent ownerAbsent noScope listed
      all_goals simp_all [children]

theorem childFlaw?_eq_none_iff {t : Tree} {s : Side} {i : Nat} :
    t.childFlaw? s i = none ↔
      (¬ (t.node i).existsOn s → t.children s i = []) ∧
        ∀ c ∈ t.children s i, t.parent s c = some i := by
  rw [childFlaw?]
  by_cases present : (t.node i).existsOn s
  · simp [present, children]
  · cases listed : t.children s i <;>
      simp [present, show (t.node i).children s = _ from listed]

theorem linkFlaw?_eq_none_iff {t : Tree} :
    t.linkFlaw? = none ↔
      ∀ s, ∀ i < t.size, t.parentFlaw? s i = none ∧ t.childFlaw? s i = none := by
  simp only [linkFlaw?, List.findSome?_eq_none_iff, List.mem_range, Option.orElse_eq_none]
  exact ⟨fun all s i inside => all i inside s (by simp), fun all i inside s _ => all s i inside⟩

theorem eq_of_id_eq {t : Tree} (distinct : (t.nodes.toList.map (·.id)).Nodup) {i j : Nat}
    (inside : i < t.size) (insideToo : j < t.size) (same : (t.node i).id = (t.node j).id) :
    i = j := by
  rw [nodes_toList, List.map_map, List.nodup_map_iff_inj_on List.nodup_range] at distinct
  exact distinct i (List.mem_range.mpr inside) j (List.mem_range.mpr insideToo) same

theorem findId?_id {t : Tree} (distinct : (t.nodes.toList.map (·.id)).Nodup) {i : Nat}
    (inside : i < t.size) : t.findId? (t.node i).id = some i := by
  have alone : t.positions (·.id = (t.node i).id) = [i] := by
    rw [positions_eq]
    apply List.Pairwise.eq_of_mem_iff (List.pairwise_lt_range.filter _)
      (List.pairwise_singleton _ i)
    intro j
    rw [List.mem_filter, List.mem_range, decide_eq_true_eq, List.mem_singleton]
    constructor
    · rintro ⟨insideToo, same⟩
      exact eq_of_id_eq distinct insideToo inside same
    · rintro rfl
      exact ⟨inside, rfl⟩
  rw [findId?, alone]
  rfl

theorem id_mem_ids {t : Tree} {i : Nat} (inside : i < t.size) :
    (t.node i).id ∈ t.nodes.toList.map (·.id) :=
  have listed : t.node i ∈ t.nodes.toList := by
    rw [Array.mem_toList_iff]
    exact mem_nodes.mpr ⟨i, inside, rfl⟩
  List.mem_map.mpr ⟨t.node i, listed, rfl⟩

theorem findId?_eq_some {t : Tree} {id i : Nat} (found : t.findId? id = some i) :
    i < t.size ∧ (t.node i).id = id := by
  obtain ⟨inside, same⟩ := mem_positions.mp (List.mem_of_head? found)
  exact ⟨inside, of_decide_eq_true same⟩

theorem findId?_eq_none_iff {t : Tree} {id : Nat} :
    t.findId? id = none ↔ id ∉ t.nodes.toList.map (·.id) := by
  rw [findId?, List.head?_eq_none_iff, positions_eq, List.filter_eq_nil_iff, nodes_toList,
    List.map_map, List.mem_map]
  simp

/-- The links of one side: parents and lists of children are inverse to each other, and a link
joins two nodes of the side of which the upper one can own nodes. -/
structure Interlinked (t : Tree) (s : Side) : Prop where
  inverse : ∀ {p c}, c ∈ t.children s p ↔ t.parent s c = some p
  once : ∀ p, (t.children s p).Nodup
  top : ∀ {i}, (t.node i).kind = .root → t.parent s i = none
  present : ∀ {c p}, t.parent s c = some p → (t.node c).existsOn s
  owner : ∀ {c p}, t.parent s c = some p → (t.node p).existsOn s
  scope : ∀ {c p}, t.parent s c = some p → (t.node p).kind.isScope

namespace Interlinked

variable {t : Tree} {s : Side} (links : t.Interlinked s)
include links

theorem parent_lt {c p : Nat} (linked : t.parent s c = some p) : p < t.size :=
  lt_size_of_mem_children (links.inverse.mpr linked)

theorem child_lt {c p : Nat} (child : c ∈ t.children s p) : c < t.size :=
  lt_size_of_parent (links.inverse.mp child)

theorem childless {i : Nat} (absent : ¬ (t.node i).existsOn s) : t.children s i = [] :=
  List.eq_nil_iff_forall_not_mem.mpr fun _ child => absent (links.owner (links.inverse.mp child))

theorem count_eq_one {c p : Nat} (linked : t.parent s c = some p) :
    (t.children s p).count c = 1 :=
  List.count_eq_one_of_mem (links.once p) (links.inverse.mpr linked)

theorem kind_ne_root {c p : Nat} (linked : t.parent s c = some p) : (t.node c).kind ≠ .root := by
  intro root
  rw [links.top root] at linked
  cases linked

/-- Between interlinked nodes the only thing that can be wrong with a parent is that there is
none. -/
theorem parentFlaw?_eq {i : Nat} :
    t.parentFlaw? s i =
      if t.parent s i = none ∧ (t.node i).existsOn s ∧ (t.node i).kind ≠ .root ∧ t.shape = .tree
      then some (.missingParent (t.node i).id s) else none := by
  cases linked : t.parent s i with
  | none =>
      rw [parentFlaw?, show (t.node i).parent s = none from linked]
      simp [and_assoc]
  | some p =>
      rw [if_neg (by simp)]
      refine parentFlaw?_eq_none_iff.mpr ⟨fun q linked' => ?_, fun unlinked => ?_⟩
      · exact ⟨⟨links.present linked', links.kind_ne_root linked', links.owner linked',
          links.scope linked'⟩, links.count_eq_one linked'⟩
      · rw [linked] at unlinked
        cases unlinked

theorem childFlaw?_eq_none (i : Nat) : t.childFlaw? s i = none :=
  childFlaw?_eq_none_iff.mpr ⟨links.childless, fun _ child => links.inverse.mp child⟩

end Interlinked

/-- Links are checked from both ends: what the parents say is checked with the parents, what the
lists say with the lists. -/
theorem linkFlaw?_eq_none_iff_links {t : Tree} :
    t.linkFlaw? = none ↔
      (∀ s, t.Interlinked s) ∧
        (t.shape = .tree → ∀ s, ∀ i < t.size, (t.node i).existsOn s → (t.node i).kind ≠ .root →
          ∃ p, t.parent s i = some p) := by
  rw [linkFlaw?_eq_none_iff]
  constructor
  · intro clean
    have owned {s : Side} {c p : Nat} (linked : t.parent s c = some p) :=
      (parentFlaw?_eq_none_iff.mp (clean s c (lt_size_of_parent linked)).1).1 p linked
    have listed {s : Side} {p c : Nat} (child : c ∈ t.children s p) : t.parent s c = some p :=
      (childFlaw?_eq_none_iff.mp (clean s p (lt_size_of_mem_children child)).2).2 c child
    refine ⟨fun s => ⟨⟨listed, fun linked => ?_⟩, fun p => ?_, fun {i} root => ?_,
      fun linked => (owned linked).1.1, fun linked => (owned linked).1.2.2.1,
      fun linked => (owned linked).1.2.2.2⟩, fun tree s i inside present line => ?_⟩
    · exact List.count_pos_iff.mp (by rw [(owned linked).2]; decide)
    · refine List.nodup_iff_count_le_one.mpr fun c => ?_
      by_cases child : c ∈ t.children s p
      · exact Nat.le_of_eq (owned (listed child)).2
      · rw [List.count_eq_zero_of_not_mem child]
        exact Nat.zero_le 1
    · cases linked : t.parent s i with
      | none => rfl
      | some p => exact absurd root (owned linked).1.2.1
    · cases linked : t.parent s i with
      | some p => exact ⟨p, rfl⟩
      | none =>
          exact absurd tree
            ((parentFlaw?_eq_none_iff.mp (clean s i inside).1).2 linked present line)
  · rintro ⟨links, owned⟩ s i inside
    refine ⟨?_, (links s).childFlaw?_eq_none i⟩
    rw [(links s).parentFlaw?_eq, if_neg]
    rintro ⟨unlinked, present, line, tree⟩
    obtain ⟨p, linked⟩ := owned tree s i inside present line
    rw [unlinked] at linked
    cases linked

/-- How ids and links of a tree without flaws agree. -/
structure WellLinked (t : Tree) : Prop where
  ids : (t.nodes.toList.map (·.id)).Nodup
  owned : ∀ {s i p}, t.parent s i = some p →
    (t.node i).existsOn s ∧ (t.node i).kind ≠ .root ∧
      (t.node p).existsOn s ∧ (t.node p).kind.isScope
  children : ∀ {s p c}, c ∈ t.children s p ↔ t.parent s c = some p

theorem wellLinked_of_firstFlaw? {t : Tree} (flawless : t.firstFlaw? = none) : t.WellLinked := by
  obtain ⟨-, idFlaw, linkFlaw, -⟩ := firstFlaw?_eq_none_iff.mp flawless
  have links := (linkFlaw?_eq_none_iff_links.mp linkFlaw).1
  exact ⟨idFlaw?_eq_none_iff.mp idFlaw, fun {s _ _} linked => ⟨(links s).present linked,
    (links s).kind_ne_root linked, (links s).owner linked, (links s).scope linked⟩,
    fun {s _ _} => (links s).inverse⟩

namespace WellLinked

variable {t : Tree} (linking : t.WellLinked)
include linking

theorem parent_lt {s : Side} {i p : Nat} (linked : t.parent s i = some p) : p < t.size := by
  apply lt_size_of_kind_ne_code
  intro code
  have scope := (linking.owned linked).2.2.2
  rw [code] at scope
  cases scope

end WellLinked

/-! Flaws are about frames. -/

def mapNodes (f : Node → Node) (t : Tree) : Tree :=
  { t with nodes := t.nodes.map f }

def frame (t : Tree) : Tree :=
  t.mapNodes Node.frame

@[simp] theorem size_mapNodes (f : Node → Node) (t : Tree) : (t.mapNodes f).size = t.size := by
  simp [mapNodes, size]

theorem nodes_mapNodes (f : Node → Node) (t : Tree) :
    (t.mapNodes f).nodes.toList = t.nodes.toList.map f := by
  simp [mapNodes]

theorem node_mapNodes_of_lt {t : Tree} {i : Nat} (inside : i < t.size) (f : Node → Node) :
    (t.mapNodes f).node i = f (t.node i) := by
  have lookup : t.nodes[i]? = some t.nodes[i] := Array.getElem?_eq_getElem inside
  simp [mapNodes, node, lookup]

theorem mapNodes_mapNodes (f g : Node → Node) (t : Tree) :
    (t.mapNodes f).mapNodes g = t.mapNodes (g ∘ f) := by
  simp [mapNodes]

@[simp] theorem node_frame (t : Tree) (i : Nat) : t.frame.node i = (t.node i).frame := by
  rcases Nat.lt_or_ge i t.size with inside | outside
  · exact node_mapNodes_of_lt inside Node.frame
  · rw [node_of_size_le outside, node_of_size_le (by rwa [frame, size_mapNodes])]
    rfl

@[simp] theorem size_frame (t : Tree) : t.frame.size = t.size :=
  size_mapNodes _ t

@[simp] theorem parent_frame (t : Tree) (s : Side) (i : Nat) :
    t.frame.parent s i = t.parent s i := by
  rw [parent, node_frame]
  cases s <;> rfl

@[simp] theorem children_frame (t : Tree) (s : Side) (i : Nat) :
    t.frame.children s i = t.children s i := by
  rw [children, node_frame]
  cases s <;> rfl

theorem positions_frame (t : Tree) {test : Node → Bool}
    (frames : ∀ n : Node, test n.frame = test n) : t.frame.positions test = t.positions test := by
  simp [positions_eq, frames]

theorem climb?_congr {t u : Tree} {s d : Side} (same : ∀ i, t.parent s i = u.parent d i)
    (steps i : Nat) : t.climb? s steps i = u.climb? d steps i := by
  induction steps generalizing i with
  | zero => rw [climb?, climb?, same]
  | succ steps ih =>
      rw [climb?, climb?, same]
      simp only [ih]

theorem lineage?_frame (t : Tree) (s : Side) (i : Nat) : t.frame.lineage? s i = t.lineage? s i := by
  rw [lineage?, lineage?, size_frame]
  exact climb?_congr (fun j => t.parent_frame s j) _ i

theorem firstFlaw?_frame (t : Tree) : t.frame.firstFlaw? = t.firstFlaw? := by
  have roots : t.frame.rootFlaw? = t.rootFlaw? := by
    have same : t.frame.positions (·.kind = .root) = t.positions (·.kind = .root) :=
      t.positions_frame fun _ => rfl
    simp only [rootFlaw?, same, node_frame]
    rfl
  have ids : t.frame.idFlaw? = t.idFlaw? := by
    rw [idFlaw?, idFlaw?, frame, nodes_mapNodes, List.map_map]
    rfl
  have parents (s : Side) (i : Nat) : t.frame.parentFlaw? s i = t.parentFlaw? s i := by
    have parent : (t.node i).frame.parent s = (t.node i).parent s := by cases s <;> rfl
    have children (p : Nat) : (t.node p).frame.children s = (t.node p).children s := by
      cases s <;> rfl
    simp only [parentFlaw?, node_frame, parent, children]
    rfl
  have children (s : Side) (i : Nat) : t.frame.childFlaw? s i = t.childFlaw? s i := by
    have children : (t.node i).frame.children s = (t.node i).children s := by cases s <;> rfl
    simp only [childFlaw?, node_frame, parent_frame, children]
    rfl
  have links : t.frame.linkFlaw? = t.linkFlaw? := by
    simp only [linkFlaw?, size_frame, parents, children]
  have cycles : t.frame.cycleFlaw? = t.cycleFlaw? := by
    simp only [cycleFlaw?_eq, size_frame, lineage?_frame, node_frame]
    rfl
  rw [firstFlaw?, firstFlaw?, roots, ids, links, cycles]

end Tree

end Variability
