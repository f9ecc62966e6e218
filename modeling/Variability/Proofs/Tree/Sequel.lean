import Variability.Proofs.Tree.Embedding
import Variability.Proofs.Tree.Marks

/-!
A tree with another one behind it. The two become one tree under the root of the first, which gets
the children of the other root behind its own. The remaining nodes of the first stay what they are,
those of the second get higher numbers and later lines. Each of the two is embedded in the whole.
-/

namespace Variability

/-- The same lines of a text when `n` lines stand before it. -/
def LineSpan.later (n : Nat) (span : LineSpan) : LineSpan :=
  ⟨n + span.first, n + span.last⟩

/-- The number of a node when `offset` nodes stand between it and the root. -/
def Tree.later (offset : Nat) : Nat → Nat
  | 0 => 0
  | i + 1 => offset + i + 1

namespace Node

def later (offset lines : Nat) (n : Node) : Node :=
  { n.rename (fun i => some (Tree.later offset i)) with
    id := Tree.later offset n.id
    lines := n.lines.later lines }

/-- A node with the children of another one behind its own. -/
def adopt (n m : Node) : Node :=
  { n with
    before := ⟨n.before.parent, n.before.children ++ m.before.children⟩
    after := ⟨n.after.parent, n.after.children ++ m.after.children⟩ }

theorem parent_adopt (n m : Node) (s : Side) : (n.adopt m).parent s = n.parent s := by
  cases s <;> rfl

theorem children_adopt (n m : Node) (s : Side) :
    (n.adopt m).children s = n.children s ++ m.children s := by
  cases s <;> rfl

theorem bare_later_of_bare_eq {n m : Node} (same : n.bare = m.bare) (offset lines : Nat) :
    (n.later offset lines).bare = (m.later offset lines).bare := by
  change { n.bare with id := Tree.later offset n.bare.id, lines := n.bare.lines.later lines } =
    { m.bare with id := Tree.later offset m.bare.id, lines := m.bare.lines.later lines }
  rw [same]

theorem parent_later (offset lines : Nat) (n : Node) (s : Side) :
    (n.later offset lines).parent s = (n.parent s).map (Tree.later offset) := by
  cases s <;> exact Option.map_eq_bind.symm

theorem children_later (offset lines : Nat) (n : Node) (s : Side) :
    (n.later offset lines).children s = (n.children s).map (Tree.later offset) := by
  cases s <;> exact congrFun (List.filterMap_eq_map (f := Tree.later offset)) _

end Node

namespace Tree

/-- The tree of two trees that share their root. What the lines of the second are counted from is
behind `lines` lines, and the range of the whole is the range around both. -/
def followedBy (t u : Tree) (lines : Nat) : Tree :=
  let moved := u.nodes.toList.map (Node.later (t.size - 1) lines)
  let root := (t.node 0).adopt ((u.node 0).later (t.size - 1) lines)
  { nodes := (root :: (t.nodes.toList.tail ++ moved.tail)).toArray
    shape := t.shape
    source := { t.source with hunk := t.source.hunk.bind fun r => u.source.hunk.map r.hull } }

theorem later_injective (offset : Nat) : Function.Injective (later offset) := by
  intro i j same
  cases i <;> cases j <;> simp only [later] at same <;> omega

theorem later_of_pos {i : Nat} (positive : 0 < i) (offset : Nat) : later offset i = offset + i := by
  cases i with
  | zero => cases positive
  | succ i => rfl

theorem later_lt_later {offset i j : Nat} (below : i < j) : later offset i < later offset j := by
  cases i <;> cases j <;> simp only [later] <;> omega

variable {t u : Tree} {lines : Nat}

theorem size_followedBy (rooted : 0 < t.size) :
    (t.followedBy u lines).size = t.size + (u.size - 1) := by
  simp only [size, followedBy, List.size_toArray, List.length_cons, List.length_append,
    List.length_tail, List.length_map, Array.length_toList] at rooted ⊢
  omega

theorem node_followedBy_zero (t u : Tree) (lines : Nat) :
    (t.followedBy u lines).node 0 = (t.node 0).adopt ((u.node 0).later (t.size - 1) lines) := rfl

theorem node_followedBy_first {i : Nat} (positive : 0 < i) (inside : i < t.size) :
    (t.followedBy u lines).node i = t.node i := by
  obtain ⟨i, rfl⟩ : ∃ k, i = k + 1 := ⟨i - 1, by omega⟩
  have early : i < t.nodes.toList.tail.length := by
    rw [List.length_tail, Array.length_toList]
    exact Nat.lt_sub_of_add_lt inside
  simp [node, followedBy, List.getElem?_append_left early]

theorem node_followedBy_second {i : Nat} (positive : 0 < i) (inside : i < u.size) :
    (t.followedBy u lines).node (later (t.size - 1) i) =
      (u.node i).later (t.size - 1) lines := by
  obtain ⟨i, rfl⟩ : ∃ k, i = k + 1 := ⟨i - 1, by omega⟩
  have early : t.nodes.toList.tail.length = t.size - 1 := by
    rw [List.length_tail, Array.length_toList, size]
  have lookup : u.nodes[i + 1]? = some u.nodes[i + 1] := Array.getElem?_eq_getElem inside
  simp [node, followedBy, later, List.getElem?_append_right, early, lookup]

theorem range_followedBy (rooted : 0 < t.size) (rootedToo : 0 < u.size) :
    List.range (t.followedBy u lines).size =
      List.range t.size ++ (List.range u.size).tail.map (later (t.size - 1)) := by
  obtain ⟨more, size⟩ : ∃ more, u.size = more + 1 := ⟨u.size - 1, by omega⟩
  rw [size_followedBy rooted, size, List.range_add, List.range_succ_eq_map, List.tail_cons,
    List.map_map, Nat.add_sub_cancel]
  refine congrArg _ (List.map_congr_left fun i _ => ?_)
  simp only [Function.comp_apply, later]
  omega

theorem filter_tail_range {p : Nat → Bool} (root : p 0 = false) (n : Nat) :
    (List.range n).tail.filter p = (List.range n).filter p := by
  cases n with
  | zero => rfl
  | succ n => rw [List.range_succ_eq_map, List.filter_cons_of_neg (by simp [root]), List.tail_cons]

/-! Links. The roots have no parent, and nothing is a child of two nodes. -/

theorem bare_followedBy_first {i : Nat} (inside : i < t.size) :
    ((t.followedBy u lines).node i).bare = (t.node i).bare := by
  rcases Nat.eq_zero_or_pos i with rfl | positive
  · rfl
  · rw [node_followedBy_first positive inside]

theorem kind_followedBy_first {i : Nat} (inside : i < t.size) :
    ((t.followedBy u lines).node i).kind = (t.node i).kind := by
  rw [← Node.bare_kind, bare_followedBy_first inside, Node.bare_kind]

theorem edit_followedBy_first {i : Nat} (inside : i < t.size) :
    ((t.followedBy u lines).node i).edit = (t.node i).edit := by
  rw [← Node.bare_edit, bare_followedBy_first inside, Node.bare_edit]

theorem parent_followedBy_first {i : Nat} (inside : i < t.size) (s : Side) :
    (t.followedBy u lines).parent s i = t.parent s i := by
  rcases Nat.eq_zero_or_pos i with rfl | positive
  · rw [parent, node_followedBy_zero, Node.parent_adopt, parent]
  · rw [parent, node_followedBy_first positive inside, parent]

theorem children_followedBy_first {i : Nat} (positive : 0 < i) (inside : i < t.size) (s : Side) :
    (t.followedBy u lines).children s i = t.children s i := by
  rw [children, node_followedBy_first positive inside, children]

theorem children_followedBy_zero (s : Side) :
    (t.followedBy u lines).children s 0 =
      t.children s 0 ++ (u.children s 0).map (later (t.size - 1)) := by
  rw [children, node_followedBy_zero, Node.children_adopt, Node.children_later, children, children]

theorem parent_followedBy_second {i : Nat} (positive : 0 < i) (inside : i < u.size) (s : Side) :
    (t.followedBy u lines).parent s (later (t.size - 1) i) =
      (u.parent s i).map (later (t.size - 1)) := by
  rw [parent, node_followedBy_second positive inside, Node.parent_later, parent]

theorem children_followedBy_second {i : Nat} (positive : 0 < i) (inside : i < u.size) (s : Side) :
    (t.followedBy u lines).children s (later (t.size - 1) i) =
      (u.children s i).map (later (t.size - 1)) := by
  rw [children, node_followedBy_second positive inside, Node.children_later, children]

/-- Where a node of both trees stands in the first. -/
def firstPlace? (t : Tree) (j : Nat) : Option Nat :=
  if j < t.size then some j else none

/-- Where a node of both trees stands in the second. -/
def secondPlace? (t u : Tree) : Nat → Option Nat
  | 0 => some 0
  | j + 1 => if t.size ≤ j + 1 ∧ j + 1 < t.size - 1 + u.size then some (j + 2 - t.size) else none

theorem firstPlace?_eq_some_iff {i j : Nat} :
    t.firstPlace? j = some i ↔ i < t.size ∧ i = j := by
  rw [firstPlace?]
  split
  · next inside =>
    rw [Option.some.injEq]
    exact ⟨fun same => ⟨same ▸ inside, same.symm⟩, fun both => both.2.symm⟩
  · next outside =>
    exact ⟨(nomatch ·), fun both => absurd (both.2 ▸ both.1) outside⟩

theorem isSome_firstPlace?_of_lt {b c : Nat} (below : b < c) (placed : (t.firstPlace? c).isSome) :
    (t.firstPlace? b).isSome := by
  obtain ⟨i, placed⟩ := Option.isSome_iff_exists.mp placed
  obtain ⟨inside, rfl⟩ := firstPlace?_eq_some_iff.mp placed
  rw [firstPlace?_eq_some_iff.mpr ⟨Nat.lt_trans below inside, rfl⟩, Option.isSome_some]

theorem Linked.pos_of_mem_children (linked : t.Linked) {s : Side} {p c : Nat}
    (child : c ∈ t.children s p) : 0 < c :=
  Nat.zero_lt_of_lt (linked.ordered s c p (linked.mem_children.mp child))

theorem Linked.lt_size_of_mem_children (linked : t.Linked) {s : Side} {p c : Nat}
    (child : c ∈ t.children s p) : c < t.size :=
  lt_size_of_parent (linked.mem_children.mp child)

theorem Linked.parent_zero (linked : t.Linked) (s : Side) : t.parent s 0 = none := by
  cases parent : t.parent s 0 with
  | none => rfl
  | some p => exact absurd (linked.ordered s 0 p parent) (Nat.not_lt_zero p)

/-- Two trees that can share their root. -/
structure Meet (t u : Tree) : Prop where
  linked : t.Linked
  linkedToo : u.Linked
  rooted : 0 < t.size
  rootedToo : 0 < u.size
  root : (u.node 0).bare = (t.node 0).bare

namespace Meet

variable (meet : t.Meet u)
include meet

theorem secondPlace?_eq_some_iff {i j : Nat} :
    t.secondPlace? u j = some i ↔ i < u.size ∧ later (t.size - 1) i = j := by
  have rooted := meet.rooted
  have rootedToo := meet.rootedToo
  cases j with
  | zero =>
      rw [secondPlace?, Option.some.injEq]
      cases i with
      | zero => simp [rootedToo, later]
      | succ i => simp [later]
  | succ j =>
      rw [secondPlace?]
      cases i with
      | zero =>
          simp only [later, Option.ite_none_right_eq_some, Option.some.injEq]
          omega
      | succ i =>
          simp only [later, Option.ite_none_right_eq_some, Option.some.injEq]
          omega

theorem children_of_secondPlace?_none {j : Nat} (none : t.secondPlace? u j = none) (s : Side) :
    (t.followedBy u lines).children s j = t.children s j := by
  cases j with
  | zero => cases none
  | succ j =>
      rcases Nat.lt_or_ge (j + 1) t.size with inside | outside
      · exact children_followedBy_first (Nat.succ_pos j) inside s
      · have rooted := meet.rooted
        have behind : (t.followedBy u lines).size ≤ j + 1 := by
          rw [size_followedBy rooted]
          simp only [secondPlace?, ite_eq_right_iff, reduceCtorEq, imp_false] at none
          omega
        rw [children_of_size_le behind, children_of_size_le outside]

omit meet in
theorem exists_later {j : Nat} (outside : t.size ≤ j) (inside : j < (t.followedBy u lines).size)
    (rooted : 0 < t.size) : ∃ i, 0 < i ∧ i < u.size ∧ later (t.size - 1) i = j := by
  rw [size_followedBy rooted] at inside
  refine ⟨j - (t.size - 1), by omega, by omega, ?_⟩
  rw [later_of_pos (by omega)]
  omega

theorem lt_size_first {i : Nat} (inside : i < t.size) :
    i < (t.followedBy u lines).size := by
  rw [size_followedBy meet.rooted]
  exact Nat.lt_add_right _ inside

theorem later_lt_size {i : Nat} (inside : i < u.size) :
    later (t.size - 1) i < (t.followedBy u lines).size := by
  have rooted := meet.rooted
  rw [size_followedBy rooted]
  cases i with
  | zero => exact Nat.lt_add_right _ rooted
  | succ i =>
      rw [later]
      omega

omit meet in
theorem size_le_later {i : Nat} (positive : 0 < i) : t.size ≤ later (t.size - 1) i := by
  rw [later_of_pos positive]
  omega

theorem parent_second {i : Nat} (inside : i < u.size) (s : Side) :
    (t.followedBy u lines).parent s (later (t.size - 1) i) =
      (u.parent s i).map (later (t.size - 1)) := by
  rcases Nat.eq_zero_or_pos i with rfl | positive
  · rw [later, parent_followedBy_first meet.rooted, meet.linked.parent_zero,
      meet.linkedToo.parent_zero, Option.map_none]
  · exact parent_followedBy_second positive inside s

theorem isSome_secondPlace?_of_parent {s : Side} {c p : Nat}
    (placed : (t.secondPlace? u c).isSome)
    (linked : (t.followedBy u lines).parent s c = some p) : (t.secondPlace? u p).isSome := by
  obtain ⟨i, placed⟩ := Option.isSome_iff_exists.mp placed
  obtain ⟨inside, rfl⟩ := meet.secondPlace?_eq_some_iff.mp placed
  rw [meet.parent_second inside] at linked
  obtain ⟨q, above, rfl⟩ := Option.map_eq_some_iff.mp linked
  have below := Nat.lt_trans (meet.linkedToo.ordered s i q above) inside
  rw [meet.secondPlace?_eq_some_iff.mpr ⟨below, rfl⟩, Option.isSome_some]

theorem kind_second {i : Nat} (inside : i < u.size) :
    ((t.followedBy u lines).node (later (t.size - 1) i)).kind = (u.node i).kind := by
  rcases Nat.eq_zero_or_pos i with rfl | positive
  · exact (congrArg Node.kind meet.root).symm
  · rw [node_followedBy_second positive inside]
    rfl

theorem edit_second {i : Nat} (inside : i < u.size) :
    ((t.followedBy u lines).node (later (t.size - 1) i)).edit = (u.node i).edit := by
  rcases Nat.eq_zero_or_pos i with rfl | positive
  · exact (congrArg Node.edit meet.root).symm
  · rw [node_followedBy_second positive inside]
    rfl

theorem guard_second {i : Nat} (inside : i < u.size) :
    ((t.followedBy u lines).node (later (t.size - 1) i)).guard = (u.node i).guard := by
  rcases Nat.eq_zero_or_pos i with rfl | positive
  · exact (congrArg Node.guard meet.root).symm
  · rw [node_followedBy_second positive inside]
    rfl

theorem codeNodes_followedBy (lines : Nat) (line : (u.node 0).kind ≠ .code) :
    (t.followedBy u lines).codeNodes =
      t.codeNodes ++ u.codeNodes.map (later (t.size - 1)) := by
  have tail := filter_tail_range (p := fun i => (u.node i).kind = .code) (decide_eq_false line)
    u.size
  rw [codeNodes, codeNodes, codeNodes, positions_eq, positions_eq, positions_eq,
    range_followedBy meet.rooted meet.rootedToo, List.filter_append, List.filter_map, ← tail]
  congr 1
  · refine List.filter_congr fun i member => ?_
    rw [kind_followedBy_first (List.mem_range.mp member)]
  · congr 1
    refine List.filter_congr fun i member => ?_
    rw [Function.comp_apply, meet.kind_second (List.mem_range.mp (List.mem_of_mem_tail member))]

theorem sideEmbeds_first (lines : Nat) (s : Side) :
    (t.followedBy u lines).SideEmbeds s t s t.firstPlace? where
  ordered := by
    intro i j k l placed placedToo below
    obtain ⟨-, rfl⟩ := firstPlace?_eq_some_iff.mp placed
    obtain ⟨-, rfl⟩ := firstPlace?_eq_some_iff.mp placedToo
    exact below
  kind := by
    intro j i placed
    obtain ⟨inside, rfl⟩ := firstPlace?_eq_some_iff.mp placed
    exact (kind_followedBy_first inside).symm
  guard := by
    intro j i placed
    obtain ⟨inside, rfl⟩ := firstPlace?_eq_some_iff.mp placed
    exact (congrArg Node.guard (bare_followedBy_first inside)).symm
  existsOn := by
    intro j i placed
    obtain ⟨inside, rfl⟩ := firstPlace?_eq_some_iff.mp placed
    exact (Node.existsOn_of_bare_eq (bare_followedBy_first inside) s).symm
  parent := by
    intro j i placed
    obtain ⟨inside, rfl⟩ := firstPlace?_eq_some_iff.mp placed
    rw [parent_followedBy_first inside]
    cases parent : t.parent s i with
    | none => rfl
    | some p =>
        have above := Nat.lt_trans (meet.linked.ordered s i p parent) inside
        exact (firstPlace?_eq_some_iff.mpr ⟨above, rfl⟩).symm
  children := by
    intro j i placed
    obtain ⟨inside, rfl⟩ := firstPlace?_eq_some_iff.mp placed
    have own : (t.children s i).filterMap t.firstPlace? = t.children s i := by
      rw [List.filterMap_congr fun c child => firstPlace?_eq_some_iff.mpr
        ⟨meet.linked.lt_size_of_mem_children child, rfl⟩, List.filterMap_some]
    rcases Nat.eq_zero_or_pos i with rfl | positive
    · have others : ((u.children s 0).map (later (t.size - 1))).filterMap t.firstPlace? = [] := by
        rw [List.filterMap_map, List.filterMap_eq_nil_iff]
        intro c child
        have behind := size_le_later (t := t) (meet.linkedToo.pos_of_mem_children child)
        rw [Function.comp_apply, firstPlace?, if_neg (Nat.not_lt.mpr behind)]
      rw [children_followedBy_zero, List.filterMap_append, own, others, List.append_nil]
    · rw [children_followedBy_first positive inside, own]

theorem sideEmbeds_second (lines : Nat) (s : Side) :
    (t.followedBy u lines).SideEmbeds s u s (t.secondPlace? u) where
  ordered := by
    intro i j k l placed placedToo below
    obtain ⟨-, rfl⟩ := meet.secondPlace?_eq_some_iff.mp placed
    obtain ⟨-, rfl⟩ := meet.secondPlace?_eq_some_iff.mp placedToo
    rcases Nat.lt_or_ge k l with ahead | behind
    · exact ahead
    · rcases Nat.lt_or_eq_of_le behind with before | rfl
      · exact absurd (Nat.lt_trans below (later_lt_later before)) (Nat.lt_irrefl _)
      · exact absurd below (Nat.lt_irrefl _)
  kind := by
    intro j i placed
    obtain ⟨inside, rfl⟩ := meet.secondPlace?_eq_some_iff.mp placed
    exact (meet.kind_second inside).symm
  guard := by
    intro j i placed
    obtain ⟨inside, rfl⟩ := meet.secondPlace?_eq_some_iff.mp placed
    exact (meet.guard_second inside).symm
  existsOn := by
    intro j i placed
    obtain ⟨inside, rfl⟩ := meet.secondPlace?_eq_some_iff.mp placed
    rw [Node.existsOn, Node.existsOn, meet.kind_second inside, meet.edit_second inside]
  parent := by
    intro j i placed
    obtain ⟨inside, rfl⟩ := meet.secondPlace?_eq_some_iff.mp placed
    rw [meet.parent_second inside]
    cases parent : u.parent s i with
    | none => rfl
    | some p =>
        have above := Nat.lt_trans (meet.linkedToo.ordered s i p parent) inside
        exact (meet.secondPlace?_eq_some_iff.mpr ⟨above, rfl⟩).symm
  children := by
    intro j i placed
    obtain ⟨inside, rfl⟩ := meet.secondPlace?_eq_some_iff.mp placed
    have own : ((u.children s i).map (later (t.size - 1))).filterMap (t.secondPlace? u) =
        u.children s i := by
      have back : ∀ c ∈ u.children s i, (t.secondPlace? u ∘ later (t.size - 1)) c = some c :=
        fun c child => meet.secondPlace?_eq_some_iff.mpr
          ⟨meet.linkedToo.lt_size_of_mem_children child, rfl⟩
      rw [List.filterMap_map, List.filterMap_congr back, List.filterMap_some]
    rcases Nat.eq_zero_or_pos i with rfl | positive
    · have others : (t.children s 0).filterMap (t.secondPlace? u) = [] := by
        rw [List.filterMap_eq_nil_iff]
        intro c child
        cases place : t.secondPlace? u c with
        | none => rfl
        | some i =>
            obtain ⟨-, rfl⟩ := meet.secondPlace?_eq_some_iff.mp place
            have early := meet.linked.lt_size_of_mem_children child
            have positive := meet.linked.pos_of_mem_children child
            cases i with
            | zero => cases positive
            | succ i => exact absurd early (Nat.not_lt.mpr (size_le_later (Nat.succ_pos i)))
      rw [later, children_followedBy_zero, List.filterMap_append, own, others, List.nil_append]
    · rw [children_followedBy_second positive inside, own]

end Meet

end Tree

end Variability
