import Variability.Proofs.Patch.Flawless
import Variability.Proofs.Presence.Meaning

/-!
Lineages and siblings in the tree of some entries. The branches that are open around an entry are
the nodes above it, innermost first, and the branch that a further branch of the same conditional
follows is the sibling right before it.
-/

namespace Variability

namespace Tree

/-- Open branches, innermost first, when nodes up to `k` are placed: each stands below the next,
and no node behind it is its sibling. -/
def Nested (t : Tree) (s : Side) (k : Nat) : List Nat → Prop
  | [] => True
  | b :: outer =>
    t.parent s b = some (outer.headD 0) ∧ outer.headD 0 < b ∧ b ≤ k ∧
      (∀ i, b < i → i ≤ k → t.parent s i ≠ t.parent s b) ∧ t.Nested s k outer

variable {t : Tree} {s : Side} {k : Nat}

theorem Nested.tail {opened : List Nat} (nested : t.Nested s k opened) :
    t.Nested s k opened.tail := by
  cases opened with
  | nil => exact nested
  | cons b outer => exact nested.2.2.2.2

theorem Nested.headD_le {opened : List Nat} (nested : t.Nested s k opened) :
    opened.headD 0 ≤ k := by
  cases opened with
  | nil => exact Nat.zero_le k
  | cons b outer => exact nested.2.2.1

theorem Nested.extend {opened : List Nat} (nested : t.Nested s k opened)
    (below : ∀ p, t.parent s (k + 1) = some p → opened.headD 0 ≤ p) :
    t.Nested s (k + 1) opened := by
  induction opened with
  | nil => trivial
  | cons b outer ih =>
      obtain ⟨linked, lower, bound, alone, nestedOuter⟩ := nested
      refine ⟨linked, lower, Nat.le_succ_of_le bound, ?_, ih nestedOuter ?_⟩
      · intro i behind inside
        rcases Nat.lt_or_eq_of_le inside with old | rfl
        · exact alone i behind (Nat.le_of_lt_succ old)
        · rw [linked]
          intro sibling
          have := below _ sibling
          rw [List.headD_cons] at this
          omega
      · intro p sibling
        have := below p sibling
        rw [List.headD_cons] at this
        omega

theorem Nested.lineage? {opened : List Nat} (nested : t.Nested s k opened)
    (ordered : t.ParentsFirst) (root : t.parent s 0 = none) :
    t.lineage? s (opened.headD 0) = some (opened ++ [0]) := by
  induction opened with
  | nil => exact lineage?_of_parent_none root
  | cons b outer ih =>
      rw [List.headD_cons, ordered.lineage?_of_parent nested.1, ih nested.2.2.2.2]
      rfl

def siblingsBefore (t : Tree) (s : Side) (i : Nat) : List Nat :=
  (List.range i).filter (t.parent s · = t.parent s i)

private theorem takeWhile_filter_range {test : Nat → Bool} {n i : Nat} (inside : i < n)
    (passes : test i) :
    ((List.range n).filter test).takeWhile (· ≠ i) = (List.range i).filter test := by
  obtain ⟨rest, rfl⟩ : ∃ rest, n = i + (rest + 1) := ⟨n - i - 1, by omega⟩
  rw [List.range_add, List.filter_append, List.range_succ_eq_map, List.map_cons,
    List.filter_cons_of_pos (by simpa using passes), List.takeWhile_append_of_pos]
  · simp
  · intro j member
    have := List.mem_range.mp (List.mem_filter.mp member).1
    simp
    omega

theorem Nested.siblingsBefore_eq {b : Nat} {outer : List Nat} (nested : t.Nested s k (b :: outer))
    (beside : t.parent s (k + 1) = t.parent s b) :
    t.siblingsBefore s (k + 1) = t.siblingsBefore s b ++ [b] := by
  obtain ⟨-, -, bound, alone, -⟩ := nested
  obtain ⟨gap, rfl⟩ : ∃ gap, k = b + gap := ⟨k - b, by omega⟩
  -- what was placed behind the branch stands inside it
  have nothing : ((List.range gap).map (b + 1 + ·)).filter (t.parent s · = t.parent s b) = [] := by
    rw [List.filter_eq_nil_iff]
    intro i member
    obtain ⟨j, inside, rfl⟩ := List.mem_map.mp member
    rw [List.mem_range] at inside
    simpa using alone (b + 1 + j) (by omega) (by omega)
  unfold siblingsBefore
  rw [beside, Nat.add_right_comm, List.range_add, List.range_succ, List.filter_append,
    List.filter_append, nothing, List.append_nil, List.filter_cons_of_pos (by simp),
    List.filter_nil]

end Tree

namespace Patch.Overlays

variable {t : Tree} {es : List Entry} (overlays : Overlays t es)
include overlays

theorem earlierBranches_eq {s : Side} {i p : Nat} (linked : t.parent s i = some p) :
    t.earlierBranches s i = t.branchRun (t.siblingsBefore s i).reverse := by
  have inside := Tree.lt_size_of_parent linked
  unfold Tree.earlierBranches Tree.siblingsBefore
  simp only [linked]
  rw [if_pos (overlays.mem_children.mpr linked), overlays.children,
    Tree.takeWhile_filter_range inside (by simpa using linked)]

omit overlays in
theorem nested_around {k : Nat} {s : Side} {opened : List Nat} (nested : t.Nested s k opened)
    (e : Entry) : t.Nested s k (e.around opened) := by
  unfold Entry.around
  cases e.kind
  case elifBranch | elseBranch => exact nested.tail
  all_goals exact nested

theorem nested {k : Nat} (inside : k ≤ es.length) (s : Side) :
    t.Nested s k (openBranches s (es.take k)) := by
  induction k with
  | zero => trivial
  | succ k ih =>
      have ih := ih (Nat.le_of_succ_le inside)
      have lookup : es[k]? = some es[k] := List.getElem?_eq_getElem inside
      have linked := overlays.parent_entry lookup s
      rw [openBranches_take_succ lookup]
      generalize es[k] = e at linked
      generalize openBranches s (es.take k) = opened at ih linked
      split
      · next present =>
          rw [if_pos present] at linked
          have around := nested_around ih e
          have extended : t.Nested s (k + 1) (e.around opened) := by
            refine around.extend fun p placed => ?_
            rw [linked] at placed
            exact Nat.le_of_eq (Option.some.inj placed)
          have opens : t.Nested s (k + 1) ((k + 1) :: e.around opened) :=
            ⟨linked, Nat.lt_succ_of_le around.headD_le, Nat.le_refl _, by omega, extended⟩
          unfold Entry.behind
          unfold Entry.around at *
          cases kind : e.kind <;> simp only [kind] at extended opens ⊢
          case endif => exact extended.tail
          case code => exact extended
          all_goals exact opens
      · next absent =>
          rw [if_neg absent] at linked
          refine ih.extend fun p placed => ?_
          rw [linked] at placed
          cases placed

theorem lineage_entry {k : Nat} {e : Entry} (lookup : es[k]? = some e) {s : Side}
    (present : e.edit.existsOn s) :
    t.lineage? s (k + 1) = some ((k + 1) :: e.around (openBranches s (es.take k)) ++ [0]) := by
  have inside := (List.getElem?_eq_some_iff.mp lookup).1
  have linked : t.parent s (k + 1) = some (e.scope (openBranches s (es.take k))) := by
    rw [overlays.parent_entry lookup, if_pos present]
  have around := nested_around (overlays.nested (Nat.le_of_lt inside) s) e
  rw [overlays.parentsFirst.lineage?_of_parent linked]
  unfold Entry.scope
  rw [around.lineage? overlays.parentsFirst (overlays.parent_root s)]
  rfl

theorem existsOn_of_mem_lineage {s : Side} {i j : Nat} {chain : List Nat}
    (present : (t.node i).existsOn s) (lineage : t.lineage? s i = some chain)
    (member : j ∈ chain) : (t.node j).existsOn s := by
  rcases Tree.eq_or_parent_of_mem_lineage lineage member with rfl | ⟨c, linked⟩
  · exact present
  · exact (overlays.parent_owns linked).1

theorem parent_next {k b : Nat} {e : Entry} {outer : List Nat} {s : Side}
    (lookup : es[k]? = some e) (present : e.edit.existsOn s)
    (further : e.kind = .elifBranch ∨ e.kind = .elseBranch)
    (opened : openBranches s (es.take k) = b :: outer) :
    t.parent s (k + 1) = t.parent s b := by
  have nested := overlays.nested (Nat.le_of_lt (List.getElem?_eq_some_iff.mp lookup).1) s
  rw [opened] at nested
  rw [overlays.parent_entry lookup, if_pos present, nested.1, Entry.scope, Entry.around, opened]
  rcases further with kind | kind <;> rw [kind] <;> rfl

/-- A further branch of a conditional stands right behind the branch that it follows, and the
branches before it are that branch and those before that one. -/
theorem earlierBranches_next {k b : Nat} {outer : List Nat} {s : Side} (inside : k ≤ es.length)
    (opened : openBranches s (es.take k) = b :: outer)
    (beside : t.parent s (k + 1) = t.parent s b)
    (continued : (t.node b).kind = .ifBranch ∨ (t.node b).kind = .elifBranch) :
    t.earlierBranches s (k + 1) = b :: t.rivals s b := by
  have nested := overlays.nested inside s
  rw [opened] at nested
  have linked := nested.1
  rw [overlays.earlierBranches_eq (beside.trans linked), nested.siblingsBefore_eq beside,
    List.reverse_append, List.reverse_singleton, List.singleton_append, Tree.branchRun, Tree.rivals]
  rcases continued with kind | kind <;> simp only [kind]
  rw [overlays.earlierBranches_eq linked]

end Patch.Overlays

end Variability
