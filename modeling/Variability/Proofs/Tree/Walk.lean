import Mathlib.Data.List.Nodup
import Variability.Proofs.Tree.Ascent

/-!
Walks that mark the nodes they meet. The walk up stops at nodes from which parents are known to
end; it finds the same first start as a walk from every node to its very end. The walk down meets
no node twice and stops because nothing is left: its bound pays for every node on the stack, and
for the children of every node that is still to come.
-/

namespace Variability.Tree

namespace Marks

@[simp] theorem size_add (marks : Marks) (i : Nat) : (marks.add i).size = marks.size :=
  Array.size_setIfInBounds

theorem has_add {marks : Marks} {i j : Nat} :
    (marks.add i).has j ↔ i = j ∧ i < marks.size ∨ marks.has j := by
  unfold has add
  rw [Array.getElem?_setIfInBounds]
  by_cases same : i = j
  · subst same
    by_cases inside : i < marks.size <;> simp [inside]
  · simp [same]

theorem lt_size_of_has {marks : Marks} {i : Nat} (marked : marks.has i) : i < marks.size := by
  rcases Nat.lt_or_ge i marks.size with inside | outside
  · exact inside
  · simp [has, Array.getElem?_eq_none outside] at marked

theorem mem_or_has_of_has_addAll {marks : Marks} {nodes : List Nat} {i : Nat}
    (marked : (marks.addAll nodes).has i) : i ∈ nodes ∨ marks.has i := by
  induction nodes generalizing marks with
  | nil => exact .inr marked
  | cons j nodes ih =>
      rcases ih marked with member | marked
      · exact .inl (List.mem_cons_of_mem j member)
      · rcases has_add.mp marked with ⟨rfl, -⟩ | old
        · exact .inl List.mem_cons_self
        · exact .inr old

end Marks

@[simp] theorem size_unmarked (t : Tree) : t.unmarked.size = t.size :=
  Array.size_replicate

@[simp] theorem has_unmarked (t : Tree) (i : Nat) : t.unmarked.has i = false := by
  simp only [Marks.has, unmarked, Array.getElem?_replicate]
  split <;> rfl

variable {t : Tree} {s : Side}

/-! Upward. -/

theorem isSome_lineage?_of_parent {i p : Nat} (linked : t.parent s i = some p)
    (ends : (t.lineage? s p).isSome) : (t.lineage? s i).isSome := by
  cases lineage : t.lineage? s i with
  | some chain => rfl
  | none =>
      obtain ⟨q, linked', endless⟩ := exists_parent_of_lineage?_none lineage
      obtain rfl : p = q := Option.some.inj (linked.symm.trans linked')
      rw [endless] at ends
      cases ends

theorem climbUnmarked?_cases {marks : Marks} {steps i : Nat} {chain : List Nat}
    (stops : t.climbUnmarked? s marks steps (some i) = some chain) :
    (marks.has i ∧ chain = []) ∨
      ∃ k above, steps = k + 1 ∧ t.climbUnmarked? s marks k (t.parent s i) = some above ∧
        chain = i :: above := by
  unfold climbUnmarked? at stops
  split at stops
  · next marked => exact .inl ⟨marked, (Option.some.inj stops).symm⟩
  · cases steps with
    | zero => cases stops
    | succ k =>
        obtain ⟨above, stopsAbove, rfl⟩ := Option.map_eq_some_iff.mp stops
        exact .inr ⟨k, above, rfl, stopsAbove, rfl⟩

theorem chain_eq_nil_of_climbUnmarked? {marks : Marks} {steps : Nat} {chain : List Nat}
    (stops : t.climbUnmarked? s marks steps none = some chain) : chain = [] := by
  unfold climbUnmarked? at stops
  exact (Option.some.inj stops).symm

/-- A walk that stops at a marked node or at the top meets only nodes whose parents end, when they
end from the marked ones. -/
theorem isSome_lineage?_of_climbUnmarked? {marks : Marks}
    (ending : ∀ j, marks.has j → (t.lineage? s j).isSome) {steps : Nat} {start : Option Nat}
    {chain : List Nat} (stops : t.climbUnmarked? s marks steps start = some chain) :
    (∀ i, start = some i → (t.lineage? s i).isSome) ∧ ∀ j ∈ chain, (t.lineage? s j).isSome := by
  induction chain generalizing start steps with
  | nil =>
      refine ⟨?_, by simp⟩
      rintro i rfl
      rcases climbUnmarked?_cases stops with ⟨marked, -⟩ | ⟨k, above, -, -, impossible⟩
      · exact ending i marked
      · cases impossible
  | cons j chain ih =>
      cases start with
      | none => cases chain_eq_nil_of_climbUnmarked? stops
      | some i =>
          rcases climbUnmarked?_cases stops with ⟨-, impossible⟩ | ⟨k, above, -, further, same⟩
          · cases impossible
          · obtain ⟨rfl, rfl⟩ := List.cons.inj same
            obtain ⟨parentEnds, aboveEnds⟩ := ih further
            have here : (t.lineage? s j).isSome := by
              cases linked : t.parent s j with
              | none => rw [lineage?_of_parent_none linked]; rfl
              | some p => exact isSome_lineage?_of_parent linked (parentEnds p linked)
            refine ⟨?_, List.forall_mem_cons.mpr ⟨here, aboveEnds⟩⟩
            rintro i same
            obtain rfl := Option.some.inj same
            exact here

/-- Where the parents end, a walk that may stop early stops in time. -/
theorem isSome_climbUnmarked? {marks : Marks} {steps i : Nat} {chain : List Nat}
    (ends : t.climb? s steps i = some chain) :
    (t.climbUnmarked? s marks (steps + 1) (some i)).isSome := by
  induction steps generalizing i chain with
  | zero =>
      rcases climb?_cases ends with ⟨unlinked, -⟩ | ⟨k, p, above, impossible, -⟩
      · rw [climbUnmarked?, unlinked]
        split <;> simp [climbUnmarked?]
      · cases impossible
  | succ steps ih =>
      rw [climbUnmarked?]
      split
      · rfl
      · rw [Option.isSome_map]
        rcases climb?_cases ends with ⟨unlinked, -⟩ | ⟨k, p, above, same, linked, higher, -⟩
        · rw [unlinked]
          rfl
        · obtain rfl := Nat.succ.inj same
          rw [linked]
          exact ih higher

theorem cycleFrom?_eq {ending : Marks} (known : ∀ j, ending.has j → (t.lineage? s j).isSome)
    (starts : List Nat) :
    t.cycleFrom? s ending starts = starts.findSome? fun i =>
      if (t.lineage? s i).isSome then none else some (.cycle (t.node i).id s) := by
  induction starts generalizing ending with
  | nil => rfl
  | cons i starts ih =>
      rw [cycleFrom?, List.findSome?_cons]
      cases stops : t.climbUnmarked? s ending (t.size + 1) (some i) with
      | none =>
          cases lineage : t.lineage? s i with
          | none => rfl
          | some chain =>
              have stopped : (t.climbUnmarked? s ending (t.size + 1) (some i)).isSome :=
                isSome_climbUnmarked? lineage
              rw [stops] at stopped
              cases stopped
      | some chain =>
          obtain ⟨here, above⟩ := isSome_lineage?_of_climbUnmarked? known stops
          rw [if_pos (here i rfl)]
          refine ih fun j marked => ?_
          rcases Marks.mem_or_has_of_has_addAll marked with member | old
          · exact above j member
          · exact known j old

/-- Following parents only to where they are known to end finds the same cycle as following them
from every node on its own. -/
theorem cycleFlaw?_eq (t : Tree) :
    t.cycleFlaw? = Side.all.findSome? fun s => (List.range t.size).findSome? fun i =>
      if (t.lineage? s i).isSome then none else some (.cycle (t.node i).id s) := by
  simp only [cycleFlaw?]
  congr 1
  funext s
  exact cycleFrom?_eq (by simp) _

theorem cycleFlaw?_eq_none_iff :
    t.cycleFlaw? = none ↔ ∀ s, ∀ i < t.size, (t.lineage? s i).isSome := by
  rw [cycleFlaw?_eq]
  simp only [List.findSome?_eq_none_iff, List.mem_range, ite_eq_left_iff, reduceCtorEq,
    imp_false, not_not]
  exact ⟨fun all s => all s (by simp), fun all s _ => all s⟩

/-! Downward. -/

theorem mem_roots {i : Nat} :
    i ∈ t.roots s ↔ i < t.size ∧ (t.node i).existsOn s ∧ t.parent s i = none := by
  simp [roots, mem_positions, parent]

/-- What holds of the nodes on the stack and passes from a node to its children holds of every
node that a walk meets. -/
theorem forall_walkDown {motive : Nat → Prop}
    (below : ∀ p, motive p → ∀ c ∈ t.children s p, motive c) {steps : Nat} {met : Marks}
    {stack : List Nat} (top : ∀ i ∈ stack, motive i) :
    ∀ i ∈ t.walkDown s steps met stack, motive i := by
  induction steps generalizing met stack with
  | zero => simp [walkDown]
  | succ steps ih =>
      cases stack with
      | nil => simp [walkDown]
      | cons i stack =>
          obtain ⟨here, rest⟩ := List.forall_mem_cons.mp top
          rw [walkDown]
          split
          · exact ih rest
          · refine List.forall_mem_cons.mpr ⟨here, ih fun j member => ?_⟩
            rcases List.mem_append.mp member with child | waiting
            · exact below i here j child
            · exact rest j waiting

/-- A walk meets no node twice, and none that was met before. -/
theorem nodup_walkDown (inside : ∀ p, ∀ c ∈ t.children s p, c < t.size) {steps : Nat}
    {met : Marks} (size : met.size = t.size) {stack : List Nat} (top : ∀ i ∈ stack, i < t.size) :
    (t.walkDown s steps met stack).Nodup ∧ ∀ i ∈ t.walkDown s steps met stack, ¬ met.has i := by
  induction steps generalizing met stack with
  | zero => simp [walkDown]
  | succ steps ih =>
      cases stack with
      | nil => simp [walkDown]
      | cons i stack =>
          obtain ⟨here, rest⟩ := List.forall_mem_cons.mp top
          rw [walkDown]
          split
          · exact ih size rest
          · next unmet =>
            have later : ∀ j ∈ t.children s i ++ stack, j < t.size := fun j member =>
              (List.mem_append.mp member).elim (inside i j) (rest j)
            have size' : (met.add i).size = t.size := by rw [Marks.size_add, size]
            obtain ⟨nodup, fresh⟩ := ih size' later
            refine ⟨List.nodup_cons.mpr ⟨fun again => ?_, nodup⟩, ?_⟩
            · exact fresh i again (Marks.has_add.mpr (.inl ⟨rfl, size ▸ here⟩))
            · refine List.forall_mem_cons.mpr ⟨unmet, fun j member old => ?_⟩
              exact fresh j member (Marks.has_add.mpr (.inr old))

private theorem perm_ahead {met : Marks} (size : met.size = t.size) {i : Nat}
    (inside : i < t.size) (unmet : ¬ met.has i) :
    ((List.range t.size).filter fun j => !met.has j).Perm
      (i :: (List.range t.size).filter fun j => !(met.add i).has j) := by
  have ahead (marks : Marks) (j : Nat) :
      j ∈ (List.range t.size).filter (fun j => !marks.has j) ↔ j < t.size ∧ ¬ marks.has j := by
    simp
  have taken : i ∉ (List.range t.size).filter fun j => !(met.add i).has j := fun member =>
    ((ahead _ i).mp member).2 (Marks.has_add.mpr (.inl ⟨rfl, size ▸ inside⟩))
  refine (List.perm_ext_iff_of_nodup (List.nodup_range.filter _)
    (List.nodup_cons.mpr ⟨taken, List.nodup_range.filter _⟩)).mpr fun j => ?_
  rw [List.mem_cons, ahead, ahead, Marks.has_add]
  by_cases same : i = j
  · subst same
    simp [inside, unmet]
  · simp [same, Ne.symm same]

/-- A node that is met for the first time is taken off the work, and its children come from the
work that was counted for it. -/
theorem workload_cons {met : Marks} (size : met.size = t.size) {i : Nat} (unmet : ¬ met.has i)
    (stack : List Nat) :
    t.workload s met (i :: stack) = t.workload s (met.add i) (t.children s i ++ stack) + 1 := by
  simp only [workload, List.length_cons, List.length_append]
  rcases Nat.lt_or_ge i t.size with inside | outside
  · rw [((perm_ahead size inside unmet).flatMap_right _).length_eq, List.flatMap_cons,
      List.length_append]
    omega
  · have same : met.add i = met := Array.setIfInBounds_eq_of_size_le (by omega)
    rw [same, children_of_size_le outside, List.length_nil]
    omega

/-- A walk that does not stop before its work is done meets everything on the stack and the
children of every node that it meets. -/
theorem mem_walkDown {steps : Nat} {met : Marks} (size : met.size = t.size) {stack : List Nat}
    (enough : t.workload s met stack ≤ steps) :
    (∀ i ∈ stack, met.has i ∨ i ∈ t.walkDown s steps met stack) ∧
      ∀ p ∈ t.walkDown s steps met stack, ∀ c ∈ t.children s p,
        met.has c ∨ c ∈ t.walkDown s steps met stack := by
  induction steps generalizing met stack with
  | zero =>
      have done : stack = [] := List.length_eq_zero_iff.mp (by rw [workload] at enough; omega)
      subst done
      simp [walkDown]
  | succ steps ih =>
      cases stack with
      | nil => simp [walkDown]
      | cons i stack =>
          rw [walkDown]
          split
          · next already =>
            have less : t.workload s met stack ≤ steps := by
              simp only [workload, List.length_cons] at enough ⊢
              omega
            obtain ⟨waiting, below⟩ := ih size less
            exact ⟨List.forall_mem_cons.mpr ⟨.inl already, waiting⟩, below⟩
          · next unmet =>
            have less : t.workload s (met.add i) (t.children s i ++ stack) ≤ steps := by
              rw [workload_cons size unmet] at enough
              omega
            obtain ⟨waiting, below⟩ := ih (by rw [Marks.size_add, size]) less
            generalize t.walkDown s steps (met.add i) (t.children s i ++ stack) = out at *
            have listed {c : Nat} (found : (met.add i).has c ∨ c ∈ out) :
                met.has c ∨ c ∈ i :: out := by
              rcases found with marked | later
              · rcases Marks.has_add.mp marked with ⟨rfl, -⟩ | old
                · exact .inr List.mem_cons_self
                · exact .inl old
              · exact .inr (List.mem_cons_of_mem i later)
            refine ⟨List.forall_mem_cons.mpr ⟨.inr List.mem_cons_self, fun j member => ?_⟩,
              List.forall_mem_cons.mpr ⟨fun c child => ?_, fun p member c child => ?_⟩⟩
            · exact listed (waiting j (List.mem_append_right _ member))
            · exact listed (waiting c (List.mem_append_left _ child))
            · exact listed (below p member c child)

theorem mem_preorder_of_mem_roots {i : Nat} (root : i ∈ t.roots s) : i ∈ t.preorder s := by
  have found : t.unmarked.has i ∨ i ∈ t.preorder s :=
    (mem_walkDown (size_unmarked t) (Nat.le_refl _)).1 i root
  rwa [has_unmarked, Bool.false_eq_true, false_or] at found

theorem mem_preorder_of_mem_children {p c : Nat} (member : p ∈ t.preorder s)
    (child : c ∈ t.children s p) : c ∈ t.preorder s := by
  have found : t.unmarked.has c ∨ c ∈ t.preorder s :=
    (mem_walkDown (size_unmarked t) (Nat.le_refl _)).2 p member c child
  rwa [has_unmarked, Bool.false_eq_true, false_or] at found

theorem nodup_preorder (inside : ∀ p, ∀ c ∈ t.children s p, c < t.size) : (t.preorder s).Nodup :=
  (nodup_walkDown inside (size_unmarked t) fun _ root => (mem_roots.mp root).1).1

theorem forall_preorder {motive : Nat → Prop} (roots : ∀ i ∈ t.roots s, motive i)
    (below : ∀ p, motive p → ∀ c ∈ t.children s p, motive c) : ∀ i ∈ t.preorder s, motive i :=
  forall_walkDown below roots

/-- A walk down meets every node from which the walk up ends, where nodes are listed with their
parents and parents exist on the side. -/
theorem mem_preorder_of_lineage
    (listed : ∀ {c p}, t.parent s c = some p → c ∈ t.children s p)
    (owner : ∀ {c p}, t.parent s c = some p → (t.node p).existsOn s) {i : Nat} (inside : i < t.size)
    (present : (t.node i).existsOn s) {chain : List Nat}
    (lineage : t.lineage? s i = some chain) : i ∈ t.preorder s := by
  induction chain generalizing i with
  | nil => cases (exists_lineage_cons lineage).choose_spec
  | cons j chain ih =>
      rcases climb?_cases lineage with ⟨unlinked, -⟩ | ⟨k, p, above, -, linked, higher, same⟩
      · exact mem_preorder_of_mem_roots (mem_roots.mpr ⟨inside, present, unlinked⟩)
      · obtain ⟨rfl, rfl⟩ := List.cons.inj same
        have child := listed linked
        exact mem_preorder_of_mem_children
          (ih (lt_size_of_mem_children child) (owner linked) (lineage?_of_climb? higher)) child

end Variability.Tree
