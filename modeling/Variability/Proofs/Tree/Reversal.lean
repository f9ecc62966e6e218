import Variability.Presence
import Variability.Proofs.Tree.Flawless

/-!
Trees of edits that are taken back. Added nodes become removed ones, before becomes after, and
nothing else changes; so what is said of a side is then said of the other one.
-/

namespace Variability

/-- What taking an edit back does to a line. -/
def Edit.opposite : Edit → Edit
  | added => removed
  | removed => added
  | kept => kept

@[simp] theorem Edit.opposite_opposite (e : Edit) : e.opposite.opposite = e := by
  cases e <;> rfl

theorem Edit.opposite_inj {e f : Edit} : e.opposite = f.opposite ↔ e = f := by
  cases e <;> cases f <;> decide

@[simp] theorem Edit.existsOn_opposite (e : Edit) (s : Side) :
    e.opposite.existsOn s = e.existsOn s.other := by
  cases e <;> cases s <;> rfl

@[simp] theorem Side.before_other : Side.before.other = .after := rfl

@[simp] theorem Side.after_other : Side.after.other = .before := rfl

def PresenceError.reversed : PresenceError → PresenceError
  | absentOnSide id side => absentOnSide id side.other
  | missingCondition id => missingCondition id
  | cycle id side => cycle id side.other

@[simp] theorem PresenceError.reversed_reversed (e : PresenceError) : e.reversed.reversed = e := by
  cases e <;> simp [reversed]

namespace Node

def reversed (n : Node) : Node :=
  { n with edit := n.edit.opposite, before := n.after, after := n.before }

variable (n : Node) (s : Side)

@[simp] theorem reversed_reversed : n.reversed.reversed = n := by
  simp [reversed]

@[simp] theorem id_reversed : n.reversed.id = n.id := rfl

@[simp] theorem kind_reversed : n.reversed.kind = n.kind := rfl

@[simp] theorem edit_reversed : n.reversed.edit = n.edit.opposite := rfl

@[simp] theorem guard_reversed : n.reversed.guard = n.guard := rfl

theorem bare_reversed : n.reversed.bare = n.bare.reversed := rfl

@[simp] theorem existsOn_reversed : n.reversed.existsOn s = n.existsOn s.other := by
  rw [existsOn, existsOn, edit_reversed, Edit.existsOn_opposite]
  rfl

@[simp] theorem parent_reversed : n.reversed.parent s = n.parent s.other := by
  cases s <;> rfl

@[simp] theorem children_reversed : n.reversed.children s = n.children s.other := by
  cases s <;> rfl

end Node

namespace Tree

/-- The tree of the edit that takes an edit back. -/
def reversed (t : Tree) : Tree :=
  t.mapNodes Node.reversed

variable (t : Tree) (s : Side)

@[simp] theorem reversed_reversed : t.reversed.reversed = t := by
  have both : Node.reversed ∘ Node.reversed = id := funext Node.reversed_reversed
  rw [reversed, reversed, mapNodes_mapNodes, both]
  simp [mapNodes]

@[simp] theorem size_reversed : t.reversed.size = t.size :=
  size_mapNodes _ t

@[simp] theorem node_reversed (i : Nat) : t.reversed.node i = (t.node i).reversed := by
  rcases Nat.lt_or_ge i t.size with inside | outside
  · exact node_mapNodes_of_lt inside Node.reversed
  · rw [node_of_size_le outside, node_of_size_le (by rwa [size_reversed])]
    rfl

@[simp] theorem parent_reversed (i : Nat) : t.reversed.parent s i = t.parent s.other i := by
  rw [parent, node_reversed, Node.parent_reversed, ← parent]

@[simp] theorem children_reversed (i : Nat) : t.reversed.children s i = t.children s.other i := by
  rw [children, node_reversed, Node.children_reversed, ← children]

theorem codeNodes_reversed : t.reversed.codeNodes = t.codeNodes := by
  simp [codeNodes, positions_eq]

theorem lineage?_reversed (i : Nat) : t.reversed.lineage? s i = t.lineage? s.other i := by
  rw [lineage?, lineage?, size_reversed]
  exact climb?_congr (fun j => t.parent_reversed s j) _ i

theorem unmovedWithin_reversed (steps i : Nat) :
    t.reversed.unmovedWithin steps i = t.unmovedWithin steps i := by
  induction steps generalizing i with
  | zero => rfl
  | succ steps ih =>
      rw [unmovedWithin, unmovedWithin, parent_reversed, parent_reversed, Side.before_other,
        Side.after_other]
      by_cases same : t.parent .before i = t.parent .after i
      · simp only [← same, if_true, ih]
      · rw [if_neg same, if_neg (Ne.symm same)]

theorem unmoved_reversed (i : Nat) : t.reversed.unmoved i = t.unmoved i := by
  rw [unmoved, unmoved, size_reversed, unmovedWithin_reversed]

theorem branchRun_reversed (siblings : List Nat) :
    t.reversed.branchRun siblings = t.branchRun siblings := by
  induction siblings with
  | nil => rfl
  | cons j siblings ih => simp [branchRun, ih]

theorem earlierBranches_reversed (i : Nat) :
    t.reversed.earlierBranches s i = t.earlierBranches s.other i := by
  simp [earlierBranches, branchRun_reversed]

/-! A failed look for a guard names no side, so it stays the same failure. -/

theorem guard_reversed (i : Nat) :
    t.reversed.guard i = (t.guard i).mapError PresenceError.reversed := by
  unfold guard
  rw [node_reversed, Node.guard_reversed]
  cases (t.node i).guard <;> rfl

theorem negatedGuards_reversed (nodes : List Nat) :
    t.reversed.negatedGuards nodes = (t.negatedGuards nodes).mapError PresenceError.reversed := by
  induction nodes with
  | nil => rfl
  | cons j nodes ih =>
      rw [negatedGuards, negatedGuards, guard_reversed, ih]
      cases t.guard j with
      | error e => rfl
      | ok g => cases t.negatedGuards nodes <;> rfl

theorem featureMapping_reversed (i : Nat) :
    t.reversed.featureMapping s i =
      (t.featureMapping s.other i).mapError PresenceError.reversed := by
  simp only [featureMapping, node_reversed, Node.existsOn_reversed, Node.kind_reversed,
    Node.id_reversed, guard_reversed, negatedGuards_reversed, earlierBranches_reversed]
  split
  · simp [Except.mapError, PresenceError.reversed]
  · cases (t.node i).kind with
    | root | code | endif => rfl
    | ifBranch => rfl
    | elifBranch =>
        cases t.guard i with
        | error e => rfl
        | ok g => cases t.negatedGuards (t.earlierBranches s.other i) <;> rfl
    | elseBranch => cases t.negatedGuards (t.earlierBranches s.other i) <;> rfl

theorem conditionAlong_reversed (chain : List Nat) :
    t.reversed.conditionAlong s chain =
      (t.conditionAlong s.other chain).mapError PresenceError.reversed := by
  induction chain with
  | nil => rfl
  | cons i above ih =>
      rw [conditionAlong, conditionAlong, ih, featureMapping_reversed]
      cases t.conditionAlong s.other above with
      | error e => rfl
      | ok inherited => cases t.featureMapping s.other i <;> rfl

theorem presenceCondition_reversed (i : Nat) :
    t.reversed.presenceCondition s i =
      (t.presenceCondition s.other i).mapError PresenceError.reversed := by
  rw [presenceCondition, presenceCondition, lineage?_reversed]
  cases t.lineage? s.other i with
  | none => simp [Except.mapError, PresenceError.reversed]
  | some chain => exact t.conditionAlong_reversed s chain

end Tree

end Variability
