import Variability.Proofs.Tree.Consistency
import Variability.Proofs.Tree.Embedding

/-!
Trees that differ in the order of children. Who is whose child is the same in both, and with it all
that never asks which of two siblings comes first: being well formed, lineages, and the presence
conditions of nodes above which the branches of every conditional stand in order.
-/

namespace Variability.Tree

/-- The same nodes with the same parents and children, the children in the order of the array. -/
structure Arranged (t u : Tree) : Prop where
  shape : u.shape = t.shape
  size : u.size = t.size
  bare : ∀ i, (u.node i).bare = (t.node i).bare
  parent : ∀ s i, u.parent s i = t.parent s i
  children : ∀ s i, (u.children s i).Perm (t.children s i)
  ordered : ∀ s i, (u.children s i).Pairwise (· < ·)

/-- Every `elif` and `else` branch above a node, and the node itself, stands among siblings in the
order of the array. -/
def Aligned (t : Tree) (s : Side) (i : Nat) : Prop :=
  ∀ chain, t.lineage? s i = some chain → ∀ k ∈ chain,
    (t.node k).kind = .elifBranch ∨ (t.node k).kind = .elseBranch →
      ∀ p, t.parent s k = some p → (t.children s p).Pairwise (· < ·)

namespace Arranged

variable {t u : Tree} (arranged : t.Arranged u)
include arranged

theorem kind (i : Nat) : (u.node i).kind = (t.node i).kind := by
  rw [← Node.bare_kind, arranged.bare, Node.bare_kind]

theorem id (i : Nat) : (u.node i).id = (t.node i).id := by
  rw [← Node.bare_id, arranged.bare, Node.bare_id]

theorem existsOn (s : Side) (i : Nat) : (u.node i).existsOn s = (t.node i).existsOn s :=
  Node.existsOn_of_bare_eq (arranged.bare i) s

theorem guard (i : Nat) : u.guard i = t.guard i := by
  have same : (u.node i).guard = (t.node i).guard := by
    rw [← Node.bare_guard, arranged.bare, Node.bare_guard]
  rw [Tree.guard, Tree.guard, same, arranged.id]

theorem mem_children {s : Side} {i c : Nat} : c ∈ u.children s i ↔ c ∈ t.children s i :=
  (arranged.children s i).mem_iff

theorem children_eq {s : Side} {i : Nat} (ordered : (t.children s i).Pairwise (· < ·)) :
    u.children s i = t.children s i :=
  (arranged.ordered s i).eq_of_mem_iff ordered fun _ => arranged.mem_children

theorem eq_iff (source : u.source = t.source) :
    u = t ↔ ∀ s i, (t.children s i).Pairwise (· < ·) := by
  constructor
  · rintro rfl
    exact arranged.ordered
  · intro ordered
    exact ext_views arranged.size arranged.shape source arranged.bare arranged.parent
      fun s i => arranged.children_eq (ordered s i)

theorem interlinked {s : Side} (links : t.Interlinked s) : u.Interlinked s where
  inverse := by
    intro p c
    rw [arranged.mem_children, arranged.parent]
    exact links.inverse
  once := fun p => (arranged.children s p).nodup_iff.mpr (links.once p)
  top := by
    intro i root
    rw [arranged.kind] at root
    rw [arranged.parent]
    exact links.top root
  present := by
    intro c p linked
    rw [arranged.parent] at linked
    rw [arranged.existsOn]
    exact links.present linked
  owner := by
    intro c p linked
    rw [arranged.parent] at linked
    rw [arranged.existsOn]
    exact links.owner linked
  scope := by
    intro c p linked
    rw [arranged.parent] at linked
    rw [arranged.kind]
    exact links.scope linked

theorem wellFormed (formed : t.WellFormed) : u.WellFormed where
  oneRoot := by
    simp only [arranged.shape, arranged.size, arranged.kind]
    exact formed.oneRoot
  noRoot := by
    simp only [arranged.shape, arranged.size, arranged.kind]
    exact formed.noRoot
  ids := by
    simp only [arranged.size, arranged.id]
    exact formed.ids
  links := fun s => arranged.interlinked (formed.links s)
  childless := fun s _ => (arranged.interlinked (formed.links s)).childless
  owned := by
    simp only [arranged.shape, arranged.size, arranged.kind, arranged.existsOn, arranged.parent]
    exact formed.owned
  acyclic := by
    simp only [arranged.parent]
    exact formed.acyclic

theorem firstFlaw?_eq_none (flawless : t.firstFlaw? = none) : u.firstFlaw? = none :=
  firstFlaw?_eq_none_iff_wellFormed.mpr
    (arranged.wellFormed (firstFlaw?_eq_none_iff_wellFormed.mp flawless))

/-! Conditions. -/

theorem lineage? (s : Side) (i : Nat) : u.lineage? s i = t.lineage? s i := by
  rw [Tree.lineage?, Tree.lineage?, arranged.size]
  exact climb?_congr (arranged.parent s) t.size i

theorem branchRun (nodes : List Nat) : u.branchRun nodes = t.branchRun nodes := by
  induction nodes with
  | nil => rfl
  | cons i nodes ih => rw [Tree.branchRun, Tree.branchRun, arranged.kind, ih]

theorem negatedGuards (nodes : List Nat) : u.negatedGuards nodes = t.negatedGuards nodes := by
  induction nodes with
  | nil => rfl
  | cons i nodes ih => rw [Tree.negatedGuards, Tree.negatedGuards, arranged.guard, ih]

theorem earlierBranches {s : Side} {i : Nat}
    (ordered : ∀ p, t.parent s i = some p → (t.children s p).Pairwise (· < ·)) :
    u.earlierBranches s i = t.earlierBranches s i := by
  rw [Tree.earlierBranches, Tree.earlierBranches, arranged.parent]
  cases linked : t.parent s i with
  | none => rfl
  | some p => simp only [arranged.children_eq (ordered p linked), arranged.branchRun]

theorem featureMapping {s : Side} {i : Nat}
    (ordered : (t.node i).kind = .elifBranch ∨ (t.node i).kind = .elseBranch →
      ∀ p, t.parent s i = some p → (t.children s p).Pairwise (· < ·)) :
    u.featureMapping s i = t.featureMapping s i := by
  rw [Tree.featureMapping, Tree.featureMapping]
  simp only [arranged.existsOn, arranged.id, arranged.kind]
  cases kind : (t.node i).kind with
  | root | code | endif => rfl
  | ifBranch => simp only [arranged.guard]
  | elifBranch =>
      simp only [arranged.guard, arranged.earlierBranches (ordered (.inl kind)),
        arranged.negatedGuards]
  | elseBranch =>
      simp only [arranged.earlierBranches (ordered (.inr kind)), arranged.negatedGuards]

theorem presenceCondition {s : Side} {i : Nat} (aligned : t.Aligned s i) :
    u.presenceCondition s i = t.presenceCondition s i := by
  rw [Tree.presenceCondition, Tree.presenceCondition, arranged.lineage?, arranged.id]
  cases lineage : t.lineage? s i with
  | none => rfl
  | some chain =>
      have along := @conditionAlong_filterMap t u s s some chain (fun _ _ => rfl) (by
        intro k member l same
        obtain rfl := Option.some.inj same
        exact arranged.featureMapping (aligned chain lineage k member))
      rwa [List.filterMap_some] at along

end Arranged

end Variability.Tree
