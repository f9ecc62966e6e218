import Variability.Proofs.Tree.Walk

/-!
The order of a walk down. Where the children of every node are listed so that everything below one
of them comes before the next, a walk down meets the nodes in the order of their positions.
-/

namespace Variability.Tree

/-- A node and everything below it on a side come before a position. -/
def Ahead (t : Tree) (s : Side) (i j : Nat) : Prop :=
  ∀ d, t.Above s d i → d < j

variable {t : Tree} {s : Side}

theorem Ahead.lt {i j : Nat} (ahead : t.Ahead s i j) : i < j :=
  ahead i .refl

theorem Ahead.of_parent {i j c : Nat} (ahead : t.Ahead s i j) (linked : t.parent s c = some i) :
    t.Ahead s c j :=
  fun d above => ahead d (above.tail linked)

theorem ParentsFirst.le_of_above (ordered : t.ParentsFirst) {d i : Nat} (above : t.Above s d i) :
    i ≤ d := by
  induction above with
  | refl => exact Nat.le_refl d
  | tail _ linked ih => exact Nat.le_trans (Nat.le_of_lt (ordered s _ _ linked)) ih

/-- The children of a node take its place on the stack, ahead of what was behind the node. -/
theorem pairwise_walkDown (ordered : t.ParentsFirst)
    (linked : ∀ p, ∀ c ∈ t.children s p, t.parent s c = some p)
    (siblings : ∀ p, (t.children s p).Pairwise (t.Ahead s)) {steps : Nat} {met : Marks}
    {stack : List Nat} (top : stack.Pairwise (t.Ahead s)) :
    (t.walkDown s steps met stack).Pairwise (· < ·) := by
  induction steps generalizing met stack with
  | zero => exact .nil
  | succ steps ih =>
      cases stack with
      | nil => exact .nil
      | cons i stack =>
          obtain ⟨ahead, rest⟩ := List.pairwise_cons.mp top
          rw [walkDown]
          split
          · exact ih rest
          · have child : ∀ c ∈ t.children s i, i < c := fun c member =>
              ordered s c i (linked i c member)
            refine List.pairwise_cons.mpr ⟨?_, ih ?_⟩
            · refine forall_walkDown (motive := (i < ·)) ?_ ?_
              · exact fun p later c member => Nat.lt_trans later (ordered s c p (linked p c member))
              · exact fun j member => (List.mem_append.mp member).elim (child j)
                  fun waiting => (ahead j waiting).lt
            · exact List.pairwise_append.mpr ⟨siblings i, rest, fun c member j waiting =>
                (ahead j waiting).of_parent (linked i c member)⟩

theorem pairwise_preorder (ordered : t.ParentsFirst)
    (linked : ∀ p, ∀ c ∈ t.children s p, t.parent s c = some p)
    (siblings : ∀ p, (t.children s p).Pairwise (t.Ahead s))
    (roots : (t.roots s).Pairwise (t.Ahead s)) : (t.preorder s).Pairwise (· < ·) :=
  pairwise_walkDown ordered linked siblings roots

end Variability.Tree
