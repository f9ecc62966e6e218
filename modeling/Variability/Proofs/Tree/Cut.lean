import Variability.Proofs.Tree.Embedding
import Variability.Proofs.Tree.Marks

/-!
Conditions in a cut tree. Everything above a node that stays does stay as well, so the cut leaves
lineages whole; what can be missing are branches beside them.
-/

namespace Variability.Tree

/-- The place of a node once unedited subtrees are cut. -/
def cutPlace? (t : Tree) (i : Nat) : Option Nat :=
  t.place? (fun i _ => t.editedMarks.has i) i

/-- The branches that come before some nodes and that the cut drops. -/
def droppedRivals (t : Tree) (s : Side) (nodes : List Nat) : List Nat :=
  (nodes.flatMap (t.rivals s)).filter (!t.editedMarks.has ·)

/-- After the cut, a branch that comes before a node of a list came before it already. -/
def OwnRivals (t : Tree) (s : Side) (nodes : List Nat) : Prop :=
  ∀ i ∈ nodes, ∀ j, t.cutPlace? i = some j →
    ∀ c ∈ t.cutUnedited.rivals s j, ∃ b ∈ t.rivals s i, t.cutPlace? b = some c

variable {t : Tree}

theorem embeds_cut (t : Tree) : t.Embeds t.cutUnedited t.cutPlace? :=
  t.embeds_restrict fun i _ => t.editedMarks.has i

theorem bare_cut {i j : Nat} (placed : t.cutPlace? i = some j) :
    (t.cutUnedited.node j).bare = (t.node i).bare := by
  rw [cutUnedited]
  exact bare_restrict placed

theorem id_cut {i j : Nat} (placed : t.cutPlace? i = some j) :
    (t.cutUnedited.node j).id = (t.node i).id := by
  rw [← Node.bare_id, bare_cut placed, Node.bare_id]

theorem lt_size_of_cutPlace? {i j : Nat} (placed : t.cutPlace? i = some j) :
    i < t.size ∧ j < t.cutUnedited.size := by
  obtain ⟨here, rfl⟩ := place?_eq_some_iff.mp placed
  have inside := here
  simp only [stays, Bool.and_eq_true, decide_eq_true_eq] at inside
  refine ⟨inside.1, ?_⟩
  rw [cutUnedited, size_restrict]
  exact rank_lt here inside.1

theorem existsOn_cut {s : Side} {nodes : List Nat} (present : ∀ i ∈ nodes, (t.node i).existsOn s) :
    ∀ j ∈ nodes.filterMap t.cutPlace?, (t.cutUnedited.node j).existsOn s := by
  intro j member
  obtain ⟨i, member, placed⟩ := List.mem_filterMap.mp member
  rw [t.embeds_cut.existsOn placed]
  exact present i member

theorem droppedRivals_cons (t : Tree) (s : Side) (i : Nat) (nodes : List Nat) :
    t.droppedRivals s (i :: nodes) =
      (t.rivals s i).filter (!t.editedMarks.has ·) ++ t.droppedRivals s nodes := by
  rw [droppedRivals, droppedRivals, List.flatMap_cons, List.filter_append]

theorem mem_droppedRivals {s : Side} {nodes : List Nat} {b : Nat} :
    b ∈ t.droppedRivals s nodes ↔ (∃ i ∈ nodes, b ∈ t.rivals s i) ∧ ¬ t.editedMarks.has b := by
  simp [droppedRivals, List.mem_flatMap]

namespace Grounded

variable (grounded : t.Grounded)
include grounded

theorem isSome_cutPlace? (i : Nat) : (t.cutPlace? i).isSome = t.editedMarks.has i := by
  rw [cutPlace?, isSome_place?, stays]
  cases marked : t.editedMarks.has i with
  | false => rw [Bool.and_false]
  | true =>
      have inside := Marks.lt_size_of_has marked
      rw [grounded.upward_editedMarks.size] at inside
      rw [Bool.and_true, decide_eq_true inside]

theorem isSome_cutPlace?_of_parent {s : Side} {i j p : Nat} (placed : t.cutPlace? i = some j)
    (parent : t.parent s i = some p) : (t.cutPlace? p).isSome := by
  have marked := grounded.isSome_cutPlace? i
  rw [placed, Option.isSome_some] at marked
  rw [grounded.isSome_cutPlace?]
  exact grounded.upward_editedMarks.parents marked.symm parent

end Grounded

namespace Linked

variable (linked : t.Linked)
include linked

theorem isSome_cutPlace?_of_mem_lineage {s : Side} {i : Nat} {chain : List Nat}
    (lineage : t.lineage? s i = some chain) (stays : (t.cutPlace? i).isSome) :
    ∀ k ∈ chain, (t.cutPlace? k).isSome := by
  induction chain generalizing i with
  | nil => simp
  | cons k above ih =>
      obtain ⟨rest, same⟩ := exists_lineage_cons lineage
      obtain ⟨rfl, rfl⟩ := List.cons.inj same
      intro l member
      rcases List.mem_cons.mp member with rfl | higher
      · exact stays
      · cases above with
        | nil => cases higher
        | cons p above =>
            obtain ⟨parent, lineageAbove⟩ := linked.ordered.parent_of_lineage lineage
            obtain ⟨j, placed⟩ := Option.isSome_iff_exists.mp stays
            exact ih lineageAbove (linked.grounded.isSome_cutPlace?_of_parent placed parent) l
              higher

theorem ordered_cut : t.cutUnedited.ParentsFirst :=
  linked.ordered.restrict fun i _ => t.editedMarks.has i

theorem lineage?_cut {s : Side} {i j : Nat} {chain : List Nat}
    (lineage : t.lineage? s i = some chain) (placed : t.cutPlace? i = some j) :
    t.cutUnedited.lineage? s j = some (chain.filterMap t.cutPlace?) :=
  (t.embeds_cut.onSide s).lineage?_of_forall linked.ordered linked.ordered_cut placed lineage
    (linked.isSome_cutPlace?_of_mem_lineage lineage (by rw [placed, Option.isSome_some]))

theorem unmoved_cut {i j : Nat} (placed : t.cutPlace? i = some j) :
    t.cutUnedited.unmoved j = t.unmoved i :=
  t.embeds_cut.unmoved linked.ordered linked.ordered_cut lt_size_of_cutPlace?
    linked.grounded.isSome_cutPlace?_of_parent placed

theorem rivals_cut {s : Side} {i j : Nat} (placed : t.cutPlace? i = some j)
    (opening : ((t.node i).kind = .elifBranch ∨ (t.node i).kind = .elseBranch) →
      ∃ b ∈ t.rivals s i, (t.node b).kind = .ifBranch)
    (kept : ∀ b ∈ t.rivals s i, (t.node b).kind = .ifBranch → t.editedMarks.has b) :
    t.cutUnedited.rivals s j = (t.rivals s i).filterMap t.cutPlace? := by
  refine (t.embeds_cut.onSide s).rivals placed
    (fun p parent => linked.grounded.isSome_cutPlace?_of_parent placed parent) fun further => ?_
  obtain ⟨b, member, opens⟩ := opening further
  refine ⟨b, member, opens, ?_⟩
  rw [linked.grounded.isSome_cutPlace?]
  exact kept b member opens

theorem all_admits_cut {s : Side} {chain : List Nat}
    (stay : ∀ i ∈ chain, (t.cutPlace? i).isSome) (own : t.OwnRivals s chain)
    (env : String → Bool) :
    chain.all (t.admits env s) =
      ((chain.filterMap t.cutPlace?).all (t.cutUnedited.admits env s) &&
        (t.droppedRivals s chain).all (!t.holds env ·)) := by
  induction chain with
  | nil => rfl
  | cons i chain ih =>
      have rest := ih (fun k member => stay k (by simp [member]))
        fun k member => own k (by simp [member])
      obtain ⟨j, placed⟩ := Option.isSome_iff_exists.mp (stay i (by simp))
      have rivals (c : Nat) :
          c ∈ t.cutUnedited.rivals s j ↔ ∃ b ∈ t.rivals s i, t.cutPlace? b = some c :=
        ⟨own i (by simp) j placed c, fun ⟨b, member, placedRival⟩ =>
          (t.embeds_cut.onSide s).mem_rivals placed
            (fun p parent => linked.grounded.isSome_cutPlace?_of_parent placed parent) member
            placedRival⟩
      have parts : (t.rivals s i).all (!t.holds env ·) =
          (((t.rivals s i).filter (t.cutPlace? · |>.isSome)).all (!t.holds env ·) &&
            ((t.rivals s i).filter (!t.editedMarks.has ·)).all (!t.holds env ·)) := by
        simp only [linked.grounded.isSome_cutPlace?]
        rw [Bool.eq_iff_iff]
        simp only [Bool.and_eq_true, List.all_eq_true, List.mem_filter]
        constructor
        · intro all
          exact ⟨fun b member => all b member.1, fun b member => all b member.1⟩
        · rintro ⟨stay, gone⟩ b member
          cases marked : t.editedMarks.has b with
          | true => exact stay b ⟨member, marked⟩
          | false => exact gone b ⟨member, by rw [marked]; rfl⟩
      rw [List.all_cons, rest, List.filterMap_cons_some placed, List.all_cons, droppedRivals_cons,
        List.all_append, (t.embeds_cut.onSide s).admits placed rivals, Tree.admits, parts]
      simp only [Bool.and_assoc, Bool.and_left_comm]

theorem conditionAlong_cut (guarded : t.Guarded) {s : Side} {chain : List Nat}
    (present : ∀ i ∈ chain, (t.node i).existsOn s)
    (stay : ∀ i ∈ chain, (t.cutPlace? i).isSome)
    (rivals : ∀ i ∈ chain, ∀ j, t.cutPlace? i = some j →
      t.cutUnedited.rivals s j = (t.rivals s i).filterMap t.cutPlace?)
    (none : t.droppedRivals s chain = []) :
    t.cutUnedited.conditionAlong s (chain.filterMap t.cutPlace?) = t.conditionAlong s chain := by
  refine conditionAlong_filterMap stay fun i member j placed => ?_
  refine (t.embeds_cut.onSide s).featureMapping guarded placed (present i member)
    (rivals i member j placed) fun b rival => ?_
  rw [linked.grounded.isSome_cutPlace?]
  cases marked : t.editedMarks.has b with
  | true => rfl
  | false =>
      have dropped : b ∈ t.droppedRivals s chain :=
        mem_droppedRivals.mpr ⟨⟨i, member, rival⟩, by simp [marked]⟩
      rw [none] at dropped
      cases dropped

end Linked

end Variability.Tree
