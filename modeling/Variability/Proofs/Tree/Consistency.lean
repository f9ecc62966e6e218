import Mathlib.Data.Fintype.EquivFin
import Variability.Proofs.Tree.Flawless

/-!
What a well-formed tree is, said of its links as a whole. The checks look at one node after
another and follow parents up; together they accept exactly the well-formed trees. There a walk
down lists the nodes of a side, each once, and the parents of a node lead up to the root.
-/

namespace Variability.Tree

structure WellFormed (t : Tree) : Prop where
  oneRoot : t.shape = .tree → ∃! i, i < t.size ∧ (t.node i).kind = .root
  noRoot : t.shape = .graph → ∀ i < t.size, (t.node i).kind ≠ .root
  ids : ∀ i < t.size, ∀ j < t.size, (t.node i).id = (t.node j).id → i = j
  links : ∀ s, t.Interlinked s
  childless : ∀ s i, ¬ (t.node i).existsOn s → t.children s i = []
  owned : t.shape = .tree → ∀ s, ∀ i < t.size, (t.node i).existsOn s → (t.node i).kind ≠ .root →
    ∃ p, t.parent s i = some p
  acyclic : ∀ s i, ¬ Relation.TransGen (fun c p => t.parent s c = some p) i i

variable {t : Tree} {s : Side}

/-! Each check on its own. -/

theorem rootFlaw?_eq_none_iff_roots :
    t.rootFlaw? = none ↔
      (t.shape = .tree → ∃! i, i < t.size ∧ (t.node i).kind = .root) ∧
        (t.shape = .graph → ∀ i < t.size, (t.node i).kind ≠ .root) := by
  have member (i : Nat) : i ∈ t.positions (·.kind = .root) ↔ i < t.size ∧ (t.node i).kind = .root :=
    mem_positions.trans (by rw [decide_eq_true_eq])
  have one : (t.positions (·.kind = .root)).length = 1 ↔
      ∃! i, i < t.size ∧ (t.node i).kind = .root := by
    simp only [← member, List.length_eq_one_iff]
    constructor
    · rintro ⟨i, alone⟩
      rw [alone]
      exact ⟨i, by simp, by simp⟩
    · rintro ⟨i, root, only⟩
      refine ⟨i, List.Pairwise.eq_of_mem_iff ?_ (List.pairwise_singleton (· < ·) i) fun j => ?_⟩
      · rw [positions_eq]
        exact List.pairwise_lt_range.filter _
      · rw [List.mem_singleton]
        exact ⟨only j, fun same => same ▸ root⟩
  have none : t.positions (·.kind = .root) = [] ↔ ∀ i < t.size, (t.node i).kind ≠ .root := by
    simp only [List.eq_nil_iff_forall_not_mem, member, not_and]
  rw [rootFlaw?_eq_none_iff, one, none]

theorem idFlaw?_eq_none_iff_injective :
    t.idFlaw? = none ↔
      ∀ i < t.size, ∀ j < t.size, (t.node i).id = (t.node j).id → i = j := by
  rw [idFlaw?_eq_none_iff, nodes_toList, List.map_map, List.nodup_map_iff_inj_on List.nodup_range]
  simp only [List.mem_range, Function.comp_apply]

theorem idFlaw?_eq_none (ids : ∀ i < t.size, (t.node i).id = i) : t.idFlaw? = none :=
  idFlaw?_eq_none_iff_injective.mpr fun i inside j insideToo same => by
    rwa [ids i inside, ids j insideToo] at same

theorem cycleFlaw?_eq_none (ordered : t.ParentsFirst) : t.cycleFlaw? = none := by
  refine cycleFlaw?_eq_none_iff.mpr fun s i _ => ?_
  obtain ⟨chain, lineage⟩ := ordered.exists_lineage s i
  rw [lineage]
  rfl

/-- A walk up is shorter from every node above the first. -/
theorem exists_shorter_lineage {i j : Nat} {chain : List Nat}
    (above : Relation.TransGen (fun c p => t.parent s c = some p) i j)
    (lineage : t.lineage? s i = some chain) :
    ∃ rest, t.lineage? s j = some rest ∧ rest.length < chain.length := by
  have step {c p : Nat} {chain : List Nat} (linked : t.parent s c = some p)
      (lineage : t.lineage? s c = some chain) :
      ∃ rest, t.lineage? s p = some rest ∧ rest.length < chain.length := by
    rcases climb?_cases lineage with ⟨unlinked, -⟩ | ⟨k, q, rest, -, linked', higher, rfl⟩
    · rw [linked] at unlinked
      cases unlinked
    · obtain rfl := Option.some.inj (linked.symm.trans linked')
      exact ⟨rest, lineage?_of_climb? higher, by simp⟩
  induction above with
  | single linked => exact step linked lineage
  | tail _ linked ih =>
      obtain ⟨rest, lineage', shorter⟩ := ih
      obtain ⟨rest', lineage'', shorter'⟩ := step linked lineage'
      exact ⟨rest', lineage'', Nat.lt_trans shorter' shorter⟩

/-- Where no node is above itself, parents end: there are only so many nodes. -/
theorem isSome_lineage?_of_acyclic
    (acyclic : ∀ i, ¬ Relation.TransGen (fun c p => t.parent s c = some p) i i) {i : Nat}
    (inside : i < t.size) : (t.lineage? s i).isSome := by
  let above (p c : Fin t.size) : Prop :=
    Relation.TransGen (fun c p => t.parent s c = some p) c.val p.val
  have : IsTrans (Fin t.size) above := ⟨fun _ _ _ higher lower => lower.trans higher⟩
  have : Std.Irrefl above := ⟨fun j => acyclic j.val⟩
  have upward : WellFounded above := Finite.wellFounded_of_trans_of_irrefl above
  refine upward.induction (C := fun j => (t.lineage? s j.val).isSome) ⟨i, inside⟩ fun j ih => ?_
  cases linked : t.parent s j.val with
  | none => rw [lineage?_of_parent_none linked]; rfl
  | some p =>
      refine isSome_lineage?_of_parent linked ?_
      rcases Nat.lt_or_ge p t.size with inside | outside
      · exact ih ⟨p, inside⟩ (.single linked)
      · rw [lineage?_of_parent_none (parent_of_size_le outside s)]
        rfl

/-- Parents end from every node exactly when no node is above itself. -/
theorem cycleFlaw?_eq_none_iff_acyclic :
    t.cycleFlaw? = none ↔
      ∀ s i, ¬ Relation.TransGen (fun c p => t.parent s c = some p) i i := by
  rw [cycleFlaw?_eq_none_iff]
  refine ⟨fun ends s i cycle => ?_, fun acyclic s i => isSome_lineage?_of_acyclic (acyclic s)⟩
  obtain ⟨p, linked, -⟩ := Relation.TransGen.head'_iff.mp cycle
  obtain ⟨chain, lineage⟩ := Option.isSome_iff_exists.mp (ends s i (lt_size_of_parent linked))
  obtain ⟨rest, lineage', shorter⟩ := exists_shorter_lineage cycle lineage
  rw [lineage] at lineage'
  obtain rfl := Option.some.inj lineage'
  exact Nat.lt_irrefl _ shorter

/-- The checks accept the well-formed trees and no others. -/
theorem firstFlaw?_eq_none_iff_wellFormed : t.firstFlaw? = none ↔ t.WellFormed := by
  rw [firstFlaw?_eq_none_iff, rootFlaw?_eq_none_iff_roots, idFlaw?_eq_none_iff_injective,
    linkFlaw?_eq_none_iff_links, cycleFlaw?_eq_none_iff_acyclic]
  constructor
  · rintro ⟨⟨oneRoot, noRoot⟩, ids, ⟨links, owned⟩, acyclic⟩
    exact ⟨oneRoot, noRoot, ids, links, fun s _ => (links s).childless, owned, acyclic⟩
  · rintro ⟨oneRoot, noRoot, ids, links, -, owned, acyclic⟩
    exact ⟨⟨oneRoot, noRoot⟩, ids, ⟨links, owned⟩, acyclic⟩

/-! Walks over a well-formed tree. -/

theorem ancestorsFrom_of_climb? {steps more i : Nat} {above : List Nat}
    (ends : t.climb? s steps i = some (i :: above)) (enough : steps ≤ more) :
    t.ancestorsFrom s more (t.parent s i) = above := by
  induction steps generalizing i above more with
  | zero =>
      rcases climb?_cases ends with ⟨unlinked, same⟩ | ⟨k, p, higher, impossible, -⟩
      · obtain rfl := (List.cons.inj same).2
        rw [unlinked, ancestorsFrom]
      · cases impossible
  | succ steps ih =>
      rcases climb?_cases ends with ⟨unlinked, same⟩ | ⟨k, p, higher, same, linked, ends', chain⟩
      · obtain rfl := (List.cons.inj same).2
        rw [unlinked, ancestorsFrom]
      · obtain rfl := Nat.succ.inj same
        obtain rfl := (List.cons.inj chain).2
        obtain ⟨rest, rfl⟩ := exists_cons_of_climb? ends'
        obtain ⟨more, rfl⟩ : ∃ k, more = k + 1 := ⟨more - 1, by omega⟩
        rw [linked, ancestorsFrom, ih ends' (by omega)]

theorem ancestors_of_lineage {i : Nat} {above : List Nat}
    (lineage : t.lineage? s i = some (i :: above)) : t.ancestors s i = above :=
  ancestorsFrom_of_climb? lineage (Nat.le_refl _)

/-- A walk up ends at a node without a parent. -/
theorem exists_top_of_climb? {steps i : Nat} {chain : List Nat}
    (ends : t.climb? s steps i = some chain) :
    ∃ r, chain.getLast? = some r ∧ t.Above s i r ∧ t.parent s r = none := by
  induction steps generalizing i chain with
  | zero =>
      rcases climb?_cases ends with ⟨unlinked, rfl⟩ | ⟨k, p, above, impossible, -⟩
      · exact ⟨i, rfl, .refl, unlinked⟩
      · cases impossible
  | succ steps ih =>
      rcases climb?_cases ends with ⟨unlinked, rfl⟩ | ⟨k, p, above, same, linked, higher, rfl⟩
      · exact ⟨i, rfl, .refl, unlinked⟩
      · obtain rfl := Nat.succ.inj same
        obtain ⟨r, last, up, top⟩ := ih higher
        refine ⟨r, ?_, .head linked up, top⟩
        rw [List.getLast?_cons, last]
        rfl

namespace WellFormed

variable (wellFormed : t.WellFormed)
include wellFormed

theorem exists_lineage {i : Nat} (inside : i < t.size) : ∃ chain, t.lineage? s i = some chain :=
  Option.isSome_iff_exists.mp (isSome_lineage?_of_acyclic (wellFormed.acyclic s) inside)

theorem mem_preorder {i : Nat} : i ∈ t.preorder s ↔ i < t.size ∧ (t.node i).existsOn s := by
  have links := wellFormed.links s
  refine ⟨fun member => ?_, fun ⟨inside, present⟩ => ?_⟩
  · refine forall_preorder (motive := fun i => i < t.size ∧ (t.node i).existsOn s) ?_ ?_ i member
    · intro r root
      obtain ⟨inside, present, -⟩ := mem_roots.mp root
      exact ⟨inside, present⟩
    · intro p _ c child
      exact ⟨links.child_lt child, links.present (links.inverse.mp child)⟩
  · obtain ⟨chain, lineage⟩ := wellFormed.exists_lineage (s := s) inside
    exact mem_preorder_of_lineage links.inverse.mpr links.owner inside present lineage

theorem ancestors_end_in_root (tree : t.shape = .tree) {i : Nat} (inside : i < t.size)
    (present : (t.node i).existsOn s) (line : (t.node i).kind ≠ .root) :
    ∃ r, (t.ancestors s i).getLast? = some r ∧ (t.node r).kind = .root := by
  have links := wellFormed.links s
  obtain ⟨chain, lineage⟩ := wellFormed.exists_lineage (s := s) inside
  obtain ⟨p, linked⟩ := wellFormed.owned tree s i inside present line
  rcases climb?_cases lineage with ⟨unlinked, -⟩ | ⟨k, q, above, -, -, higher, rfl⟩
  · rw [linked] at unlinked
    cases unlinked
  · obtain ⟨r, last, up, top⟩ := exists_top_of_climb? lineage
    obtain ⟨c, lower⟩ : ∃ c, t.parent s c = some r := by
      rcases Relation.ReflTransGen.cases_tail up with rfl | ⟨c, -, lower⟩
      · rw [linked] at top
        cases top
      · exact ⟨c, lower⟩
    refine ⟨r, ?_, not_not.mp fun noRoot => ?_⟩
    · obtain ⟨rest, rfl⟩ := exists_cons_of_climb? higher
      rw [ancestors_of_lineage lineage]
      rwa [List.getLast?_cons_cons] at last
    · obtain ⟨higher, linked⟩ :=
        wellFormed.owned tree s r (links.parent_lt lower) (links.owner lower) noRoot
      rw [top] at linked
      cases linked

end WellFormed

/-- The checks decide whether a tree is well formed. In a tree that they accept, a walk down lists
exactly the nodes of its side, each once, and in tree shape the nodes above a node end in a root. -/
theorem wellFormed_decided (t : Tree) :
    (t.firstFlaw? = none ↔ t.WellFormed) ∧
      (t.firstFlaw? = none → ∀ s,
        ((t.preorder s).Nodup ∧ ∀ i, i ∈ t.preorder s ↔ i < t.size ∧ (t.node i).existsOn s) ∧
          (t.shape = .tree → ∀ i < t.size, (t.node i).existsOn s → (t.node i).kind ≠ .root →
            ∃ r, (t.ancestors s i).getLast? = some r ∧ (t.node r).kind = .root)) := by
  refine ⟨firstFlaw?_eq_none_iff_wellFormed, fun flawless s => ?_⟩
  have wellFormed := firstFlaw?_eq_none_iff_wellFormed.mp flawless
  refine ⟨⟨nodup_preorder fun _ _ => (wellFormed.links s).child_lt, fun i =>
    wellFormed.mem_preorder⟩, fun tree i inside present line => ?_⟩
  exact wellFormed.ancestors_end_in_root tree inside present line

/-- A parent may stand behind its child. -/
theorem wellFormed_decided_backward :
    ∃ t : Tree, t.WellFormed ∧ t.preorder .after = [0, 2, 1] ∧
      (∀ i, i ∈ t.preorder .after ↔ i < t.size ∧ (t.node i).existsOn .after) ∧
      ∃ r, (t.ancestors .after 1).getLast? = some r ∧ (t.node r).kind = .root := by
  let nodes := ((singleton ⟨"f", "c", none⟩).push (.fresh 1 .code .added "x")).push
    (.fresh 2 .ifBranch .kept "A")
  let t := ((nodes.addEdge .after 2 1).addEdge .before 0 2).addEdge .after 0 2
  have flawless : t.firstFlaw? = none := by decide +kernel
  obtain ⟨decides, walks⟩ := wellFormed_decided t
  obtain ⟨⟨-, listed⟩, rooted⟩ := walks flawless .after
  exact ⟨t, decides.mp flawless, by decide +kernel, listed,
    rooted rfl 1 (by decide +kernel) (by decide +kernel) (by decide +kernel)⟩

end Variability.Tree
