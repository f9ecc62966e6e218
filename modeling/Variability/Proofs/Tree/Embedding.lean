import Variability.Proofs.Presence.Meaning
import Variability.Proofs.Tree.Ascent
import Variability.Proofs.Tree.Restriction

/-!
Trees inside other trees. Some nodes of a tree have a place in another one, in the same order, with
the same content, and with the links among them. What a node admits then depends on which branches
before it have a place. Most of this needs only one side of each tree, and not the same one.
-/

namespace Variability

namespace Tree

/-- Nodes of a tree have places in another tree. -/
structure Embeds (t t' : Tree) (place : Nat → Option Nat) : Prop where
  ordered : ∀ {i j k l : Nat}, place i = some k → place j = some l → i < j → k < l
  content : ∀ {i j : Nat}, place i = some j → (t'.node j).content = (t.node i).content
  parent : ∀ {i j : Nat}, place i = some j → ∀ s, t'.parent s j = (t.parent s i).bind place
  children : ∀ {i j : Nat}, place i = some j → ∀ s,
    t'.children s j = (t.children s i).filterMap place

/-- Nodes of a tree, as one side has them, have places in another tree, as a side has that one. -/
structure SideEmbeds (t : Tree) (s : Side) (t' : Tree) (d : Side) (place : Nat → Option Nat) :
    Prop where
  ordered : ∀ {i j k l : Nat}, place i = some k → place j = some l → i < j → k < l
  kind : ∀ {i j : Nat}, place i = some j → (t'.node j).kind = (t.node i).kind
  guard : ∀ {i j : Nat}, place i = some j → (t'.node j).guard = (t.node i).guard
  existsOn : ∀ {i j : Nat}, place i = some j → (t'.node j).existsOn d = (t.node i).existsOn s
  parent : ∀ {i j : Nat}, place i = some j → t'.parent d j = (t.parent s i).bind place
  children : ∀ {i j : Nat}, place i = some j → t'.children d j = (t.children s i).filterMap place

theorem place?_lt {t : Tree} {keep : Nat → Node → Bool} {i j k l : Nat}
    (placed : t.place? keep i = some k) (placedToo : t.place? keep j = some l) (below : i < j) :
    k < l := by
  rw [place?_eq_some_iff] at placed placedToo
  rw [← placed.2, ← placedToo.2]
  exact rank_lt placed.1 below

theorem embeds_restrict (t : Tree) (keep : Nat → Node → Bool) :
    t.Embeds (t.restrict keep) (t.place? keep) where
  ordered := place?_lt
  content := by
    intro i j placed
    obtain ⟨stays, rfl⟩ := place?_eq_some_iff.mp placed
    rw [node_restrict t keep stays]
    rfl
  parent := by
    intro i j placed s
    obtain ⟨stays, rfl⟩ := place?_eq_some_iff.mp placed
    rw [parent, node_restrict t keep stays, Node.parent_rename]
    rfl
  children := by
    intro i j placed s
    obtain ⟨stays, rfl⟩ := place?_eq_some_iff.mp placed
    rw [children, node_restrict t keep stays, Node.children_rename]
    rfl

/-- The nodes of a part that pass a test are those of the whole that stay. -/
theorem positions_restrict {t : Tree} {keep : Nat → Node → Bool} {test : Node → Bool}
    (same : ∀ i j, t.place? keep i = some j → test ((t.restrict keep).node j) = test (t.node i)) :
    (t.restrict keep).positions test = (t.positions test).filterMap (t.place? keep) := by
  rw [positions_eq, positions_eq, size_restrict, ← filterMap_place?, List.filter_filterMap,
    List.filterMap_filter]
  refine List.filterMap_congr fun i _ => ?_
  cases placed : t.place? keep i with
  | none => simp
  | some j =>
      rw [Option.filter_some, same i j placed]

theorem ParentsFirst.restrict {t : Tree} (ordered : t.ParentsFirst) (keep : Nat → Node → Bool) :
    (t.restrict keep).ParentsFirst := by
  intro s j q linked
  obtain ⟨i, placed⟩ := t.exists_place_restrict keep (lt_size_of_parent linked)
  rw [(t.embeds_restrict keep).parent placed] at linked
  obtain ⟨p, above, placedAbove⟩ := Option.bind_eq_some_iff.mp linked
  exact (t.embeds_restrict keep).ordered placedAbove placed (ordered s i p above)

namespace SideEmbeds

variable {t t' : Tree} {s d : Side} {place : Nat → Option Nat}
  (embeds : t.SideEmbeds s t' d place)
include embeds

theorem injective {i j k : Nat} (placed : place i = some k) (placedToo : place j = some k) :
    i = j := by
  rcases Nat.lt_trichotomy i j with below | equal | above
  · exact absurd (embeds.ordered placed placedToo below) (Nat.lt_irrefl k)
  · exact equal
  · exact absurd (embeds.ordered placedToo placed above) (Nat.lt_irrefl k)

theorem holds {i j : Nat} (placed : place i = some j) (env : String → Bool) :
    t'.holds env j = t.holds env i := by
  rw [Tree.holds, Tree.holds, embeds.guard placed]

/-- The lineage of a node is what remains of it below the first node without a place. -/
theorem lineage? (ordered : t.ParentsFirst) (ordered' : t'.ParentsFirst) {i j : Nat}
    (placed : place i = some j) :
    t'.lineage? d j =
      (t.lineage? s i).map fun chain => (chain.takeWhile (place · |>.isSome)).filterMap place := by
  refine ordered.ascend (motive := fun i => ∀ j, place i = some j → t'.lineage? d j =
    (t.lineage? s i).map fun chain => (chain.takeWhile (place · |>.isSome)).filterMap place)
    s ?_ ?_ i j placed
  · intro i unlinked j placed
    have unlinked' : t'.parent d j = none := by rw [embeds.parent placed, unlinked]; rfl
    rw [lineage?_of_parent_none unlinked, lineage?_of_parent_none unlinked']
    simp [placed]
  · intro i p linked ih j placed
    have linked' : t'.parent d j = place p := by rw [embeds.parent placed, linked]; rfl
    obtain ⟨above, lineage⟩ := ordered.exists_lineage s p
    rw [ordered.lineage?_of_parent linked, lineage]
    cases placedAbove : place p with
    | none =>
        obtain ⟨rest, rfl⟩ := exists_lineage_cons lineage
        rw [lineage?_of_parent_none (linked'.trans placedAbove)]
        simp [placed, placedAbove]
    | some q =>
        rw [ordered'.lineage?_of_parent (linked'.trans placedAbove), ih q placedAbove, lineage]
        simp [placed]

theorem lineage?_of_forall (ordered : t.ParentsFirst) (ordered' : t'.ParentsFirst) {i j : Nat}
    (placed : place i = some j) {chain : List Nat} (lineage : t.lineage? s i = some chain)
    (stay : ∀ k ∈ chain, (place k).isSome) :
    t'.lineage? d j = some (chain.filterMap place) := by
  have whole : chain.takeWhile (place · |>.isSome) = chain := by
    have appended : (chain ++ []).takeWhile (place · |>.isSome) = chain ++ [] :=
      List.takeWhile_append_of_pos stay
    rwa [List.append_nil] at appended
  rw [embeds.lineage? ordered ordered' placed, lineage, Option.map_some, whole]

theorem takeWhile_filterMap {i j : Nat} (placed : place i = some j) (nodes : List Nat) :
    (nodes.filterMap place).takeWhile (· ≠ j) = (nodes.takeWhile (· ≠ i)).filterMap place := by
  induction nodes with
  | nil => rfl
  | cons k nodes ih =>
      by_cases same : k = i
      · subst same
        simp [placed]
      · rw [List.takeWhile_cons_of_pos (by simpa using same)]
        cases placedHead : place k with
        | none => rw [List.filterMap_cons_none placedHead, List.filterMap_cons_none placedHead, ih]
        | some l =>
            have other : l ≠ j := by
              rintro rfl
              exact same (embeds.injective placedHead placed)
            rw [List.filterMap_cons_some placedHead, List.filterMap_cons_some placedHead,
              List.takeWhile_cons_of_pos (by simpa using other), ih]

theorem mem_branchRun {siblings : List Nat} {b c : Nat} (member : b ∈ t.branchRun siblings)
    (placed : place b = some c) : c ∈ t'.branchRun (siblings.filterMap place) := by
  induction siblings with
  | nil => cases member
  | cons k siblings ih =>
      cases kind : (t.node k).kind with
      | root | elseBranch | endif | code => simp [Tree.branchRun, kind] at member
      | ifBranch =>
          obtain rfl : b = k := by simpa [Tree.branchRun, kind] using member
          rw [List.filterMap_cons_some placed, Tree.branchRun, embeds.kind placed, kind]
          exact List.mem_cons_self
      | elifBranch =>
          have here : b = k ∨ b ∈ t.branchRun siblings := by
            simpa [Tree.branchRun, kind] using member
          cases placedHead : place k with
          | none =>
              rw [List.filterMap_cons_none placedHead]
              rcases here with rfl | later
              · rw [placed] at placedHead
                cases placedHead
              · exact ih later
          | some l =>
              rw [List.filterMap_cons_some placedHead, Tree.branchRun, embeds.kind placedHead, kind]
              rcases here with rfl | later
              · obtain rfl : c = l := Option.some.inj (placed.symm.trans placedHead)
                exact List.mem_cons_self
              · exact List.mem_cons_of_mem l (ih later)

/-- Branches without a place are missing from a run, as long as its opening branch has one. -/
theorem branchRun {siblings : List Nat} {b : Nat} (member : b ∈ t.branchRun siblings)
    (opening : (t.node b).kind = .ifBranch) (placed : (place b).isSome) :
    t'.branchRun (siblings.filterMap place) = (t.branchRun siblings).filterMap place := by
  induction siblings with
  | nil => rfl
  | cons k siblings ih =>
      cases kind : (t.node k).kind with
      | root | elseBranch | endif | code => simp [Tree.branchRun, kind] at member
      | ifBranch =>
          have alone : t.branchRun (k :: siblings) = [k] := by rw [Tree.branchRun, kind]
          rw [alone, List.mem_singleton] at member
          subst member
          obtain ⟨l, placed⟩ := Option.isSome_iff_exists.mp placed
          rw [alone, List.filterMap_cons_some placed, Tree.branchRun, embeds.kind placed, kind]
          simp [placed]
      | elifBranch =>
          have more : t.branchRun (k :: siblings) = k :: t.branchRun siblings := by
            rw [Tree.branchRun, kind]
          rw [more] at member ⊢
          have later : b ∈ t.branchRun siblings := by
            rcases List.mem_cons.mp member with rfl | later
            · rw [opening] at kind
              cases kind
            · exact later
          cases placedHead : place k with
          | none =>
              rw [List.filterMap_cons_none placedHead, List.filterMap_cons_none placedHead]
              exact ih later
          | some l =>
              rw [List.filterMap_cons_some placedHead, List.filterMap_cons_some placedHead,
                Tree.branchRun, embeds.kind placedHead, kind]
              simp only
              rw [ih later]

theorem exists_siblings {i j : Nat} (placed : place i = some j)
    (above : ∀ p, t.parent s i = some p → (place p).isSome) {b : Nat}
    (member : b ∈ t.earlierBranches s i) :
    ∃ siblings, t.earlierBranches s i = t.branchRun siblings ∧
      t'.earlierBranches d j = t'.branchRun (siblings.filterMap place) := by
  cases linked : t.parent s i with
  | none => simp [Tree.earlierBranches, linked] at member
  | some p =>
      obtain ⟨q, placedAbove⟩ := Option.isSome_iff_exists.mp (above p linked)
      have linked' : t'.parent d j = some q := by
        rw [embeds.parent placed, linked]
        exact placedAbove
      unfold Tree.earlierBranches at member ⊢
      simp only [linked, linked'] at member ⊢
      split at member
      · next child =>
          have child' : j ∈ t'.children d q := by
            rw [embeds.children placedAbove, List.mem_filterMap]
            exact ⟨i, child, placed⟩
          refine ⟨((t.children s p).takeWhile (· ≠ i)).reverse, if_pos child, ?_⟩
          rw [if_pos child', embeds.children placedAbove, embeds.takeWhile_filterMap placed,
            List.filterMap_reverse]
      · cases member

theorem rivals_eq_earlierBranches {i j : Nat} (placed : place i = some j)
    (further : (t.node i).kind = .elifBranch ∨ (t.node i).kind = .elseBranch) :
    t.rivals s i = t.earlierBranches s i ∧ t'.rivals d j = t'.earlierBranches d j := by
  unfold Tree.rivals
  rw [embeds.kind placed]
  rcases further with kind | kind <;> rw [kind] <;> exact ⟨rfl, rfl⟩

theorem mem_rivals {i j b c : Nat} (placed : place i = some j)
    (above : ∀ p, t.parent s i = some p → (place p).isSome) (member : b ∈ t.rivals s i)
    (placedRival : place b = some c) : c ∈ t'.rivals d j := by
  obtain ⟨same, same'⟩ := embeds.rivals_eq_earlierBranches (s := s) placed
    (further_of_mem_rivals member)
  rw [same] at member
  obtain ⟨siblings, run, run'⟩ := embeds.exists_siblings placed above member
  rw [same', run']
  exact embeds.mem_branchRun (run ▸ member) placedRival

theorem rivals {i j : Nat} (placed : place i = some j)
    (above : ∀ p, t.parent s i = some p → (place p).isSome)
    (opening : ((t.node i).kind = .elifBranch ∨ (t.node i).kind = .elseBranch) →
      ∃ b ∈ t.rivals s i, (t.node b).kind = .ifBranch ∧ (place b).isSome) :
    t'.rivals d j = (t.rivals s i).filterMap place := by
  by_cases further : (t.node i).kind = .elifBranch ∨ (t.node i).kind = .elseBranch
  · obtain ⟨b, member, opens, placedOpening⟩ := opening further
    obtain ⟨same, same'⟩ := embeds.rivals_eq_earlierBranches (s := s) placed further
    rw [same] at member
    obtain ⟨siblings, run, run'⟩ := embeds.exists_siblings placed above member
    rw [same, same', run, run']
    exact embeds.branchRun (run ▸ member) opens placedOpening
  · unfold Tree.rivals
    rw [embeds.kind placed]
    rw [not_or] at further
    cases kind : (t.node i).kind with
    | elifBranch => exact absurd kind further.1
    | elseBranch => exact absurd kind further.2
    | root | ifBranch | endif | code => rfl

theorem admits {i j : Nat} (placed : place i = some j)
    (rivals : ∀ c, c ∈ t'.rivals d j ↔ ∃ b ∈ t.rivals s i, place b = some c)
    (env : String → Bool) :
    t'.admits env d j =
      ((!(t.node i).kind.hasGuard || t.holds env i) &&
        ((t.rivals s i).filter (place · |>.isSome)).all (!t.holds env ·)) := by
  have others : (t'.rivals d j).all (!t'.holds env ·) =
      ((t.rivals s i).filter (place · |>.isSome)).all (!t.holds env ·) := by
    rw [Bool.eq_iff_iff, List.all_eq_true, List.all_eq_true]
    constructor
    · intro all b member
      obtain ⟨own, hasPlace⟩ := List.mem_filter.mp member
      obtain ⟨c, placedRival⟩ := Option.isSome_iff_exists.mp hasPlace
      rw [← embeds.holds placedRival]
      exact all c ((rivals c).mpr ⟨b, own, placedRival⟩)
    · intro all c member
      obtain ⟨b, own, placedRival⟩ := (rivals c).mp member
      rw [embeds.holds placedRival]
      exact all b (List.mem_filter.mpr ⟨own, by rw [placedRival, Option.isSome_some]⟩)
  rw [Tree.admits, embeds.kind placed, embeds.holds placed, others]

theorem guard_eq {i j : Nat} (placed : place i = some j) (guarded : (t.node i).guard.isSome) :
    t'.guard j = t.guard i := by
  obtain ⟨g, found⟩ := Option.isSome_iff_exists.mp guarded
  rw [guard_eq_ok found, guard_eq_ok ((embeds.guard placed).trans found)]

theorem negatedGuards {nodes : List Nat} (guarded : ∀ b ∈ nodes, (t.node b).guard.isSome)
    (placed : ∀ b ∈ nodes, (place b).isSome) :
    t'.negatedGuards (nodes.filterMap place) = t.negatedGuards nodes := by
  induction nodes with
  | nil => rfl
  | cons b nodes ih =>
      obtain ⟨c, placedHead⟩ := Option.isSome_iff_exists.mp (placed b (by simp))
      rw [List.filterMap_cons_some placedHead, Tree.negatedGuards, Tree.negatedGuards,
        embeds.guard_eq placedHead (guarded b (by simp)),
        ih (fun k member => guarded k (by simp [member]))
          fun k member => placed k (by simp [member])]

theorem featureMapping (guarded : t.Guarded) {i j : Nat} (placed : place i = some j)
    (present : (t.node i).existsOn s) (rivals : t'.rivals d j = (t.rivals s i).filterMap place)
    (all : ∀ b ∈ t.rivals s i, (place b).isSome) :
    t'.featureMapping d j = t.featureMapping s i := by
  have own (kind : (t.node i).kind.hasGuard) : t'.guard j = t.guard i :=
    embeds.guard_eq placed (guarded i kind)
  have others := embeds.negatedGuards
    (fun b member => guarded b (hasGuard_of_mem_rivals member)) all
  rw [← rivals] at others
  unfold Tree.rivals at others
  unfold Tree.featureMapping
  simp only [embeds.existsOn placed, present, embeds.kind placed, Bool.not_true,
    Bool.false_eq_true, if_false] at others ⊢
  cases kind : (t.node i).kind with
  | root | code | endif => rfl
  | ifBranch => exact own (by rw [kind]; rfl)
  | elifBranch =>
      simp only [kind] at others
      simp only [own (by rw [kind]; rfl), others]
  | elseBranch =>
      simp only [kind] at others
      simp only [others]

end SideEmbeds

theorem conditionAlong_filterMap {t t' : Tree} {s d : Side} {place : Nat → Option Nat}
    {chain : List Nat} (placed : ∀ i ∈ chain, (place i).isSome)
    (same : ∀ i ∈ chain, ∀ j, place i = some j → t'.featureMapping d j = t.featureMapping s i) :
    t'.conditionAlong d (chain.filterMap place) = t.conditionAlong s chain := by
  induction chain with
  | nil => rfl
  | cons i above ih =>
      obtain ⟨j, placedHead⟩ := Option.isSome_iff_exists.mp (placed i (by simp))
      rw [List.filterMap_cons_some placedHead, Tree.conditionAlong, Tree.conditionAlong,
        ih (fun k member => placed k (by simp [member])) fun k member => same k (by simp [member]),
        same i (by simp) j placedHead]

/-- Where a lineage and the branches before its nodes have places, the presence condition of a node
is the same formula at its place. -/
theorem SideEmbeds.presenceCondition {t t' : Tree} {s d : Side} {place : Nat → Option Nat}
    (embeds : t.SideEmbeds s t' d place) (ordered : t.ParentsFirst) (ordered' : t'.ParentsFirst)
    (guarded : t.Guarded) {i j : Nat} (placed : place i = some j) {chain : List Nat}
    (lineage : t.lineage? s i = some chain) (stay : ∀ k ∈ chain, (place k).isSome)
    (present : ∀ k ∈ chain, (t.node k).existsOn s)
    (rivals : ∀ k ∈ chain, ∀ l, place k = some l →
      t'.rivals d l = (t.rivals s k).filterMap place)
    (all : ∀ k ∈ chain, ∀ b ∈ t.rivals s k, (place b).isSome) :
    t'.presenceCondition d j = t.presenceCondition s i := by
  rw [Tree.presenceCondition, Tree.presenceCondition, lineage,
    embeds.lineage?_of_forall ordered ordered' placed lineage stay]
  exact conditionAlong_filterMap stay fun k member l placed =>
    embeds.featureMapping guarded placed (present k member) (rivals k member l placed)
      (all k member)

section BothSides

variable {t t' : Tree} {place : Nat → Option Nat} (embeds : ∀ s, t.SideEmbeds s t' s place)
include embeds

/-- With the parents of a node in place, they differ in the other tree where they did before. -/
theorem sameParents_of_sideEmbeds (above : ∀ {s i j p}, place i = some j → t.parent s i = some p →
    (place p).isSome) {i j : Nat} (placed : place i = some j) :
    t'.parent .before j = t'.parent .after j ↔ t.parent .before i = t.parent .after i := by
  rw [(embeds .before).parent placed, (embeds .after).parent placed]
  constructor
  · intro same
    cases before : t.parent .before i with
    | none =>
        cases after : t.parent .after i with
        | none => rfl
        | some p =>
            obtain ⟨q, placedAbove⟩ := Option.isSome_iff_exists.mp (above placed after)
            simp [before, after, placedAbove] at same
    | some p =>
        obtain ⟨q, placedAbove⟩ := Option.isSome_iff_exists.mp (above placed before)
        rw [before, Option.bind_some, placedAbove] at same
        obtain ⟨p', after, placedToo⟩ := Option.bind_eq_some_iff.mp same.symm
        rw [after, (embeds .after).injective placedAbove placedToo]
  · intro same
    rw [same]

theorem unmoved_of_sideEmbeds (ordered : t.ParentsFirst) (ordered' : t'.ParentsFirst)
    (inside : ∀ {i j}, place i = some j → i < t.size ∧ j < t'.size)
    (above : ∀ {s i j p}, place i = some j → t.parent s i = some p → (place p).isSome)
    {i j : Nat} (placed : place i = some j) : t'.unmoved j = t.unmoved i := by
  have sameParents {i j : Nat} (placed : place i = some j) :=
    sameParents_of_sideEmbeds embeds above placed
  refine ordered.ascend (motive := fun i => ∀ j, place i = some j → t'.unmoved j = t.unmoved i)
    .before ?_ ?_ i j placed
  · intro i unlinked j placed
    have unlinked' : t'.parent .before j = none := by
      rw [(embeds .before).parent placed, unlinked]
      rfl
    rw [ordered.unmoved_eq (inside placed).1, ordered'.unmoved_eq (inside placed).2]
    rw [decide_eq_decide.mpr (sameParents placed)]
    refine congrArg (_ && ·) ?_
    rw [unlinked, unlinked', Option.all_none, Option.all_none]
  · intro i p linked ih j placed
    obtain ⟨q, placedAbove⟩ := Option.isSome_iff_exists.mp (above placed linked)
    have linked' : t'.parent .before j = some q := by
      rw [(embeds .before).parent placed, linked]
      exact placedAbove
    rw [ordered.unmoved_eq (inside placed).1, ordered'.unmoved_eq (inside placed).2]
    rw [decide_eq_decide.mpr (sameParents placed)]
    refine congrArg (_ && ·) ?_
    rw [linked, linked', Option.all_some, Option.all_some, ih q placedAbove]

end BothSides

namespace Embeds

variable {t t' : Tree} {place : Nat → Option Nat} (embeds : t.Embeds t' place)
include embeds

theorem kind {i j : Nat} (placed : place i = some j) : (t'.node j).kind = (t.node i).kind := by
  rw [← Node.content_kind, embeds.content placed, Node.content_kind]

theorem edit {i j : Nat} (placed : place i = some j) : (t'.node j).edit = (t.node i).edit := by
  rw [← Node.content_edit, embeds.content placed, Node.content_edit]

theorem guard {i j : Nat} (placed : place i = some j) : (t'.node j).guard = (t.node i).guard := by
  rw [← Node.content_guard, embeds.content placed, Node.content_guard]

theorem existsOn {i j : Nat} (placed : place i = some j) (s : Side) :
    (t'.node j).existsOn s = (t.node i).existsOn s := by
  rw [Node.existsOn, Node.existsOn, embeds.kind placed, embeds.edit placed]

theorem onSide (s : Side) : t.SideEmbeds s t' s place where
  ordered := embeds.ordered
  kind := embeds.kind
  guard := embeds.guard
  existsOn := fun placed => embeds.existsOn placed s
  parent := fun placed => embeds.parent placed s
  children := fun placed => embeds.children placed s

theorem sameParents (above : ∀ {s i j p}, place i = some j → t.parent s i = some p →
    (place p).isSome) {i j : Nat} (placed : place i = some j) :
    t'.parent .before j = t'.parent .after j ↔ t.parent .before i = t.parent .after i :=
  sameParents_of_sideEmbeds embeds.onSide above placed

theorem unmoved (ordered : t.ParentsFirst) (ordered' : t'.ParentsFirst)
    (inside : ∀ {i j}, place i = some j → i < t.size ∧ j < t'.size)
    (above : ∀ {s i j p}, place i = some j → t.parent s i = some p → (place p).isSome)
    {i j : Nat} (placed : place i = some j) : t'.unmoved j = t.unmoved i :=
  unmoved_of_sideEmbeds embeds.onSide ordered ordered' inside above placed

end Embeds

end Tree

end Variability
