import Variability.Proofs.Tree.Transformed

/-!
What exactly the cut leaves of a well-formed tree: the root, whatever leads down to a change on one
side or the other, and the ends of the branches among that. The part that is left is well formed and
consists of such nodes only, so cutting it again leaves all of it.
-/

namespace Variability.Tree

/-- A node that was added or removed, or whose parents before and after the edit differ. -/
def Changed (t : Tree) (i : Nat) : Prop :=
  (t.node i).edit ≠ .kept ∨ t.parent .before i ≠ t.parent .after i

/-- The root, a changed node, or a node above a changed one on some side. -/
def LeadsToChange (t : Tree) (i : Nat) : Prop :=
  (t.node i).kind = .root ∨ ∃ s c, t.Changed c ∧ t.Above s c i

variable {t : Tree}

theorem isEdited_iff {i : Nat} :
    isEdited (t.node i) ↔ (t.node i).kind = .root ∨ t.Changed i := by
  rw [isEdited, Bool.or_eq_true, Bool.or_eq_true, decide_eq_true_eq, decide_eq_true_eq,
    decide_eq_true_eq, or_assoc]
  rfl

theorem Changed.lt_size {i : Nat} (changed : t.Changed i) : i < t.size := by
  by_contra outside
  rw [Nat.not_lt] at outside
  rcases changed with edited | moved
  · rw [node_of_size_le outside] at edited
    exact edited rfl
  · rw [parent_of_size_le outside, parent_of_size_le outside] at moved
    exact moved rfl

theorem Changed.leads {i : Nat} (changed : t.Changed i) : t.LeadsToChange i :=
  .inr ⟨.before, i, changed, .refl⟩

theorem not_changed_iff {i : Nat} :
    ¬ t.Changed i ↔ (t.node i).edit = .kept ∧ t.parent .before i = t.parent .after i := by
  rw [Changed, not_or, not_not, not_not]

/-- A part in which every node of a tree stays is the tree. -/
theorem restrict_eq_self (enclosed : t.Enclosed) {keep : Nat → Node → Bool}
    (all : ∀ i < t.size, keep i (t.node i)) : t.restrict keep = t := by
  have stays {i : Nat} (inside : i < t.size) : t.stays keep i := by
    rw [Tree.stays, all i inside, decide_eq_true inside]
    rfl
  have count {i : Nat} (inside : i ≤ t.size) : rank (t.stays keep) i = i := by
    rw [rank, List.countP_eq_length.mpr, List.length_range]
    intro j member
    exact stays (Nat.lt_of_lt_of_le (List.mem_range.mp member) inside)
  have placed {i : Nat} (inside : i < t.size) : t.place? keep i = some i :=
    place?_eq_some_iff.mpr ⟨stays inside, count (Nat.le_of_lt inside)⟩
  have size : (t.restrict keep).size = t.size := by
    rw [size_restrict, count (Nat.le_refl _)]
  have embeds := t.embeds_restrict keep
  refine ext_views size rfl rfl (fun i => ?_) (fun s i => ?_) fun s i => ?_
  · rcases Nat.lt_or_ge i t.size with inside | outside
    · exact bare_restrict (placed inside)
    · rw [node_of_size_le outside, node_of_size_le (size ▸ outside)]
  · rcases Nat.lt_or_ge i t.size with inside | outside
    · rw [embeds.parent (placed inside)]
      cases linked : t.parent s i with
      | none => rfl
      | some p => rw [Option.bind_some, placed (enclosed.parent_lt linked)]
    · rw [parent_of_size_le outside, parent_of_size_le (size ▸ outside)]
  · rcases Nat.lt_or_ge i t.size with inside | outside
    · rw [embeds.children (placed inside)]
      have same : ∀ c ∈ t.children s i, t.place? keep c = some c := fun c child =>
        placed (enclosed.child_lt child)
      rw [List.filterMap_congr same, List.filterMap_some]
    · rw [children_of_size_le outside, children_of_size_le (size ▸ outside)]

namespace WellFormed

variable (wellFormed : t.WellFormed)
include wellFormed

theorem kind_ne_endif {s : Side} {c p : Nat} (linked : t.parent s c = some p) :
    (t.node p).kind ≠ .endif := by
  intro endif
  have scope := (wellFormed.links s).scope linked
  rw [endif] at scope
  cases scope

theorem leadsToChange_parent {s : Side} {i p : Nat} (linked : t.parent s i = some p)
    (leads : t.LeadsToChange i) : t.LeadsToChange p := by
  by_cases changed : t.Changed i
  · exact .inr ⟨s, i, changed, .single linked⟩
  · rcases leads with root | ⟨d, c, lower, above⟩
    · exact absurd root ((wellFormed.links s).kind_ne_root linked)
    · -- an unchanged node has the same parent on the other side
      have linkedToo : t.parent d i = some p := by
        have same := (not_changed_iff.mp changed).2
        cases s <;> cases d <;> simp_all
      exact .inr ⟨d, c, lower, above.tail linkedToo⟩

theorem has_markAbove_iff {i : Nat} :
    (Side.all.foldl t.markAbove (t.nodes.map isEdited)).has i ↔ t.LeadsToChange i := by
  have upward := wellFormed.grounded.upward_markAbove
  constructor
  · have edited (i : Nat) (marked : Marks.has (t.nodes.map isEdited) i) : t.LeadsToChange i := by
      have inside : i < t.size := by
        have inside := Marks.lt_size_of_has marked
        rwa [Array.size_map] at inside
      have lookup : t.nodes[i]? = some (t.node i) := by
        rw [node, Array.getElem?_eq_getElem inside]
        rfl
      rw [Marks.has, Array.getElem?_map, lookup, Option.map_some, Option.getD_some,
        isEdited_iff] at marked
      exact marked.imp_right fun changed => ⟨.before, i, changed, .refl⟩
    change (t.markAbove (t.markAbove (t.nodes.map isEdited) .before) .after).has i → _
    exact forall_markAbove (fun _ _ linked => wellFormed.leadsToChange_parent linked)
      (forall_markAbove (fun _ _ linked => wellFormed.leadsToChange_parent linked) edited) i
  · rintro (root | ⟨s, c, changed, above⟩)
    · exact upward.edited (lt_size_of_kind_ne_code (by rw [root]; decide))
        (isEdited_iff.mpr (.inl root))
    · induction above with
      | refl => exact upward.edited changed.lt_size (isEdited_iff.mpr (.inr changed))
      | tail _ linked ih => exact upward.parents ih linked

theorem has_editedMarks_iff {i : Nat} :
    t.editedMarks.has i ↔ t.LeadsToChange i ∨
      ((t.node i).kind = .endif ∧ ∃ s p, t.parent s i = some p ∧ t.LeadsToChange p) := by
  rw [editedMarks, has_foldl_markEndif wellFormed.kind_ne_endif, wellFormed.has_markAbove_iff,
    wellFormed.grounded.upward_markAbove.size]
  refine or_congr_right ⟨?_, ?_⟩
  · rintro ⟨-, -, endif, s, p, linked, marked⟩
    exact ⟨endif, s, p, linked, wellFormed.has_markAbove_iff.mp marked⟩
  · rintro ⟨endif, s, p, linked, leads⟩
    have inside := lt_size_of_parent linked
    exact ⟨List.mem_range.mpr inside, inside, endif, s, p, linked,
      wellFormed.has_markAbove_iff.mpr leads⟩

theorem isSome_cutPlace?_iff_leads {i : Nat} (notEndif : (t.node i).kind ≠ .endif) :
    (t.cutPlace? i).isSome ↔ t.LeadsToChange i := by
  rw [wellFormed.grounded.isSome_cutPlace?, wellFormed.has_editedMarks_iff, or_iff_left]
  exact fun ⟨endif, _⟩ => notEndif endif

theorem isSome_cutPlace?_iff {i : Nat} :
    (t.cutPlace? i).isSome ↔ t.LeadsToChange i ∨
      ((t.node i).kind = .endif ∧ ∃ s p, t.parent s i = some p ∧ (t.cutPlace? p).isSome) := by
  rw [wellFormed.grounded.isSome_cutPlace?, wellFormed.has_editedMarks_iff]
  refine or_congr_right (and_congr_right fun _ => exists₂_congr fun s p => ?_)
  exact and_congr_right fun linked =>
    (wellFormed.isSome_cutPlace?_iff_leads (wellFormed.kind_ne_endif linked)).symm

theorem changed_cut {i j : Nat} (placed : t.cutPlace? i = some j) :
    t.cutUnedited.Changed j ↔ t.Changed i := by
  rw [Changed, Changed, t.embeds_cut.edit placed, ne_eq (t.cutUnedited.parent .before j),
    t.embeds_cut.sameParents wellFormed.grounded.isSome_cutPlace?_of_parent placed]

theorem exists_above_cut {s : Side} {c i d : Nat} (above : t.Above s c i)
    (placed : t.cutPlace? c = some d) :
    ∃ j, t.cutPlace? i = some j ∧ t.cutUnedited.Above s d j := by
  induction above with
  | refl => exact ⟨d, placed, .refl⟩
  | tail _ linked ih =>
      obtain ⟨k, placedBelow, aboveCut⟩ := ih
      obtain ⟨j, placedAbove⟩ := Option.isSome_iff_exists.mp
        (wellFormed.grounded.isSome_cutPlace?_of_parent placedBelow linked)
      refine ⟨j, placedAbove, aboveCut.tail ?_⟩
      rw [t.embeds_cut.parent placedBelow, linked, Option.bind_some, placedAbove]

theorem leadsToChange_cut {i j : Nat} (placed : t.cutPlace? i = some j)
    (leads : t.LeadsToChange i) : t.cutUnedited.LeadsToChange j := by
  rcases leads with root | ⟨s, c, changed, above⟩
  · exact .inl ((t.embeds_cut.kind placed).trans root)
  · obtain ⟨d, placedBelow⟩ := Option.isSome_iff_exists.mp
      (wellFormed.isSome_cutPlace?_iff.mpr (.inl changed.leads))
    obtain ⟨k, placedToo, aboveCut⟩ := wellFormed.exists_above_cut above placedBelow
    obtain rfl := Option.some.inj (placed.symm.trans placedToo)
    exact .inr ⟨s, d, (wellFormed.changed_cut placedBelow).mpr changed, aboveCut⟩

end WellFormed

/-- What the cut has left is left by a second cut as well. -/
theorem cutUnedited_cutUnedited (flawless : t.firstFlaw? = none) :
    t.cutUnedited.cutUnedited = t.cutUnedited := by
  have formed := firstFlaw?_eq_none_iff_wellFormed.mp flawless
  have formedCut := firstFlaw?_eq_none_iff_wellFormed.mp (firstFlaw?_cutUnedited flawless)
  rw [cutUnedited]
  refine restrict_eq_self (enclosed_of_interlinked formedCut.links) fun j inside => ?_
  obtain ⟨i, placed⟩ := t.exists_place_restrict (fun i _ => t.editedMarks.has i) inside
  have stays : (t.cutPlace? i).isSome := Option.isSome_iff_exists.mpr ⟨j, placed⟩
  refine formedCut.has_editedMarks_iff.mpr ?_
  rcases formed.isSome_cutPlace?_iff.mp stays with leads | ⟨endif, s, p, linked, staysAbove⟩
  · exact .inl (formed.leadsToChange_cut placed leads)
  · obtain ⟨q, placedAbove⟩ := Option.isSome_iff_exists.mp staysAbove
    refine .inr ⟨(t.embeds_cut.kind placed).trans endif, s, q, ?_, ?_⟩
    · rw [t.embeds_cut.parent placed, linked, Option.bind_some, placedAbove]
    · exact formed.leadsToChange_cut placedAbove
        ((formed.isSome_cutPlace?_iff_leads (formed.kind_ne_endif linked)).mp staysAbove)

/-- The cut keeps the edited part of a tree and nothing else: the nodes that lead to a change, and
every `endif` under a node that stays. They keep their ids and contents, their order, and their
links among each other, and lose no parent. What is left is well formed, and a second cut leaves it
as it is. -/
theorem cutUnedited_exact (flawless : t.firstFlaw? = none) :
    ∃ place : Nat → Option Nat,
      (∀ i, (place i).isSome ↔ t.LeadsToChange i ∨
        ((t.node i).kind = .endif ∧ ∃ s p, t.parent s i = some p ∧ (place p).isSome)) ∧
      (∀ i j, place i = some j → i < t.size ∧ j < t.cutUnedited.size ∧
        (t.cutUnedited.node j).bare = (t.node i).bare) ∧
      (∀ j < t.cutUnedited.size, ∃ i, place i = some j) ∧
      t.Embeds t.cutUnedited place ∧
      (∀ s i p, (place i).isSome → t.parent s i = some p → (place p).isSome) ∧
      t.cutUnedited.shape = t.shape ∧ t.cutUnedited.source = t.source ∧
      t.cutUnedited.firstFlaw? = none ∧
      t.cutUnedited.cutUnedited = t.cutUnedited := by
  have formed := firstFlaw?_eq_none_iff_wellFormed.mp flawless
  refine ⟨t.cutPlace?, fun _ => formed.isSome_cutPlace?_iff, fun i j placed => ?_,
    fun j inside => ?_, t.embeds_cut, fun s i p stays linked => ?_, rfl, rfl,
    firstFlaw?_cutUnedited flawless, cutUnedited_cutUnedited flawless⟩
  · obtain ⟨inside, insideCut⟩ := lt_size_of_cutPlace? placed
    exact ⟨inside, insideCut, bare_cut placed⟩
  · exact t.exists_place_restrict (fun i _ => t.editedMarks.has i) inside
  · obtain ⟨j, placed⟩ := Option.isSome_iff_exists.mp stays
    exact formed.grounded.isSome_cutPlace?_of_parent placed linked

/-- A changed node may stand before its parent, whose other lines are dropped while its end is
not. -/
theorem cutUnedited_exact_backward :
    ∃ (t : Tree) (place : Nat → Option Nat), t.firstFlaw? = none ∧ t.parent .after 1 = some 2 ∧
      (place 1).isSome ∧ (place 2).isSome ∧ (place 4).isSome ∧ t.Embeds t.cutUnedited place ∧
      t.cutUnedited.nodes.toList.map (·.id) = [0, 1, 2, 4] ∧
      t.cutUnedited.firstFlaw? = none ∧ t.cutUnedited.cutUnedited = t.cutUnedited := by
  let nodes := ((((singleton ⟨"f", "c", none⟩).push (.fresh 1 .code .added "x")).push
    (.fresh 2 .ifBranch .kept "A")).push (.fresh 3 .code .kept "y")).push (.fresh 4 .endif .kept "")
  let t := [Side.before, .after].foldl
    (fun t s => ((t.addEdge s 0 2).addEdge s 2 3).addEdge s 2 4) (nodes.addEdge .after 2 1)
  have flawless : t.firstFlaw? = none := by decide +kernel
  have linked : t.parent .after 1 = some 2 := by decide +kernel
  obtain ⟨place, stays, -, -, embeds, -, -, -, formed, again⟩ := cutUnedited_exact flawless
  have changed : t.Changed 1 := .inl (by decide +kernel)
  have branch : (place 2).isSome :=
    (stays 2).mpr (.inl (.inr ⟨.after, 1, changed, .single linked⟩))
  exact ⟨t, place, flawless, linked, (stays 1).mpr (.inl changed.leads), branch,
    (stays 4).mpr (.inr ⟨by decide +kernel, .before, 2, by decide +kernel, branch⟩), embeds,
    by decide +kernel, formed, again⟩

end Variability.Tree
