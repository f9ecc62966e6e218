import Variability.Proofs.Patch.Conditional
import Variability.Proofs.Patch.Cut
import Variability.Proofs.Patch.Reversal
import Variability.Proofs.Patch.Seam

/-!
The tree of two patches, one behind the other. Every branch of the first is closed when the second
begins, so the second opens, continues and closes branches of its own only. Its nodes keep their
presence conditions and its lines of code their patterns, and so do those of the first.
-/

namespace Variability

open Variability.Tree (later)

namespace Patch

/-! Branches and places. -/

theorem Entry.around_map (e : Entry) (f : Nat → Nat) (opened : List Nat) :
    e.around (opened.map f) = (e.around opened).map f := by
  unfold around
  cases e.kind <;> simp

theorem Entry.behind_map (e : Entry) (f : Nat → Nat) (i : Nat) (opened : List Nat) :
    e.behind (f i) (opened.map f) = (e.behind i opened).map f := by
  unfold behind
  cases e.kind <;> simp [around_map]

theorem Entry.scope_map (e : Entry) (offset : Nat) (opened : List Nat) :
    e.scope (opened.map (Tree.later offset)) = Tree.later offset (e.scope opened) := by
  rw [scope, around_map, scope]
  cases e.around opened <;> rfl

/-- Entries behind closed branches open branches of their own. -/
theorem openBranches_sequel {s : Side} {es : List Entry} (closed : openBranches s es = [])
    (fs : List Entry) (lines : Nat) :
    openBranches s (es ++ fs.map (Entry.later lines)) =
      (openBranches s fs).map (later es.length) := by
  induction fs using List.reverseRecOn with
  | nil => simp [closed]
  | append_singleton fs f ih =>
      have same (i : Nat) (opened : List Nat) :
          (f.later lines).behind i opened = f.behind i opened := rfl
      have number : (es ++ fs.map (Entry.later lines)).length + 1 =
          later es.length (fs.length + 1) := by
        rw [List.length_append, List.length_map]
        rfl
      rw [List.map_append, List.map_singleton, ← List.append_assoc, openBranches_append,
        openBranches_append, ih, number, same, Entry.behind_map]
      change (if f.edit.existsOn s then _ else _) = _
      split <;> rfl

theorem scopes?_sequel {s : Side} {es : List Entry} (closed : scopes? s es = some [])
    (fs : List Entry) (lines : Nat) :
    scopes? s (es ++ fs.map (Entry.later lines)) = scopes? s fs := by
  rw [scopes?, map_kind_sideLines] at closed
  rw [scopes?, scopes?, map_kind_sideLines, map_kind_sideLines, List.filter_append,
    List.map_append, List.foldlM_append, closed, List.filter_map, List.map_map]
  rfl

theorem lookup_sequel {es fs : List Entry} {k : Nat} {f : Entry} (lookup : fs[k]? = some f)
    (lines : Nat) :
    (es ++ fs.map (Entry.later lines))[es.length + k]? = some (f.later lines) := by
  rw [List.getElem?_append_right (Nat.le_add_right _ _), Nat.add_sub_cancel_left,
    List.getElem?_map, lookup, Option.map_some]

namespace Accepted

variable {es fs : List Entry} {t u : Tree} (accepted : Accepted es t) (acceptedToo : Accepted fs u)
include accepted acceptedToo

theorem meet : t.Meet u where
  linked := accepted.linked
  linkedToo := acceptedToo.linked
  rooted := by rw [accepted.overlays.size]; exact Nat.succ_pos _
  rootedToo := by rw [acceptedToo.overlays.size]; exact Nat.succ_pos _
  root := by rw [accepted.overlays.root, acceptedToo.overlays.root]

omit acceptedToo in
theorem offset_eq : t.size - 1 = es.length := by
  rw [accepted.overlays.size, Nat.add_sub_cancel]

omit acceptedToo in
theorem openBranches_take_sequel (s : Side) (k lines : Nat) :
    openBranches s ((es ++ fs.map (Entry.later lines)).take (es.length + k)) =
      (openBranches s (fs.take k)).map (later es.length) := by
  rw [List.take_length_add_append, ← List.map_take,
    openBranches_sequel accepted.openBranches_eq_nil]

theorem parentIn_sequel {s : Side} {i : Nat} (inside : i < u.size) (lines : Nat) :
    parentIn s (es ++ fs.map (Entry.later lines)) (later es.length i) =
      (u.parent s i).map (later es.length) := by
  cases i with
  | zero =>
      rw [acceptedToo.overlays.parent_root]
      rfl
  | succ k =>
      obtain ⟨k, f, same, lookup⟩ := acceptedToo.overlays.lookup inside (Nat.succ_ne_zero k)
      obtain rfl := Nat.succ.inj same
      rw [later, parentIn, lookup_sequel lookup, Option.bind_some,
        accepted.openBranches_take_sequel, acceptedToo.overlays.parent_entry lookup]
      change (if f.edit.existsOn s then _ else _) = _
      split
      · rw [Option.map_some, ← Entry.scope_map]
        rfl
      · rfl

theorem filter_parent_second (s : Side) (lines q : Nat) :
    (List.range u.size).tail.filter
        ((fun i => (t.followedBy u lines).parent s i = some (later (t.size - 1) q)) ∘
          later (t.size - 1)) = u.children s q := by
  have meet := accepted.meet acceptedToo
  have top : decide (u.parent s 0 = some q) = false := by
    rw [acceptedToo.overlays.parent_root]
    rfl
  rw [acceptedToo.overlays.children, ← Tree.filter_tail_range top]
  refine List.filter_congr fun i member => ?_
  rw [Function.comp_apply,
    meet.parent_second (List.mem_range.mp (List.mem_of_mem_tail member)), decide_eq_decide,
    Option.map_eq_some_iff]
  constructor
  · rintro ⟨p, parent, same⟩
    rw [parent, Tree.later_injective _ same]
  · exact fun parent => ⟨q, parent, rfl⟩

theorem filter_parent_elsewhere (s : Side) (lines : Nat) {p : Nat}
    (none : t.secondPlace? u p = none) :
    (List.range u.size).tail.filter
        ((fun i => (t.followedBy u lines).parent s i = some p) ∘ later (t.size - 1)) = [] := by
  have meet := accepted.meet acceptedToo
  rw [List.filter_eq_nil_iff]
  intro i member above
  have inside := List.mem_range.mp (List.mem_of_mem_tail member)
  have placed := meet.isSome_secondPlace?_of_parent
    (Option.isSome_of_eq_some (meet.secondPlace?_eq_some_iff.mpr ⟨inside, rfl⟩))
    (decide_eq_true_eq.mp above)
  rw [none] at placed
  cases placed

/-- The children of the root stand in both trees, those of another node in one of them. -/
theorem children_sequel (s : Side) (p lines : Nat) :
    (t.followedBy u lines).children s p = (List.range (t.followedBy u lines).size).filter
      ((t.followedBy u lines).parent s · = some p) := by
  have meet := accepted.meet acceptedToo
  have first : (List.range t.size).filter ((t.followedBy u lines).parent s · = some p) =
      t.children s p := by
    rw [accepted.overlays.children]
    refine List.filter_congr fun i member => ?_
    rw [Tree.parent_followedBy_first (List.mem_range.mp member)]
  rw [Tree.range_followedBy meet.rooted meet.rootedToo, List.filter_append, first, List.filter_map]
  cases place : t.secondPlace? u p with
  | some q =>
      obtain ⟨inside, rfl⟩ := meet.secondPlace?_eq_some_iff.mp place
      rw [accepted.filter_parent_second acceptedToo s lines]
      rcases Nat.eq_zero_or_pos q with rfl | positive
      · exact Tree.children_followedBy_zero s
      · have outside := Tree.Meet.size_le_later (t := t) positive
        rw [Tree.children_followedBy_second positive inside, Tree.children_of_size_le outside,
          List.nil_append]
  | none =>
      rw [accepted.filter_parent_elsewhere acceptedToo s lines place, List.map_nil,
        List.append_nil, meet.children_of_secondPlace?_none place]

theorem overlays_sequel (lines : Nat) :
    Overlays (t.followedBy u lines) (es ++ fs.map (Entry.later lines)) where
  size := by
    rw [Tree.size_followedBy (accepted.meet acceptedToo).rooted, accepted.overlays.size,
      acceptedToo.overlays.size, List.length_append, List.length_map]
    omega
  shape := accepted.overlays.shape
  root := accepted.overlays.root
  entry := by
    intro k e lookup
    rcases Nat.lt_or_ge k es.length with early | late
    · rw [List.getElem?_append_left early] at lookup
      rw [Tree.bare_followedBy_first (by rw [accepted.overlays.size]; omega),
        accepted.overlays.entry lookup]
    · obtain ⟨k, rfl⟩ := Nat.exists_eq_add_of_le late
      rw [List.getElem?_append_right late, Nat.add_sub_cancel_left, List.getElem?_map] at lookup
      obtain ⟨f, found, rfl⟩ := Option.map_eq_some_iff.mp lookup
      have inside : k + 1 < u.size := by
        rw [acceptedToo.overlays.size]
        exact Nat.succ_lt_succ (List.getElem?_eq_some_iff.mp found).1
      have number : es.length + k + 1 = later (t.size - 1) (k + 1) := by
        rw [accepted.offset_eq]
        rfl
      rw [number, Tree.node_followedBy_second (Nat.succ_pos k) inside,
        Node.bare_later_of_bare_eq (m := Nesting.node f (k + 1)) (acceptedToo.overlays.entry found)]
      rfl
  parent := by
    intro s i
    have meet := accepted.meet acceptedToo
    rcases Nat.lt_or_ge i t.size with early | late
    · rw [Tree.parent_followedBy_first early, accepted.overlays.parent,
        parentIn_append_of_le s _ (by rw [accepted.overlays.size] at early; omega)]
    · rcases Nat.lt_or_ge i (t.followedBy u lines).size with inside | outside
      · obtain ⟨i, -, own, rfl⟩ := Tree.Meet.exists_later late inside meet.rooted
        rw [meet.parent_second own, accepted.offset_eq, accepted.parentIn_sequel acceptedToo own]
      · rw [Tree.parent_of_size_le outside, parentIn_of_length_lt]
        rw [Tree.size_followedBy meet.rooted, accepted.overlays.size, acceptedToo.overlays.size]
          at outside
        rw [List.length_append, List.length_map]
        omega
  children := fun s p => accepted.children_sequel acceptedToo s p lines

theorem sequel (lines : Nat) :
    Accepted (es ++ fs.map (Entry.later lines)) (t.followedBy u lines) where
  overlays := accepted.overlays_sequel acceptedToo lines
  proper := by
    intro e member
    rcases List.mem_append.mp member with early | late
    · exact accepted.proper e early
    · obtain ⟨f, listed, rfl⟩ := List.mem_map.mp late
      exact ⟨(acceptedToo.proper f listed).line, (acceptedToo.proper f listed).guarded⟩
  closed := fun s => by rw [scopes?_sequel (accepted.closed s), acceptedToo.closed]

/-- The branches before a node of the second tree are nodes of the second tree. -/
theorem size_le_of_mem_rivals {lines : Nat} {s : Side} {i b : Nat} (late : t.size ≤ i)
    (present : ((t.followedBy u lines).node i).existsOn s)
    (rival : b ∈ (t.followedBy u lines).rivals s i) : t.size ≤ b := by
  refine (accepted.sequel acceptedToo lines).rival_induction
    (motive := fun i b => t.size ≤ i → t.size ≤ b) (fun {k b e} _ member late => ?_)
    (fun first second late => second (first late)) present rival late
  rw [accepted.overlays.size] at late
  obtain ⟨k, rfl⟩ := Nat.exists_eq_add_of_le (Nat.le_of_succ_le_succ late)
  rw [accepted.openBranches_take_sequel, List.mem_map] at member
  obtain ⟨c, listed, rfl⟩ := member
  obtain ⟨j, f, rfl, -⟩ := exists_entry_of_mem_openBranches listed
  rw [accepted.overlays.size, later]
  omega

/-! Presence conditions. -/

theorem presenceCondition_first (lines : Nat) {s : Side} {i : Nat} (inside : i < t.size)
    (present : (t.node i).existsOn s) :
    (t.followedBy u lines).presenceCondition s i = t.presenceCondition s i := by
  have meet := accepted.meet acceptedToo
  have embeds := meet.sideEmbeds_first lines s
  have whole := accepted.sequel acceptedToo lines
  have placed : t.firstPlace? i = some i := Tree.firstPlace?_eq_some_iff.mpr ⟨inside, rfl⟩
  refine (whole.presenceCondition_place embeds accepted.linked.ordered
    (fun placed linked =>
      Tree.isSome_firstPlace?_of_lt (whole.linked.ordered s _ _ linked) placed)
    (fun placed present rival =>
      Tree.isSome_firstPlace?_of_lt (whole.lt_of_mem_rivals present rival) placed) placed ?_).symm
  rw [← embeds.existsOn placed]
  exact present

theorem presenceCondition_second (lines : Nat) {s : Side} {i : Nat} (inside : i < u.size)
    (present : (u.node i).existsOn s) :
    (t.followedBy u lines).presenceCondition s (later (t.size - 1) i) =
      u.presenceCondition s i := by
  have meet := accepted.meet acceptedToo
  have embeds := meet.sideEmbeds_second lines s
  have whole := accepted.sequel acceptedToo lines
  have placed := meet.secondPlace?_eq_some_iff.mpr ⟨inside, rfl⟩
  have stays {j : Nat} (late : t.size ≤ j) (inside : j < (t.followedBy u lines).size) :
      (t.secondPlace? u j).isSome := by
    obtain ⟨i, -, own, rfl⟩ := Tree.Meet.exists_later late inside meet.rooted
    rw [meet.secondPlace?_eq_some_iff.mpr ⟨own, rfl⟩, Option.isSome_some]
  refine (whole.presenceCondition_place embeds acceptedToo.linked.ordered
    (fun placed linked => meet.isSome_secondPlace?_of_parent placed linked) ?_ placed ?_).symm
  · intro c b placed present rival
    obtain ⟨i, placed⟩ := Option.isSome_iff_exists.mp placed
    obtain ⟨own, rfl⟩ := meet.secondPlace?_eq_some_iff.mp placed
    have positive : 0 < i := by
      refine Nat.pos_of_ne_zero fun root => ?_
      have further := Tree.further_of_mem_rivals rival
      rw [meet.kind_second own, root, acceptedToo.overlays.kind_root] at further
      simp at further
    have late := accepted.size_le_of_mem_rivals acceptedToo (Tree.Meet.size_le_later positive)
      present rival
    exact stays late (Tree.lt_size_of_hasGuard (Tree.hasGuard_of_mem_rivals rival))
  · rw [← embeds.existsOn placed]
    exact present

end Accepted

theorem Joins.parse_eq {first second path commit : String} (joins : Joins first second)
    {t u : Tree} (parsed : parse first path commit = .ok (.ok t))
    (parsedToo : parse second path commit = .ok (.ok u)) :
    parse (first ++ second) path commit = .ok (.ok (t.followedBy u (lineCount first))) := by
  have whole := (accepted_of_parse parsed).sequel (accepted_of_parse parsedToo) (lineCount first)
  obtain ⟨hunk, ending, source⟩ := Reading.source_of_toTree (entriesOf_proper first) parsed
  obtain ⟨hunkToo, endingToo, sourceToo⟩ :=
    Reading.source_of_toTree (entriesOf_proper second) parsedToo
  obtain ⟨p, q, rfl, rfl, entries, endingBoth⟩ := joins.ends ⟨rfl, ending⟩ ⟨rfl, endingToo⟩
  have proper := entriesOf_proper (first ++ second)
  have same : entriesOf (first ++ second) =
      entriesOf first ++ (entriesOf second).map (Entry.later (lineCount first)) := entries
  obtain ⟨v, parsedBoth⟩ := (Reading.exists_toTree_iff proper ⟨path, commit, none⟩).mpr
    ⟨⟨_, endingBoth⟩, fun s => by
      have closed := whole.closed s
      rwa [← same] at closed⟩
  obtain ⟨hunkBoth, ended, sourceBoth⟩ := Reading.source_of_toTree proper parsedBoth
  obtain rfl := Except.ok.inj (endingBoth.symm.trans ended)
  have accepted := accepted_of_parse parsedBoth
  rw [same] at accepted
  have equal : v = t.followedBy u (lineCount first) := by
    refine accepted.overlays.unique whole.overlays ?_
    rw [sourceBoth, Tree.followedBy, source, sourceToo]
    rfl
  rw [← equal]
  exact parsedBoth

end Patch

end Variability
