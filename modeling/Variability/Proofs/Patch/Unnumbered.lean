import Variability.Proofs.Patch.Reversal
import Variability.Proofs.Patch.Seam

/-!
Patches that differ in the numbers of their lines. An outline says what a patch becomes: two patches
whose outlines have the same hunks and, one by one, statements that are read alike are both accepted
or neither is, and they have the same tree up to line numbers.
-/

namespace Variability

def Node.unnumbered (n : Node) : Node :=
  { n with lines := ⟨0, 0⟩ }

namespace Tree

/-- A tree without the numbers of the lines that its nodes come from. -/
def unnumbered (t : Tree) : Tree :=
  t.mapNodes Node.unnumbered

variable (t : Tree) (s : Side)

@[simp] theorem size_unnumbered : t.unnumbered.size = t.size :=
  size_mapNodes _ t

@[simp] theorem node_unnumbered (i : Nat) : t.unnumbered.node i = (t.node i).unnumbered := by
  rcases Nat.lt_or_ge i t.size with inside | outside
  · exact node_mapNodes_of_lt inside Node.unnumbered
  · rw [node_of_size_le outside, node_of_size_le (by rwa [size_unnumbered])]
    rfl

@[simp] theorem parent_unnumbered (i : Nat) : t.unnumbered.parent s i = t.parent s i := by
  rw [parent, node_unnumbered]
  cases s <;> rfl

@[simp] theorem children_unnumbered (i : Nat) : t.unnumbered.children s i = t.children s i := by
  rw [children, node_unnumbered]
  cases s <;> rfl

end Tree

namespace Patch

/-- Two patches that become the same tree up to line numbers, or are both refused. -/
structure ParsedAlike (first second : String) : Prop where
  accepted : ∀ path commit, (∃ t, parse first path commit = .ok (.ok t)) ↔
    ∃ u, parse second path commit = .ok (.ok u)
  same : ∀ {path commit t u}, parse first path commit = .ok (.ok t) →
    parse second path commit = .ok (.ok u) → t.unnumbered = u.unnumbered

def Entry.unnumbered (e : Entry) : Entry :=
  { e with lines := ⟨0, 0⟩ }

theorem sideLines_unnumbered (s : Side) (es : List Entry) :
    sideLines s (es.map Entry.unnumbered) =
      (sideLines s es).map (Prod.map Entry.unnumbered id) := by
  rw [sideLines, List.zipIdx_map, List.filter_map, sideLines]
  rfl

theorem openBranches_unnumbered (s : Side) (es : List Entry) :
    openBranches s (es.map Entry.unnumbered) = openBranches s es := by
  rw [openBranches, sideLines_unnumbered, List.foldl_map]
  rfl

theorem parentIn_unnumbered (s : Side) (es : List Entry) (i : Nat) :
    parentIn s (es.map Entry.unnumbered) i = parentIn s es i := by
  cases i with
  | zero => rfl
  | succ k =>
      rw [parentIn, parentIn, List.getElem?_map, ← List.map_take, openBranches_unnumbered,
        Option.bind_map]
      rfl

theorem scopes?_unnumbered (s : Side) (es : List Entry) :
    scopes? s (es.map Entry.unnumbered) = scopes? s es := by
  rw [scopes?, scopes?, sideLines_unnumbered, List.map_map]
  rfl

theorem Overlays.unnumbered {t : Tree} {es : List Entry} (overlays : Overlays t es) :
    Overlays t.unnumbered (es.map Entry.unnumbered) where
  size := by rw [Tree.size_unnumbered, List.length_map, overlays.size]
  shape := overlays.shape
  root := by
    rw [Tree.node_unnumbered]
    exact congrArg Node.unnumbered overlays.root
  entry := by
    intro k e lookup
    rw [List.getElem?_map] at lookup
    obtain ⟨f, found, rfl⟩ := Option.map_eq_some_iff.mp lookup
    rw [Tree.node_unnumbered]
    exact congrArg Node.unnumbered (overlays.entry found)
  parent := by
    intro s i
    rw [Tree.parent_unnumbered, parentIn_unnumbered, overlays.parent]
  children := by
    intro s p
    rw [Tree.children_unnumbered, Tree.size_unnumbered, overlays.children]
    simp only [Tree.parent_unnumbered]

/-- Two statements that have the same edit and become the same entry up to line numbers, if they
become one at all. -/
structure Statement.Alike (st st' : Statement) : Prop where
  uniform : st.Uniform ↔ st'.Uniform
  line : st.line?.map Entry.unnumbered = st'.line?.map Entry.unnumbered

namespace Statement

theorem Alike.refl (st : Statement) : st.Alike st :=
  ⟨Iff.rfl, rfl⟩

theorem Alike.symm {st st' : Statement} (alike : st.Alike st') : st'.Alike st :=
  ⟨alike.uniform.symm, alike.line.symm⟩

theorem isSome_line?_iff {st : Statement} : st.line?.isSome ↔ st.Readable := by
  rw [readable_iff, line?]
  cases Entry.ofText st.edit st.lines st.text <;> simp [Except.toOption]

theorem Alike.readable {st st' : Statement} (alike : st.Alike st') :
    st.Readable ↔ st'.Readable := by
  rw [← isSome_line?_iff, ← isSome_line?_iff, ← Option.isSome_map (f := Entry.unnumbered),
    alike.line, Option.isSome_map]

theorem alike_later (n m : Nat) (st : Statement) : (st.later n).Alike (st.later m) := by
  refine ⟨Iff.rfl, ?_⟩
  rw [line?_later, line?_later, Option.map_map, Option.map_map]
  rfl

theorem alike_of_text {st st' : Statement} (uniform : st.Uniform ↔ st'.Uniform)
    (edit : st.edit = st'.edit) (text : Directive.ofLine st.text = Directive.ofLine st'.text)
    (directive : Directive.isDirective st.text) : st.Alike st' := by
  obtain ⟨⟨keyword, rest⟩, found⟩ := Option.isSome_iff_exists.mp directive
  have read : Directive.ofLine st.text = (keyword.read rest).map some := by
    rw [Directive.ofLine, found]
  refine ⟨uniform, ?_⟩
  rw [line?, line?, Entry.ofText, Entry.ofText, ← edit, ← text, read]
  cases keyword.read rest with
  | error e => rfl
  | ok directive => obtain ⟨kind, _ | guard⟩ := directive <;> rfl

end Statement

/-- Outlines with the same hunks and, one by one, statements that are read alike. -/
structure Outline.Alike (o p : Outline) : Prop where
  hunks : o.hunks = p.hunks
  statements : List.Forall₂ Statement.Alike o.statements p.statements

namespace Outline.Alike

theorem refl (o : Outline) : o.Alike o :=
  ⟨rfl, List.forall₂_same.mpr fun st _ => .refl st⟩

theorem symm {o p : Outline} (alike : o.Alike p) : p.Alike o :=
  ⟨alike.hunks.symm, (alike.statements.imp fun _ _ => Statement.Alike.symm).flip⟩

theorem append {o o' p p' : Outline} (alike : o.Alike o') (alikeToo : p.Alike p') :
    (o.append p).Alike (o'.append p') :=
  ⟨congrArg₂ (· ++ ·) alike.hunks alikeToo.hunks,
    List.rel_append alike.statements alikeToo.statements⟩

theorem lines {o p : Outline} (alike : o.Alike p) :
    (o.statements.filterMap (·.line?)).map Entry.unnumbered =
      (p.statements.filterMap (·.line?)).map Entry.unnumbered := by
  have statements := alike.statements
  rw [List.map_filterMap, List.map_filterMap]
  generalize o.statements = sts, p.statements = sts' at statements
  induction statements with
  | nil => rfl
  | cons alike _ ih => rw [List.filterMap_cons, List.filterMap_cons, alike.line, ih]

theorem sound {o p : Outline} (alike : o.Alike p)
    (sound : ∀ st ∈ o.statements, st.Uniform ∧ st.Readable) :
    ∀ st ∈ p.statements, st.Uniform ∧ st.Readable := by
  have statements := alike.statements
  generalize o.statements = sts, p.statements = sts' at statements sound
  induction statements with
  | nil => exact sound
  | cons alike _ ih =>
      rw [List.forall_mem_cons] at sound ⊢
      exact ⟨⟨alike.uniform.mp sound.1.1, alike.readable.mp sound.1.2⟩, ih sound.2⟩

theorem passes {o p : Outline} (alike : o.Alike p) {hunk covered : Option HunkRange}
    {es : List Entry} (passes : o.Passes hunk es covered) :
    ∃ es', p.Passes hunk es' covered ∧ es'.map Entry.unnumbered = es.map Entry.unnumbered := by
  obtain ⟨covers, sound, rfl⟩ := passes
  exact ⟨_, ⟨alike.hunks ▸ covers, alike.sound sound, rfl⟩, alike.lines.symm⟩

end Outline.Alike

theorem outline_alike (inHunk : Bool) (n m : Nat) (lines : List (List Char)) :
    (outline inHunk n none lines).Alike (outline inHunk m none lines) := by
  have from0 (k : Nat) : outline inHunk k none lines = (outline inHunk 0 none lines).later k :=
    outline_later inHunk k 0 none lines
  rw [from0 n, from0 m]
  refine ⟨rfl, ?_⟩
  rw [Outline.later, Outline.later, List.forall₂_map_left_iff, List.forall₂_map_right_iff]
  exact List.forall₂_same.mpr fun st _ => st.alike_later n m

theorem passes_of_parse {text path commit : String} {t : Tree}
    (parsed : parse text path commit = .ok (.ok t)) :
    ∃ hunk, t.source = ⟨path, commit, hunk⟩ ∧
      (Outline.ofText text).Passes none (entriesOf text) hunk := by
  obtain ⟨hunk, ending, source⟩ := Reading.source_of_toTree (entriesOf_proper text) parsed
  exact ⟨hunk, source, (read_ends_iff none (by simp) _).mp ⟨rfl, ending⟩⟩

theorem exists_parse_of_passes {text : String} {es : List Entry} {hunk : Option HunkRange}
    (passes : (Outline.ofText text).Passes none es hunk) (closed : ∀ s, scopes? s es = some [])
    (path commit : String) :
    ∃ t, parse text path commit = .ok (.ok t) ∧ t.source = ⟨path, commit, hunk⟩ ∧
      Overlays t es := by
  obtain ⟨entries, ending⟩ := (read_ends_iff none (by simp) es).mpr passes
  have entries : entriesOf text = es := entries
  obtain ⟨t, parsed⟩ := (Reading.exists_toTree_iff (entriesOf_proper text) ⟨path, commit, none⟩).mpr
    ⟨⟨hunk, ending⟩, fun s => (congrArg (scopes? s) entries).trans (closed s)⟩
  obtain ⟨hunkToo, ended, source⟩ := Reading.source_of_toTree (entriesOf_proper text) parsed
  obtain rfl := Except.ok.inj (ending.symm.trans ended)
  exact ⟨t, parsed, source, entries ▸ (accepted_of_parse parsed).overlays⟩

/-- Patches with outlines that are alike have one tree, up to line numbers. -/
theorem exists_parse_of_alike {first second path commit : String} {t : Tree}
    (alike : (Outline.ofText first).Alike (Outline.ofText second))
    (parsed : parse first path commit = .ok (.ok t)) :
    ∃ u, parse second path commit = .ok (.ok u) ∧ u.unnumbered = t.unnumbered := by
  have accepted := accepted_of_parse parsed
  obtain ⟨hunk, source, passes⟩ := passes_of_parse parsed
  obtain ⟨es, passing, same⟩ := alike.passes passes
  have closed (s : Side) : scopes? s es = some [] := by
    rw [← scopes?_unnumbered, same, scopes?_unnumbered]
    exact accepted.closed s
  obtain ⟨u, parsedToo, sourceToo, overlays⟩ := exists_parse_of_passes passing closed path commit
  have unnumbered := overlays.unnumbered
  rw [same] at unnumbered
  exact ⟨u, parsedToo,
    unnumbered.unique accepted.overlays.unnumbered (sourceToo.trans source.symm)⟩

/-- The tree is read off the outline. -/
theorem parse_of_ofText_eq {first second path commit : String} {t : Tree}
    (same : Outline.ofText first = Outline.ofText second)
    (parsed : parse first path commit = .ok (.ok t)) : parse second path commit = .ok (.ok t) := by
  have accepted := accepted_of_parse parsed
  obtain ⟨hunk, source, passes⟩ := passes_of_parse parsed
  rw [same] at passes
  obtain ⟨u, parsedToo, sourceToo, overlays⟩ :=
    exists_parse_of_passes passes accepted.closed path commit
  rwa [← overlays.unique accepted.overlays (sourceToo.trans source.symm)]

/-- Both are accepted or neither is, with one tree up to line numbers. -/
theorem parsedAlike_of_alike {first second : String}
    (alike : (Outline.ofText first).Alike (Outline.ofText second)) :
    ParsedAlike first second where
  accepted := by
    intro path commit
    constructor
    · rintro ⟨t, parsed⟩
      obtain ⟨u, parsedToo, -⟩ := exists_parse_of_alike alike parsed
      exact ⟨u, parsedToo⟩
    · rintro ⟨u, parsed⟩
      obtain ⟨t, parsedToo, -⟩ := exists_parse_of_alike alike.symm parsed
      exact ⟨t, parsedToo⟩
  same := by
    intro path commit t u parsed parsedToo
    obtain ⟨v, parsedAgain, same⟩ := exists_parse_of_alike alike parsed
    obtain rfl := Except.ok.inj (Except.ok.inj (parsedToo.symm.trans parsedAgain))
    exact same.symm

end Patch

end Variability
