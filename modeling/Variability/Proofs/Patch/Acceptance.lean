import Variability.Proofs.Patch.Balance
import Variability.Proofs.Patch.Flawless
import Variability.Proofs.Patch.Lines
import Variability.Proofs.Patch.Outline

/-!
Which patches are trees. Parsing gives a tree exactly when no continuation mixes edits, every guard
can be read and the directives of both sides are balanced; the tree is then well formed.
-/

namespace Variability.Patch

/-- What entries and the tree that was made of them have in common. -/
structure Accepted (es : List Entry) (t : Tree) : Prop where
  overlays : Overlays t es
  proper : ∀ e ∈ es, e.Proper
  closed : ∀ s, scopes? s es = some []

namespace Accepted

variable {es : List Entry} {t : Tree} (accepted : Accepted es t)
include accepted

theorem line {k : Nat} {e : Entry} (lookup : es[k]? = some e) : e.kind ≠ .root :=
  (accepted.proper e (List.mem_of_getElem? lookup)).line

theorem exists_directive {i : Nat} (notRoot : (t.node i).kind ≠ .root)
    (notCode : (t.node i).kind ≠ .code) : ∃ k e, i = k + 1 ∧ es[k]? = some e := by
  apply accepted.overlays.lookup (Tree.lt_size_of_kind_ne_code notCode)
  rintro rfl
  exact notRoot accepted.overlays.kind_root

end Accepted

namespace Nesting

def closed (s : Nesting) (hunk : Option HunkRange) : Tree :=
  { s.tree with source := { s.tree.source with hunk } }

theorem Built.closed {s : Nesting} {es : List Entry} (built : Built s es)
    (hunk : Option HunkRange) : Overlays (s.closed hunk) es :=
  ⟨built.tree.size, built.tree.shape, built.tree.root, built.tree.entry, built.tree.parent,
    built.tree.children⟩

theorem Built.finish_cases {s : Nesting} {es : List Entry} (built : Built s es)
    (lines : ∀ e ∈ es, e.kind ≠ .root) (hunk : Option HunkRange) :
    (∀ d, s.scopes d = []) ∧ s.finish hunk = .ok (s.closed hunk) ∨
      (∃ d, s.scopes d ≠ []) ∧
        ∃ line side, s.finish hunk = .error (.unclosedConditional line side) := by
  have flawless : (s.closed hunk).firstFlaw? = none := (built.closed hunk).firstFlaw?_eq_none lines
  unfold finish
  cases found : Side.all.find? fun side => !(s.branches side).isEmpty with
  | some side =>
      have opened := List.find?_some found
      exact .inr ⟨⟨side, by simpa [scopes] using opened⟩, _, _, rfl⟩
  | none =>
      refine .inl ⟨?_, ?_⟩
      · intro d
        have nothing := List.find?_eq_none.mp found d (Side.mem_all d)
        simpa [scopes] using nothing
      · simp only
        rw [← Nesting.closed, flawless]

theorem Built.finish_ok_iff {s : Nesting} {es : List Entry} (built : Built s es)
    (lines : ∀ e ∈ es, e.kind ≠ .root) {hunk : Option HunkRange} {t : Tree} :
    s.finish hunk = .ok t ↔ t = s.closed hunk ∧ ∀ d, s.scopes d = [] := by
  rcases built.finish_cases lines hunk with ⟨nothing, finished⟩ | ⟨⟨d, opened⟩, _, _, refused⟩
  · rw [finished]
    exact ⟨fun same => ⟨(Except.ok.inj same).symm, nothing⟩, fun same => by rw [same.1]⟩
  · rw [refused]
    exact ⟨(nomatch ·), fun both => absurd (both.2 d) opened⟩

theorem Built.finish_consistent {s : Nesting} {es : List Entry} (built : Built s es)
    (lines : ∀ e ∈ es, e.kind ≠ .root) (hunk : Option HunkRange) (flaw : Flaw) :
    s.finish hunk ≠ .error (.inconsistent flaw) := by
  rcases built.finish_cases lines hunk with ⟨-, finished⟩ | ⟨-, _, _, refused⟩
  · simp [finished]
  · simp [refused]

private theorem foldlM_sides_consistent {f : Nesting → Side → Except PatchError Nesting}
    {flaw : Flaw} (step : ∀ s side, f s side ≠ .error (.inconsistent flaw)) (sides : List Side)
    (s : Nesting) : sides.foldlM f s ≠ .error (.inconsistent flaw) := by
  induction sides generalizing s with
  | nil => simp [pure, Except.pure]
  | cons side sides ih =>
      rw [List.foldlM_cons]
      cases first : f s side with
      | error e =>
          simp only [bind, Except.bind]
          exact first ▸ step s side
      | ok next =>
          exact ih next

theorem prepare_consistent (e : Entry) (s : Nesting) (flaw : Flaw) :
    s.prepare e ≠ .error (.inconsistent flaw) := by
  have further : e.edit.sides.foldlM (endBranch e) s ≠ .error (.inconsistent flaw) :=
    foldlM_sides_consistent (fun s side => by unfold endBranch; split <;> simp) _ s
  have closing : e.edit.sides.foldlM (expectBranch e) s ≠ .error (.inconsistent flaw) :=
    foldlM_sides_consistent (fun s side => by unfold expectBranch; split <;> simp) _ s
  unfold prepare
  split
  · exact further
  · exact further
  · exact closing
  all_goals simp

theorem Built.place_consistent {s : Nesting} {es : List Entry} {e : Entry} (built : Built s es)
    (line : e.kind ≠ .root) (flaw : Flaw) : s.place e ≠ .error (.inconsistent flaw) := by
  intro refused
  cases prepareEq : s.prepare e with
  | error err =>
      have : s.place e = .error err := by simp [Nesting.place, prepareEq, bind, Except.bind]
      rw [this] at refused
      rw [refused] at prepareEq
      exact prepare_consistent e s flaw prepareEq
  | ok prepared =>
      obtain ⟨s', placed⟩ := built.exists_place line prepareEq
      rw [placed] at refused
      simp at refused

theorem Built.foldlM_consistent {s : Nesting} {es rest : List Entry} (built : Built s es)
    (lines : ∀ e ∈ rest, e.kind ≠ .root) (flaw : Flaw) :
    rest.foldlM Nesting.place s ≠ .error (.inconsistent flaw) := by
  induction rest generalizing s es with
  | nil => simp [pure, Except.pure]
  | cons e rest ih =>
      have line : e.kind ≠ .root := lines e (by simp)
      rw [List.foldlM_cons]
      cases first : s.place e with
      | error err =>
          simp only [bind, Except.bind]
          exact first ▸ built.place_consistent line flaw
      | ok next => exact ih (built.place first) fun f member => lines f (by simp [member])

end Nesting

namespace Reading

variable {r : Reading} (proper : ∀ e ∈ r.entries, e.Proper)
include proper

theorem toTree_ok_iff {source : Source} {t : Tree} :
    r.toTree source = .ok (.ok t) ↔
      ∃ built hunk, r.entries.foldlM Nesting.place (.start source) = .ok built ∧
        r.ending = .ok hunk ∧ t = built.closed hunk ∧ ∀ s, scopes? s r.entries = some [] := by
  have lines : ∀ e ∈ r.entries, e.kind ≠ .root := fun e member => (proper e member).line
  unfold toTree
  cases placed : r.entries.foldlM Nesting.place (.start source) with
  | error e => simp
  | ok built =>
      have scopes := Nesting.Built.scopes?_eq lines placed
      have finished {hunk : Option HunkRange} : built.finish hunk = .ok t ↔
          t = built.closed hunk ∧ ∀ d, built.scopes d = [] :=
        ((Nesting.Built.start source).foldlM placed).finish_ok_iff lines
      cases ending : r.ending with
      | error stop => cases stop <;> simp
      | ok hunk =>
          simp [finished, scopes]

theorem exists_toTree_iff (source : Source) :
    (∃ t, r.toTree source = .ok (.ok t)) ↔
      (∃ hunk, r.ending = .ok hunk) ∧ ∀ s, scopes? s r.entries = some [] := by
  simp only [toTree_ok_iff proper]
  constructor
  · rintro ⟨t, built, hunk, -, ending, -, closed⟩
    exact ⟨⟨hunk, ending⟩, closed⟩
  · rintro ⟨⟨hunk, ending⟩, closed⟩
    obtain ⟨built, placed⟩ :=
      (Nesting.exists_foldlM_place_iff source fun e member => (proper e member).line).mpr
        fun s => by rw [closed]; rfl
    exact ⟨_, built, hunk, placed, ending, rfl, closed⟩

theorem accepted_of_toTree {source : Source} {t : Tree}
    (parsed : r.toTree source = .ok (.ok t)) : Accepted r.entries t := by
  obtain ⟨built, hunk, placed, -, rfl, closed⟩ := (toTree_ok_iff proper).mp parsed
  exact ⟨((Nesting.Built.start source).foldlM placed).closed hunk, proper, closed⟩

theorem toTree_consistent (source : Source) (flaw : Flaw)
    (ending : r.ending ≠ .error (.rejected (.inconsistent flaw))) :
    r.toTree source ≠ .ok (.error (.inconsistent flaw)) := by
  have lines : ∀ e ∈ r.entries, e.kind ≠ .root := fun e member => (proper e member).line
  have started := Nesting.Built.start source
  unfold toTree
  cases placed : r.entries.foldlM Nesting.place (.start source) with
  | error e =>
      have consistent := started.foldlM_consistent lines flaw
      simpa [placed] using consistent
  | ok built =>
      have consistent (hunk : Option HunkRange) : built.finish hunk ≠ .error (.inconsistent flaw) :=
        (started.foldlM placed).finish_consistent lines hunk flaw
      cases stopped : r.ending with
      | error stop =>
          cases stop with
          | rejected e => simpa [stopped] using ending
          | faulted fault => simp
      | ok hunk => simpa using consistent hunk

end Reading

theorem read_rejects {hunk : Option HunkRange} {n : Nat} {open? : Option Piece}
    {lines : List (List Char)} (flaw : Flaw) :
    (read hunk n open? lines).ending ≠ .error (.rejected (.inconsistent flaw)) := by
  fun_induction read hunk n open? lines <;> simp_all [Reading.stop, Reading.done, Reading.cons]

/-- The entries of the text of a patch. -/
def entriesOf (text : String) : List Entry :=
  (readLines (Text.lines text.toList)).entries

theorem entriesOf_proper (text : String) : ∀ e ∈ entriesOf text, e.Proper :=
  read_proper none 1 none _

theorem accepted_of_parse {text path commit : String} {t : Tree}
    (parsed : parse text path commit = .ok (.ok t)) : Accepted (entriesOf text) t :=
  Reading.accepted_of_toTree (entriesOf_proper text) parsed

theorem map_kind_sideLines (s : Side) (es : List Entry) :
    (sideLines s es).map (·.1.kind) = (es.filter (·.edit.existsOn s)).map (·.kind) := by
  induction es using List.reverseRecOn with
  | nil => rfl
  | append_singleton es e ih =>
      rw [sideLines_append, List.map_append, List.filter_append, List.map_append, ih]
      by_cases present : e.edit.existsOn s <;> simp [present]

theorem Statement.directive?_eq {st : Statement} {e : Entry}
    (read : Entry.ofText st.edit st.lines st.text = .ok e) :
    st.directive? = if e.kind.isDirective then some e.kind else none := by
  unfold directive?
  rcases Entry.ofText_kind read with ⟨directive, line, kind, -⟩ | ⟨line, kind, -⟩
  · simp [line, kind, (Directive.ofLine_ok line).1]
  · simp [line, kind, NodeKind.isDirective]

theorem Outline.directives_eq {o : Outline} (readable : ∀ st ∈ o.statements, st.Readable)
    (s : Side) :
    o.directives s =
      (((o.statements.filterMap (·.line?)).filter (·.edit.existsOn s)).map (·.kind)).filter
        NodeKind.isDirective := by
  obtain ⟨hunks, statements⟩ := o
  change ∀ st ∈ statements, st.Readable at readable
  simp only [directives]
  induction statements with
  | nil => rfl
  | cons st statements ih =>
      have ih := ih fun st member => readable st (by simp [member])
      obtain ⟨e, read⟩ := Statement.readable_iff.mp (readable st (by simp))
      have edit : e.edit = st.edit := Entry.ofText_edit read
      rw [List.filterMap_cons_some (Statement.line?_eq read), List.filter_cons, List.filter_cons,
        edit]
      split
      · rw [List.filterMap_cons, Statement.directive?_eq read, List.map_cons, List.filter_cons, ih]
        by_cases directive : e.kind.isDirective <;> simp [directive]
      · exact ih

theorem scopes?_eq_foldlM_directives {es : List Entry} (proper : ∀ e ∈ es, e.Proper) (s : Side) :
    scopes? s es =
      (((es.filter (·.edit.existsOn s)).map (·.kind)).filter NodeKind.isDirective).foldlM
        advance [] := by
  rw [scopes?, map_kind_sideLines, foldlM_advance_filter_isDirective]
  intro kind member
  obtain ⟨e, listed, rfl⟩ := List.mem_map.mp member
  exact (proper e (List.mem_filter.mp listed).1).line

theorem Outline.scopes?_eq_nil_iff {o : Outline} (readable : ∀ st ∈ o.statements, st.Readable)
    (proper : ∀ e ∈ o.statements.filterMap (·.line?), e.Proper) (s : Side) :
    scopes? s (o.statements.filterMap (·.line?)) = some [] ↔ Balanced (o.directives s) := by
  rw [balanced_iff_foldlM_advance, o.directives_eq readable, scopes?_eq_foldlM_directives proper]
  rw [o.directives_eq readable]
  intro kind member
  exact (List.mem_filter.mp member).2

theorem exists_parse_of_fits {text : String} (path commit : String)
    (fits : (Outline.ofText text).Fits) : ∃ result, parse text path commit = .ok result := by
  obtain ⟨covered, fits⟩ := fits
  unfold parse Reading.toTree
  split
  · exact ⟨_, rfl⟩
  · split
    · exact ⟨_, rfl⟩
    · next faulted =>
        have overflow := coverAll?_eq_none_of_faulted none faulted
        change coverAll? none (Outline.ofText text).hunks = none at overflow
        rw [fits] at overflow
        cases overflow
    · exact ⟨_, rfl⟩

/-- Whether a patch becomes a tree that passes a test. -/
def parsesTo (text path commit : String) (test : Tree → Bool) : Bool :=
  match parse text path commit with
  | .ok (.ok t) => test t
  | .ok (.error _) | .error _ => false

theorem exists_of_parsesTo {text path commit : String} {test : Tree → Bool}
    (parses : parsesTo text path commit test) :
    ∃ t, parse text path commit = .ok (.ok t) ∧ test t := by
  unfold parsesTo at parses
  split at parses
  · next t parsed => exact ⟨t, parsed, parses⟩
  all_goals cases parses

/-- A patch becomes a tree exactly when its hunks fit into one range, no continuation mixes edits,
every guard can be read, and the directives of both sides are balanced. Hunks that fit never make
the parser fault, no patch is refused as inconsistent, and the tree of a patch has no flaw and one
root, which is the root of both sides. -/
theorem parse_accepts_balanced (text path commit : String) :
    ((∃ t, parse text path commit = .ok (.ok t)) ↔
      (Outline.ofText text).Fits ∧
        (∀ st ∈ (Outline.ofText text).statements, st.Uniform ∧ st.Readable) ∧
        ∀ s, Balanced ((Outline.ofText text).directives s)) ∧
    ((Outline.ofText text).Fits → ∃ result, parse text path commit = .ok result) ∧
    (∀ flaw, parse text path commit ≠ .ok (.error (.inconsistent flaw))) ∧
    ∀ t, parse text path commit = .ok (.ok t) →
      t.firstFlaw? = none ∧ (t.node 0).kind = .root ∧ ∀ s, t.roots s = [0] := by
  have proper := entriesOf_proper text
  have ends (entries : List Entry) (covered : Option HunkRange) :
      (readLines (Text.lines text.toList)).Ends entries covered ↔
        (Outline.ofText text).Passes none entries covered :=
    read_ends_iff none (by simp) entries
  have accepts := Reading.exists_toTree_iff proper ⟨path, commit, none⟩
  refine ⟨?_, exists_parse_of_fits path commit, ?_, ?_⟩
  · constructor
    · intro parsed
      obtain ⟨⟨hunk, ending⟩, closed⟩ := accepts.mp parsed
      obtain ⟨fits, sound, entries⟩ := (ends _ hunk).mp ⟨rfl, ending⟩
      refine ⟨⟨hunk, fits⟩, sound, fun s => ?_⟩
      rw [← Outline.scopes?_eq_nil_iff (fun st member => (sound st member).2) (entries ▸ proper),
        ← entries]
      exact closed s
    · rintro ⟨⟨hunk, fits⟩, sound, balanced⟩
      obtain ⟨entries, ending⟩ := (ends _ hunk).mpr ⟨fits, sound, rfl⟩
      refine accepts.mpr ⟨⟨hunk, ending⟩, fun s => ?_⟩
      rw [entries, Outline.scopes?_eq_nil_iff (fun st member => (sound st member).2)
        (entries ▸ proper)]
      exact balanced s
  · intro flaw
    exact Reading.toTree_consistent proper _ flaw (read_rejects flaw)
  · intro t parsed
    have accepted := accepted_of_parse parsed
    have lines : ∀ e ∈ entriesOf text, e.kind ≠ .root := fun e member => (proper e member).line
    exact ⟨accepted.overlays.firstFlaw?_eq_none lines, accepted.overlays.kind_root,
      accepted.overlays.roots_eq lines⟩

end Variability.Patch
