import Variability.Patch.Entry

/-!
The outline of a patch: its hunk ranges, and its statements, which are lines of code and directives
with the lines that continue them. An outline is read off any text; whether the lines of a statement
share one edit and whether its guard can be read is asked afterwards. Reading a patch goes through
to its end exactly when its outline passes, and then the entries are those of the statements.
-/

namespace Variability.Patch

open Text (startsWith)

/-- A line with the lines that continue it. -/
structure Statement where
  edit : Edit
  continuations : List Edit
  lines : LineSpan
  text : List Char

namespace Statement

/-- All lines have the same edit. -/
def Uniform (st : Statement) : Prop :=
  ∀ edit ∈ st.continuations, edit = st.edit

/-- The statement is code, or a directive whose guard can be read. -/
def Readable (st : Statement) : Prop :=
  ∃ directive, Directive.ofLine st.text = .ok directive

def directive? (st : Statement) : Option NodeKind :=
  match Directive.ofLine st.text with
  | .ok (some directive) => some directive.kind
  | .ok none | .error _ => none

def single (n : Nat) (line : List Char) : Statement where
  edit := (splitMarker line).1
  continuations := []
  lines := ⟨n, n⟩
  text := (splitMarker line).2

def join (st : Statement) (n : Nat) (line : List Char) : Statement where
  edit := st.edit
  continuations := st.continuations ++ [(splitMarker line).1]
  lines := ⟨st.lines.first, n⟩
  text := (continued? st.text).getD st.text ++ ' ' :: Text.trimStart (splitMarker line).2

end Statement

structure Outline where
  hunks : List HunkRange
  statements : List Statement

/-- The outline of the lines from number `n` on, with the directive that is being continued. -/
def outline (inHunk : Bool) (n : Nat) : Option Statement → List (List Char) → Outline
  | none, [] => ⟨[], []⟩
  | some st, [] => ⟨[], [st]⟩
  | none, line :: rest =>
    if startsWith ['@', '@'] line then
      match HunkRange.ofHeader? line with
      | none => outline inHunk (n + 1) none rest
      | some range =>
        let below := outline true (n + 1) none rest
        { below with hunks := range :: below.hunks }
    else if startsWith ['\\'] line then outline inHunk (n + 1) none rest
    else if !inHunk && isFileHeader line then outline inHunk (n + 1) none rest
    else
      let st := Statement.single n line
      if Directive.isDirective st.text && (continued? st.text).isSome then
        outline inHunk (n + 1) (some st) rest
      else
        let below := outline inHunk (n + 1) none rest
        { below with statements := st :: below.statements }
  | some st, line :: rest =>
    let st := st.join n line
    if (continued? st.text).isSome then outline inHunk (n + 1) (some st) rest
    else
      let below := outline inHunk (n + 1) none rest
      { below with statements := st :: below.statements }

/-- The range of all hunks; there is none when it leaves the words on the way. -/
def coverAll? : Option HunkRange → List HunkRange → Option (Option HunkRange)
  | hunk, [] => some hunk
  | hunk, range :: ranges => (widen? hunk range).bind fun hunk => coverAll? (some hunk) ranges

namespace Outline

def ofText (text : String) : Outline :=
  outline false 1 none (Text.lines text.toList)

/-- The hunk headers can be covered by one range. -/
def Fits (o : Outline) : Prop :=
  ∃ hunk, coverAll? none o.hunks = some hunk

/-- The directives that exist on a side. -/
def directives (o : Outline) (s : Side) : List NodeKind :=
  (o.statements.filter (·.edit.existsOn s)).filterMap (·.directive?)

end Outline

def Statement.line? (st : Statement) : Option Entry :=
  (Entry.ofText st.edit st.lines st.text).toOption

theorem Statement.readable_iff {st : Statement} :
    st.Readable ↔ ∃ e, Entry.ofText st.edit st.lines st.text = .ok e := by
  unfold Readable Entry.ofText
  cases Directive.ofLine st.text <;> simp [Except.map]

theorem Statement.line?_eq {st : Statement} {e : Entry}
    (read : Entry.ofText st.edit st.lines st.text = .ok e) : st.line? = some e := by
  rw [line?, read]
  rfl

/-- A reading that ended well with these entries and this range. -/
def Reading.Ends (r : Reading) (entries : List Entry) (hunk : Option HunkRange) : Prop :=
  r.entries = entries ∧ r.ending = .ok hunk

theorem Reading.ends_cons {r : Reading} {e : Entry} {entries : List Entry}
    {hunk : Option HunkRange} :
    (r.cons e).Ends entries hunk ↔ ∃ rest, entries = e :: rest ∧ r.Ends rest hunk := by
  constructor
  · rintro ⟨rfl, ending⟩
    exact ⟨r.entries, rfl, rfl, ending⟩
  · rintro ⟨rest, rfl, rfl, ending⟩
    exact ⟨rfl, ending⟩

theorem Reading.not_ends_stop {stop : Stop} {covered : Option HunkRange} {entries : List Entry} :
    ¬ (Reading.stop stop).Ends entries covered := by
  rintro ⟨-, ending⟩
  simp [Reading.stop] at ending

/-- What a passing outline amounts to, when hunks up to `hunk` stand before it. -/
def Outline.Passes (o : Outline) (hunk : Option HunkRange) (entries : List Entry)
    (covered : Option HunkRange) : Prop :=
  coverAll? hunk o.hunks = some covered ∧
    (∀ st ∈ o.statements, st.Uniform ∧ st.Readable) ∧
    entries = o.statements.filterMap (·.line?)

theorem Outline.passes_cons_statement {st : Statement} {o : Outline}
    {hunk covered : Option HunkRange} {e : Entry} {entries : List Entry} (uniform : st.Uniform)
    (read : Entry.ofText st.edit st.lines st.text = .ok e) :
    ({ o with statements := st :: o.statements } : Outline).Passes hunk entries covered ↔
      ∃ rest, entries = e :: rest ∧ o.Passes hunk rest covered := by
  have readable : st.Readable := Statement.readable_iff.mpr ⟨e, read⟩
  simp only [Passes, List.forall_mem_cons, List.filterMap_cons, Statement.line?_eq read]
  grind

theorem Outline.not_passes_cons_statement {st : Statement} {o : Outline}
    {hunk covered : Option HunkRange} {entries : List Entry} (unreadable : ¬ st.Readable) :
    ¬ ({ o with statements := st :: o.statements } : Outline).Passes hunk entries covered := by
  rintro ⟨-, sound, -⟩
  exact unreadable (sound st (by simp)).2

theorem Outline.passes_cons_hunk {range wide : HunkRange} {o : Outline}
    {hunk covered : Option HunkRange} {entries : List Entry}
    (widened : widen? hunk range = some wide) :
    ({ o with hunks := range :: o.hunks } : Outline).Passes hunk entries covered ↔
      o.Passes (some wide) entries covered := by
  simp [Passes, coverAll?, widened]

def Statement.piece (st : Statement) : Piece :=
  ⟨st.edit, st.lines, st.text⟩

def Statement.readBefore (st : Statement) (r : Reading) : Reading :=
  match Entry.ofText st.edit st.lines st.text with
  | .error e => .stop (.rejected (.malformedCondition st.lines.first e))
  | .ok entry => .cons entry r

theorem read_line (hunk : Option HunkRange) (n : Nat) (line : List Char)
    (rest : List (List Char)) :
    read hunk n none (line :: rest) =
      if startsWith ['@', '@'] line then
        match HunkRange.ofHeader? line with
        | none => read hunk (n + 1) none rest
        | some range =>
          match widen? hunk range with
          | none => .stop (.faulted .overflow)
          | some hunk => read (some hunk) (n + 1) none rest
      else if startsWith ['\\'] line then read hunk (n + 1) none rest
      else if hunk.isNone && isFileHeader line then read hunk (n + 1) none rest
      else if Directive.isDirective (Statement.single n line).text &&
          (continued? (Statement.single n line).text).isSome then
        read hunk (n + 1) (some (Statement.single n line).piece) rest
      else (Statement.single n line).readBefore (read hunk (n + 1) none rest) :=
  rfl

theorem read_continuation {hunk : Option HunkRange} {n : Nat} {st : Statement}
    {line : List Char} (same : (splitMarker line).1 = st.edit) (rest : List (List Char)) :
    read hunk n (some st.piece) (line :: rest) =
      if (continued? (st.join n line).text).isSome then
        read hunk (n + 1) (some (st.join n line).piece) rest
      else (st.join n line).readBefore (read hunk (n + 1) none rest) := by
  simp only [read, Statement.piece, same, ne_eq, not_true_eq_false, if_false]
  rfl

theorem read_mixed {hunk : Option HunkRange} {n : Nat} {st : Statement} {line : List Char}
    (changed : (splitMarker line).1 ≠ st.edit) (rest : List (List Char)) :
    read hunk n (some st.piece) (line :: rest) =
      .stop (.rejected (.mixedContinuation n)) := by
  simp [read, Statement.piece, changed]

theorem outline_continuation (inHunk : Bool) (n : Nat) (st : Statement) (line : List Char)
    (rest : List (List Char)) :
    outline inHunk n (some st) (line :: rest) =
      if (continued? (st.join n line).text).isSome then
        outline inHunk (n + 1) (some (st.join n line)) rest
      else
        { outline inHunk (n + 1) none rest with
          statements := st.join n line :: (outline inHunk (n + 1) none rest).statements } :=
  rfl

theorem Statement.ends_readBefore_iff {st : Statement} {r : Reading} {o : Outline}
    {hunk covered : Option HunkRange} {entries : List Entry} (uniform : st.Uniform)
    (below : ∀ entries, r.Ends entries covered ↔ o.Passes hunk entries covered) :
    (st.readBefore r).Ends entries covered ↔
      ({ o with statements := st :: o.statements } : Outline).Passes hunk entries covered := by
  unfold readBefore
  cases read : Entry.ofText st.edit st.lines st.text with
  | error e =>
      have unreadable : ¬ st.Readable := by
        rw [Statement.readable_iff, read]
        simp
      exact iff_of_false Reading.not_ends_stop (Outline.not_passes_cons_statement unreadable)
  | ok e =>
      rw [Outline.passes_cons_statement uniform read]
      simp only [Reading.ends_cons, below]

theorem Statement.Uniform.join_iff {st : Statement} (uniform : st.Uniform) (n : Nat)
    (line : List Char) : (st.join n line).Uniform ↔ (splitMarker line).1 = st.edit := by
  constructor
  · intro joined
    exact joined _ (List.mem_append_right _ (List.mem_singleton_self _))
  · intro same edit member
    rcases List.mem_append.mp member with old | last
    · exact uniform edit old
    · rw [List.mem_singleton.mp last, same]
      rfl

theorem Statement.Uniform.of_join {st : Statement} {n : Nat} {line : List Char}
    (uniform : (st.join n line).Uniform) : st.Uniform := by
  intro edit member
  exact uniform edit (List.mem_append_left _ member)

/-- Where the lines of a directive have different edits, they still do with those that follow. -/
theorem exists_mixed {inHunk : Bool} {n : Nat} {st : Statement} {lines : List (List Char)}
    (mixed : ¬ st.Uniform) :
    ∃ st' ∈ (outline inHunk n (some st) lines).statements, ¬ st'.Uniform := by
  induction lines generalizing n st with
  | nil => exact ⟨st, List.mem_singleton_self st, mixed⟩
  | cons line rest ih =>
      have stillMixed : ¬ (st.join n line).Uniform := fun uniform => mixed uniform.of_join
      rw [outline_continuation]
      split
      · exact ih stillMixed
      · exact ⟨st.join n line, List.mem_cons_self, stillMixed⟩

theorem Outline.not_passes_of_mixed {inHunk : Bool} {n : Nat} {st : Statement}
    {lines : List (List Char)} {hunk covered : Option HunkRange} {entries : List Entry}
    (mixed : ¬ st.Uniform) :
    ¬ (outline inHunk n (some st) lines).Passes hunk entries covered := by
  rintro ⟨-, sound, -⟩
  obtain ⟨st', listed, stillMixed⟩ := exists_mixed mixed
  exact stillMixed (sound st' listed).1

theorem read_ends_iff {hunk covered : Option HunkRange} {n : Nat} {lines : List (List Char)}
    (opened : Option Statement) (uniform : ∀ st ∈ opened, st.Uniform) (entries : List Entry) :
    (read hunk n (opened.map (·.piece)) lines).Ends entries covered ↔
      (outline hunk.isSome n opened lines).Passes hunk entries covered := by
  induction lines generalizing hunk n opened entries with
  | nil =>
      have done : ∀ entries, (Reading.done hunk).Ends entries covered ↔
          (⟨[], []⟩ : Outline).Passes hunk entries covered := by
        intro entries
        simp [Reading.done, Reading.Ends, Outline.Passes, coverAll?, and_comm, eq_comm]
      cases opened with
      | none => exact done entries
      | some st => exact Statement.ends_readBefore_iff (uniform st rfl) done
  | cons line rest ih =>
      have skip (hunk : Option HunkRange) (entries : List Entry) :
          (read hunk (n + 1) none rest).Ends entries covered ↔
            (outline hunk.isSome (n + 1) none rest).Passes hunk entries covered :=
        ih none (by simp) entries
      cases opened with
      | none =>
          have alone : (Statement.single n line).Uniform := by
            simp [Statement.Uniform, Statement.single]
          unfold outline
          rw [Option.map_none, read_line]
          simp only [Option.not_isSome]
          split
          · cases header : HunkRange.ofHeader? line with
            | none => exact skip hunk entries
            | some range =>
                cases widened : widen? hunk range with
                | none =>
                    simp only [widened]
                    refine iff_of_false Reading.not_ends_stop ?_
                    rintro ⟨covers, -⟩
                    simp [coverAll?, widened] at covers
                | some wide =>
                    rw [Outline.passes_cons_hunk widened]
                    simpa only [widened, Option.isSome_some] using skip (some wide) entries
          · split
            · exact skip hunk entries
            · split
              · exact skip hunk entries
              · split
                · exact ih (some (.single n line)) (by simpa using alone) entries
                · exact Statement.ends_readBefore_iff alone (skip hunk)
      | some st =>
          have whole : st.Uniform := uniform st rfl
          rw [Option.map_some, outline_continuation]
          by_cases same : (splitMarker line).1 = st.edit
          · have joined : (st.join n line).Uniform := (whole.join_iff n line).mpr same
            rw [read_continuation same]
            split
            · exact ih (some (st.join n line)) (by simpa using joined) entries
            · exact Statement.ends_readBefore_iff joined (skip hunk)
          · rw [read_mixed same]
            refine iff_of_false Reading.not_ends_stop ?_
            have mixed : ¬ (st.join n line).Uniform := by rwa [whole.join_iff]
            split
            · exact Outline.not_passes_of_mixed mixed
            · rintro ⟨-, sound, -⟩
              exact mixed (sound (st.join n line) (by simp)).1

theorem Statement.faulted_of_readBefore (st : Statement) {r : Reading} {fault : Fault}
    (faulted : (st.readBefore r).ending = .error (.faulted fault)) :
    r.ending = .error (.faulted fault) := by
  unfold readBefore at faulted
  split at faulted
  · simp [Reading.stop] at faulted
  · exact faulted

theorem coverAll?_eq_none_of_faulted {hunk : Option HunkRange} {n : Nat}
    {lines : List (List Char)} {fault : Fault} (opened : Option Statement)
    (faulted : (read hunk n (opened.map (·.piece)) lines).ending = .error (.faulted fault)) :
    coverAll? hunk (outline hunk.isSome n opened lines).hunks = none := by
  induction lines generalizing hunk n opened with
  | nil =>
      have done : (Reading.done hunk).ending ≠ .error (.faulted fault) := by simp [Reading.done]
      cases opened with
      | none => exact absurd faulted done
      | some st => exact absurd (st.faulted_of_readBefore faulted) done
  | cons line rest ih =>
      cases opened with
      | none =>
          unfold outline
          rw [Option.map_none, read_line] at faulted
          simp only [Option.not_isSome]
          split at faulted
          · next isHeader =>
              rw [if_pos isHeader]
              cases header : HunkRange.ofHeader? line with
              | none =>
                  rw [header] at faulted
                  exact ih none faulted
              | some range =>
                  simp only [header] at faulted
                  cases widened : widen? hunk range with
                  | none => simp [coverAll?, widened]
                  | some wide =>
                      simp only [widened] at faulted
                      simpa [coverAll?, widened] using ih none faulted
          · next noHeader =>
              rw [if_neg noHeader]
              split at faulted
              · next isMarker =>
                  rw [if_pos isMarker]
                  exact ih none faulted
              · next noMarker =>
                  rw [if_neg noMarker]
                  split at faulted
                  · next isFile =>
                      rw [if_pos isFile]
                      exact ih none faulted
                  · next noFile =>
                      rw [if_neg noFile]
                      split at faulted
                      · next more =>
                          rw [if_pos more]
                          exact ih (some (.single n line)) faulted
                      · next alone =>
                          rw [if_neg alone]
                          exact ih none (Statement.faulted_of_readBefore _ faulted)
      | some st =>
          rw [Option.map_some] at faulted
          rw [outline_continuation]
          by_cases same : (splitMarker line).1 = st.edit
          · rw [read_continuation same] at faulted
            split at faulted
            · next more =>
                rw [if_pos more]
                exact ih (some (st.join n line)) faulted
            · next alone =>
                rw [if_neg alone]
                exact ih none (Statement.faulted_of_readBefore _ faulted)
          · rw [read_mixed same] at faulted
            simp [Reading.stop] at faulted

end Variability.Patch
