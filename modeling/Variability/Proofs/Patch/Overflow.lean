import Variability.Proofs.HunkRange
import Variability.Proofs.Patch.Acceptance

/-!
When the parser faults. A range that covers others needs their ends, and these may leave the words
although every number of a header is one. The parser comes to such a header unless something before
it is wrong, and on its way there it has read what the lines before amount to.
-/

namespace Variability

namespace HunkRange

theorem oldEnd_hull (r s : HunkRange) : (r.hull s).oldEnd = max r.oldEnd s.oldEnd := by
  simp only [hull, oldEnd]
  omega

theorem newEnd_hull (r s : HunkRange) : (r.hull s).newEnd = max r.newEnd s.newEnd := by
  simp only [hull, newEnd]
  omega

theorem hull_assoc (r s q : HunkRange) : (r.hull s).hull q = r.hull (s.hull q) := by
  rw [hull.eq_def (r.hull s) q, hull.eq_def r (s.hull q), oldEnd_hull, oldEnd_hull, newEnd_hull,
    newEnd_hull]
  simp only [hull, Nat.min_assoc, Nat.max_assoc]

theorem fits_hull_iff {r s : HunkRange} : (r.hull s).Fits ↔ r.Fits ∧ s.Fits := by
  simp only [Fits, oldEnd_hull, newEnd_hull]
  omega

theorem cover?_eq_some_iff {r s hull : HunkRange} :
    r.cover? s = some hull ↔ r.Fits ∧ s.Fits ∧ hull = r.hull s := by
  rw [cover?]
  split
  · next fits => simp [fits, eq_comm]
  · next wide =>
      simp only [reduceCtorEq, false_iff]
      exact fun both => wide ⟨both.1, both.2.1⟩

end HunkRange

namespace Patch

open Text (startsWith)

theorem isSome_coverAll?_iff (hunk : HunkRange) (ranges : List HunkRange) :
    (coverAll? (some hunk) ranges).isSome ↔ ranges = [] ∨ ∀ r ∈ hunk :: ranges, r.Fits := by
  induction ranges generalizing hunk with
  | nil => simp [coverAll?]
  | cons range ranges ih =>
      rw [coverAll?, widen?]
      cases covered : hunk.cover? range with
      | none =>
          have wide : ¬ (hunk.Fits ∧ range.Fits) := by
            rintro ⟨fits, fitsToo⟩
            rw [HunkRange.cover?_eq_some_iff.mpr ⟨fits, fitsToo, rfl⟩] at covered
            cases covered
          simp only [Option.bind_none, Option.isSome_none, Bool.false_eq_true, List.forall_mem_cons,
            reduceCtorEq, false_or, false_iff]
          exact fun all => wide ⟨all.1, all.2.1⟩
      | some hull =>
          obtain ⟨fits, fitsToo, rfl⟩ := HunkRange.cover?_eq_some_iff.mp covered
          simp only [Option.bind_some, ih, List.forall_mem_cons, HunkRange.fits_hull_iff, fits,
            fitsToo, true_and, reduceCtorEq, false_or, or_iff_right_iff_imp]
          rintro rfl
          exact List.forall_mem_nil _

/-- One hunk is always fine; of several, all ends have to be words. -/
theorem Outline.fits_iff {o : Outline} :
    o.Fits ↔ o.hunks.length ≤ 1 ∨ ∀ r ∈ o.hunks, r.Fits := by
  rw [Fits, ← Option.isSome_iff_exists]
  obtain ⟨hunks, statements⟩ := o
  cases hunks with
  | nil => simp [coverAll?]
  | cons range ranges =>
      change (coverAll? (some range) ranges).isSome ↔ _
      rw [isSome_coverAll?_iff]
      simp

/-! One line, in a reading and in the outline. -/

/-- What a line does to a reading and to the outline, whatever comes behind it. -/
inductive LineEffect (hunk : Option HunkRange) (n : Nat) (opened : Option Statement)
    (line : List Char) : Prop where
  | skip
      (reads : ∀ rest, read hunk n (opened.map (·.piece)) (line :: rest) =
        read hunk (n + 1) none rest)
      (outlines : ∀ rest, outline hunk.isSome n opened (line :: rest) =
        outline hunk.isSome (n + 1) none rest)
  | header (range : HunkRange)
      (reads : ∀ rest, read hunk n (opened.map (·.piece)) (line :: rest) =
        match widen? hunk range with
        | none => .stop (.faulted .overflow)
        | some wide => read (some wide) (n + 1) none rest)
      (outlines : ∀ rest, outline hunk.isSome n opened (line :: rest) =
        { outline true (n + 1) none rest with
          hunks := range :: (outline true (n + 1) none rest).hunks })
  | asks (st : Statement) (uniform : st.Uniform)
      (reads : ∀ rest, read hunk n (opened.map (·.piece)) (line :: rest) =
        read hunk (n + 1) (some st.piece) rest)
      (outlines : ∀ rest, outline hunk.isSome n opened (line :: rest) =
        outline hunk.isSome (n + 1) (some st) rest)
  | ends (st : Statement) (uniform : st.Uniform)
      (reads : ∀ rest, read hunk n (opened.map (·.piece)) (line :: rest) =
        st.readBefore (read hunk (n + 1) none rest))
      (outlines : ∀ rest, outline hunk.isSome n opened (line :: rest) =
        { outline hunk.isSome (n + 1) none rest with
          statements := st :: (outline hunk.isSome (n + 1) none rest).statements })
  | mixes (e : PatchError)
      (reads : ∀ rest, read hunk n (opened.map (·.piece)) (line :: rest) = .stop (.rejected e))
      (outlines : ∀ rest, ∃ other ∈ (outline hunk.isSome n opened (line :: rest)).statements,
        ¬ other.Uniform)

theorem outline_line (inHunk : Bool) (n : Nat) (line : List Char) (rest : List (List Char)) :
    outline inHunk n none (line :: rest) =
      if startsWith ['@', '@'] line then
        match HunkRange.ofHeader? line with
        | none => outline inHunk (n + 1) none rest
        | some range =>
          { outline true (n + 1) none rest with
            hunks := range :: (outline true (n + 1) none rest).hunks }
      else if startsWith ['\\'] line then outline inHunk (n + 1) none rest
      else if !inHunk && isFileHeader line then outline inHunk (n + 1) none rest
      else if Directive.isDirective (Statement.single n line).text &&
          (continued? (Statement.single n line).text).isSome then
        outline inHunk (n + 1) (some (.single n line)) rest
      else
        { outline inHunk (n + 1) none rest with
          statements := .single n line :: (outline inHunk (n + 1) none rest).statements } :=
  rfl

theorem lineEffect_none (hunk : Option HunkRange) (n : Nat) (line : List Char) :
    LineEffect hunk n none line := by
  have alone : (Statement.single n line).Uniform := by simp [Statement.Uniform, Statement.single]
  have reads := read_line hunk n line
  have outlines := outline_line hunk.isSome n line
  rw [Option.not_isSome] at outlines
  by_cases isHeader : startsWith ['@', '@'] line
  · simp only [isHeader, if_true] at reads outlines
    cases header : HunkRange.ofHeader? line with
    | none =>
        rw [header] at reads outlines
        exact .skip reads outlines
    | some range =>
        rw [header] at reads outlines
        exact .header range reads outlines
  · by_cases skipped : startsWith ['\\'] line ∨ (hunk.isNone && isFileHeader line) = true
    · refine .skip (fun rest => (reads rest).trans ?_) fun rest => (outlines rest).trans ?_
      all_goals
        rw [if_neg isHeader]
        rcases skipped with isMarker | isFile
        · rw [if_pos isMarker]
        · rw [if_pos isFile, ite_self]
    · obtain ⟨noMarker, noFile⟩ := not_or.mp skipped
      simp only [isHeader, noMarker, noFile, if_false, Bool.false_eq_true] at reads outlines
      by_cases more : (Directive.isDirective (Statement.single n line).text &&
          (continued? (Statement.single n line).text).isSome) = true
      · simp only [more, if_true] at reads outlines
        exact .asks (.single n line) alone reads outlines
      · simp only [more, if_false, Bool.false_eq_true] at reads outlines
        exact .ends (.single n line) alone reads outlines

theorem lineEffect_some (hunk : Option HunkRange) (n : Nat) {st : Statement}
    (uniform : st.Uniform) (line : List Char) : LineEffect hunk n (some st) line := by
  have outlines := outline_continuation hunk.isSome n st line
  by_cases same : (splitMarker line).1 = st.edit
  · have joined : (st.join n line).Uniform := (uniform.join_iff n line).mpr same
    have reads := @read_continuation hunk n st line same
    by_cases more : (continued? (st.join n line).text).isSome = true
    · simp only [more, if_true] at reads outlines
      exact .asks (st.join n line) joined reads outlines
    · simp only [more, if_false, Bool.false_eq_true] at reads outlines
      exact .ends (st.join n line) joined reads outlines
  · have mixed : ¬ (st.join n line).Uniform := by rwa [uniform.join_iff]
    refine .mixes _ (read_mixed same) fun rest => ?_
    rw [outlines]
    split
    · exact exists_mixed mixed
    · exact ⟨st.join n line, by simp, mixed⟩

theorem lineEffect (hunk : Option HunkRange) (n : Nat) (opened : Option Statement)
    (uniform : ∀ st ∈ opened, st.Uniform) (line : List Char) : LineEffect hunk n opened line := by
  cases opened with
  | none => exact lineEffect_none hunk n line
  | some st => exact lineEffect_some hunk n (uniform st rfl) line

/-! From the outline to the fault. -/

/-- A reading of some first entries that then faults. -/
def Reading.FaultsWithin (r : Reading) (all : List Entry) : Prop :=
  ∃ entries rest, all = entries ++ rest ∧ r = ⟨entries, .error (.faulted .overflow)⟩

theorem Statement.faultsWithin_readBefore {st : Statement} {r : Reading}
    {statements : List Statement} (readable : st.Readable)
    (below : r.FaultsWithin (statements.filterMap (·.line?))) :
    (st.readBefore r).FaultsWithin ((st :: statements).filterMap (·.line?)) := by
  obtain ⟨e, read⟩ := Statement.readable_iff.mp readable
  obtain ⟨entries, rest, all, rfl⟩ := below
  refine ⟨e :: entries, rest, ?_, ?_⟩
  · rw [List.filterMap_cons_some (Statement.line?_eq read), all, List.cons_append]
  · rw [Statement.readBefore, read]
    rfl

theorem uniform_none : ∀ st ∈ (none : Option Statement), st.Uniform := by
  simp

theorem faultsWithin_of_not_covered {hunk : Option HunkRange} {n : Nat}
    {lines : List (List Char)} (opened : Option Statement) (uniform : ∀ st ∈ opened, st.Uniform)
    (sound : ∀ st ∈ (outline hunk.isSome n opened lines).statements, st.Uniform ∧ st.Readable)
    (wide : coverAll? hunk (outline hunk.isSome n opened lines).hunks = none) :
    (read hunk n (opened.map (·.piece)) lines).FaultsWithin
      ((outline hunk.isSome n opened lines).statements.filterMap (·.line?)) := by
  induction lines generalizing hunk n opened with
  | nil => cases opened <;> simp [outline, coverAll?] at wide
  | cons line rest ih =>
      cases lineEffect hunk n opened uniform line with
      | skip reads outlines =>
          rw [outlines] at sound wide ⊢
          rw [reads]
          exact ih none uniform_none sound wide
      | header range reads outlines =>
          rw [outlines] at sound wide ⊢
          rw [reads]
          cases widened : widen? hunk range with
          | none => exact ⟨[], _, rfl, rfl⟩
          | some wider =>
              rw [coverAll?, widened, Option.bind_some] at wide
              exact @ih (some wider) (n + 1) none uniform_none sound wide
      | asks st uniform reads outlines =>
          rw [outlines] at sound wide ⊢
          rw [reads]
          exact ih (some st) (by simpa using uniform) sound wide
      | ends st uniform reads outlines =>
          rw [outlines] at sound wide ⊢
          rw [reads]
          obtain ⟨⟨-, readable⟩, soundBelow⟩ := List.forall_mem_cons.mp sound
          exact st.faultsWithin_readBefore readable (ih none uniform_none soundBelow wide)
      | mixes e reads outlines =>
          obtain ⟨other, member, mixed⟩ := outlines rest
          exact (mixed (sound other member).1).elim

theorem Statement.readBefore_of_faulted {st : Statement} {r : Reading} {fault : Fault}
    (faulted : (st.readBefore r).ending = .error (.faulted fault)) :
    ∃ e, Entry.ofText st.edit st.lines st.text = .ok e ∧ st.readBefore r = r.cons e := by
  unfold readBefore at faulted ⊢
  cases read : Entry.ofText st.edit st.lines st.text with
  | error e =>
      rw [read] at faulted
      simp [Reading.stop] at faulted
  | ok e => exact ⟨e, rfl, rfl⟩

theorem ending_read_nil_ne_faulted (hunk : Option HunkRange) (n : Nat)
    (opened : Option Statement) (fault : Fault) :
    (read hunk n (opened.map (·.piece)) []).ending ≠ .error (.faulted fault) := by
  have done : (Reading.done hunk).ending ≠ .error (.faulted fault) := by simp [Reading.done]
  cases opened with
  | none => exact done
  | some st => exact fun faulted => done (st.faulted_of_readBefore faulted)

theorem eq_overflow_of_faulted {hunk : Option HunkRange} {n : Nat} {open? : Option Piece}
    {lines : List (List Char)} {fault : Fault}
    (faulted : (read hunk n open? lines).ending = .error (.faulted fault)) :
    fault = .overflow := by
  fun_induction read hunk n open? lines <;>
    simp_all [Reading.stop, Reading.done, Reading.cons]

theorem read_append_of_faulted {hunk : Option HunkRange} {n : Nat} {lines : List (List Char)}
    {fault : Fault} (opened : Option Statement) (uniform : ∀ st ∈ opened, st.Uniform)
    (faulted : (read hunk n (opened.map (·.piece)) lines).ending = .error (.faulted fault))
    (more : List (List Char)) :
    read hunk n (opened.map (·.piece)) (lines ++ more) =
      read hunk n (opened.map (·.piece)) lines := by
  induction lines generalizing hunk n opened with
  | nil => exact absurd faulted (ending_read_nil_ne_faulted hunk n opened fault)
  | cons line rest ih =>
      rw [List.cons_append]
      cases lineEffect hunk n opened uniform line with
      | skip reads _ =>
          rw [reads] at faulted
          rw [reads, reads]
          exact ih none uniform_none faulted
      | header range reads _ =>
          rw [reads] at faulted
          rw [reads, reads]
          cases widened : widen? hunk range with
          | none => rfl
          | some wider =>
              rw [widened] at faulted
              exact @ih (some wider) (n + 1) none uniform_none faulted
      | asks st uniform reads _ =>
          rw [reads] at faulted
          rw [reads, reads]
          exact ih (some st) (by simpa using uniform) faulted
      | ends st _ reads _ =>
          rw [reads] at faulted
          rw [reads, reads]
          exact congrArg st.readBefore (ih none uniform_none (st.faulted_of_readBefore faulted))
      | mixes e reads _ => rw [reads, reads]

/-! From the fault to an outline. -/

theorem exists_prefix_of_faulted {hunk : Option HunkRange} {n : Nat} {lines : List (List Char)}
    {fault : Fault} (opened : Option Statement) (uniform : ∀ st ∈ opened, st.Uniform)
    (faulted : (read hunk n (opened.map (·.piece)) lines).ending = .error (.faulted fault)) :
    ∃ k, coverAll? hunk (outline hunk.isSome n opened (lines.take k)).hunks = none ∧
      (∀ st ∈ (outline hunk.isSome n opened (lines.take k)).statements,
        st.Uniform ∧ st.Readable) ∧
      (read hunk n (opened.map (·.piece)) lines).entries =
        (outline hunk.isSome n opened (lines.take k)).statements.filterMap (·.line?) := by
  induction lines generalizing hunk n opened with
  | nil => exact absurd faulted (ending_read_nil_ne_faulted hunk n opened fault)
  | cons line rest ih =>
      cases lineEffect hunk n opened uniform line with
      | skip reads outlines =>
          rw [reads] at faulted ⊢
          obtain ⟨k, found⟩ := ih none uniform_none faulted
          refine ⟨k + 1, ?_⟩
          rw [List.take_succ_cons, outlines]
          exact found
      | header range reads outlines =>
          rw [reads] at faulted ⊢
          cases widened : widen? hunk range with
          | none =>
              refine ⟨1, ?_⟩
              rw [List.take_succ_cons, outlines, coverAll?, widened]
              exact ⟨rfl, List.forall_mem_nil _, rfl⟩
          | some wider =>
              rw [widened] at faulted
              obtain ⟨k, wide, found⟩ := @ih (some wider) (n + 1) none uniform_none faulted
              refine ⟨k + 1, ?_⟩
              rw [List.take_succ_cons, outlines, coverAll?, widened, Option.bind_some]
              exact ⟨wide, found⟩
      | asks st uniform reads outlines =>
          rw [reads] at faulted ⊢
          obtain ⟨k, found⟩ := ih (some st) (by simpa using uniform) faulted
          refine ⟨k + 1, ?_⟩
          rw [List.take_succ_cons, outlines]
          exact found
      | ends st uniform reads outlines =>
          rw [reads] at faulted ⊢
          obtain ⟨e, read, before⟩ := st.readBefore_of_faulted faulted
          have faultedBelow := st.faulted_of_readBefore faulted
          obtain ⟨k, wide, sound, entries⟩ := ih none uniform_none faultedBelow
          refine ⟨k + 1, ?_⟩
          rw [List.take_succ_cons, outlines, before]
          refine ⟨wide, List.forall_mem_cons.mpr ⟨⟨uniform, ?_⟩, sound⟩, ?_⟩
          · exact Statement.readable_iff.mpr ⟨e, read⟩
          · rw [List.filterMap_cons_some (Statement.line?_eq read), ← entries]
            rfl
      | mixes e reads outlines =>
          rw [reads] at faulted
          simp [Reading.stop] at faulted

/-! Directives that can still become complete conditionals. -/

theorem foldlM_advance_replicate_endif (scopes : List NodeKind) :
    (List.replicate scopes.length NodeKind.endif).foldlM advance scopes = some [] := by
  induction scopes with
  | nil => rfl
  | cons kind scopes ih =>
      rw [List.length_cons, List.replicate_succ, List.foldlM_cons]
      exact ih

theorem isSome_foldlM_advance_iff {kinds : List NodeKind}
    (directives : ∀ kind ∈ kinds, kind.isDirective) :
    (kinds.foldlM advance []).isSome ↔ ∃ rest, Balanced (kinds ++ rest) := by
  constructor
  · intro allowed
    obtain ⟨scopes, reached⟩ := Option.isSome_iff_exists.mp allowed
    refine ⟨List.replicate scopes.length .endif, (balanced_iff_foldlM_advance ?_).mpr ?_⟩
    · intro kind member
      rcases List.mem_append.mp member with old | closing
      · exact directives kind old
      · rw [List.eq_of_mem_replicate closing]
        rfl
    · rw [List.foldlM_append, reached]
      exact foldlM_advance_replicate_endif scopes
  · rintro ⟨rest, balanced⟩
    have accepted := balanced.foldlM_advance []
    rw [List.foldlM_append] at accepted
    obtain ⟨scopes, reached, -⟩ := Option.bind_eq_some_iff.mp accepted
    rw [reached]
    rfl

theorem Outline.isSome_scopes?_iff {o : Outline} (readable : ∀ st ∈ o.statements, st.Readable)
    (proper : ∀ e ∈ o.statements.filterMap (·.line?), e.Proper) (s : Side) :
    (scopes? s (o.statements.filterMap (·.line?))).isSome ↔
      ∃ rest, Balanced (o.directives s ++ rest) := by
  rw [scopes?_eq_foldlM_directives proper, ← o.directives_eq readable, isSome_foldlM_advance_iff]
  rw [o.directives_eq readable]
  intro kind member
  exact (List.mem_filter.mp member).2

theorem Statement.line?_proper {st : Statement} {e : Entry} (line : st.line? = some e) :
    e.Proper := by
  unfold line? at line
  cases read : Entry.ofText st.edit st.lines st.text with
  | error err =>
      rw [read] at line
      cases line
  | ok entry =>
      rw [read] at line
      cases line
      exact .ofText read

theorem Outline.proper_lines (o : Outline) : ∀ e ∈ o.statements.filterMap (·.line?), e.Proper := by
  intro e member
  obtain ⟨st, -, line⟩ := List.mem_filterMap.mp member
  exact st.line?_proper line

/-! The patches on which parsing faults. -/

/-- Nothing is wrong with the statements so far: none mixes edits, every guard can be read, and
more directives could make complete conditionals on both sides. -/
structure Outline.Promising (o : Outline) : Prop where
  sound : ∀ st ∈ o.statements, st.Uniform ∧ st.Readable
  extensible : ∀ s, ∃ rest, Balanced (o.directives s ++ rest)

/-- The outline of the first lines of a patch. -/
def Outline.ofFirst (k : Nat) (text : String) : Outline :=
  outline false 1 none ((Text.lines text.toList).take k)

/-- Some first lines of a patch have hunks that one range cannot cover, and else nothing is wrong
with them. -/
def Overflows (text : String) : Prop :=
  ∃ k, ¬ (Outline.ofFirst k text).Fits ∧ (Outline.ofFirst k text).Promising

theorem Outline.not_fits_iff {o : Outline} : ¬ o.Fits ↔ coverAll? none o.hunks = none := by
  rw [Fits, ← Option.isSome_iff_exists, Option.not_isSome_iff_eq_none]

theorem Reading.toTree_fault_iff {r : Reading} (proper : ∀ e ∈ r.entries, e.Proper)
    (source : Source) (fault : Fault) :
    r.toTree source = .error fault ↔
      r.ending = .error (.faulted fault) ∧ ∀ s, (scopes? s r.entries).isSome := by
  have lines : ∀ e ∈ r.entries, e.kind ≠ .root := fun e member => (proper e member).line
  rw [← Nesting.exists_foldlM_place_iff source lines, toTree]
  cases placed : r.entries.foldlM Nesting.place (.start source) with
  | error e => simp
  | ok built =>
      cases ending : r.ending with
      | error stop => cases stop <;> simp
      | ok hunk => simp

theorem overflows_of_faulted {text path commit : String} {fault : Fault}
    (faulted : parse text path commit = .error fault) : Overflows text := by
  obtain ⟨ending, allowed⟩ :=
    (Reading.toTree_fault_iff (entriesOf_proper text) ⟨path, commit, none⟩ fault).mp faulted
  obtain ⟨k, wide, sound, entries⟩ := exists_prefix_of_faulted none uniform_none ending
  refine ⟨k, Outline.not_fits_iff.mpr wide, sound, fun s => ?_⟩
  have readable : ∀ st ∈ (Outline.ofFirst k text).statements, st.Readable :=
    fun st member => (sound st member).2
  rw [← Outline.isSome_scopes?_iff readable (Outline.proper_lines _)]
  have same : (Outline.ofFirst k text).statements.filterMap (·.line?) = entriesOf text :=
    entries.symm
  rw [same]
  exact allowed s

theorem faulted_of_overflows {text : String} (path commit : String) (overflows : Overflows text) :
    parse text path commit = .error .overflow := by
  obtain ⟨k, wide, sound, extensible⟩ := overflows
  have faults : (readLines ((Text.lines text.toList).take k)).FaultsWithin
      ((Outline.ofFirst k text).statements.filterMap (·.line?)) :=
    @faultsWithin_of_not_covered none 1 _ none uniform_none sound (Outline.not_fits_iff.mp wide)
  obtain ⟨entries, rest, all, stopped⟩ := faults
  have whole := @read_append_of_faulted none 1 _ _ none uniform_none
    (congrArg Reading.ending stopped) ((Text.lines text.toList).drop k)
  rw [List.take_append_drop] at whole
  -- The fault does not wait for the lines behind it.
  have reading : readLines (Text.lines text.toList) = ⟨entries, .error (.faulted .overflow)⟩ :=
    whole.trans stopped
  have proper : ∀ e ∈ entries, e.Proper := by
    have every := entriesOf_proper text
    rwa [entriesOf, reading] at every
  rw [parse, reading, Reading.toTree_fault_iff proper]
  refine ⟨rfl, fun s => ?_⟩
  apply @isSome_scopes?_of_append s entries rest
  rw [← all]
  exact (Outline.isSome_scopes?_iff (fun st member => (sound st member).2)
    (Outline.proper_lines _) s).mpr (extensible s)

/-- Parsing faults exactly on the patches that overflow. -/
theorem parse_fault_iff {text path commit : String} {fault : Fault} :
    parse text path commit = .error fault ↔ fault = .overflow ∧ Overflows text := by
  constructor
  · intro faulted
    obtain ⟨ending, -⟩ :=
      (Reading.toTree_fault_iff (entriesOf_proper text) ⟨path, commit, none⟩ fault).mp faulted
    exact ⟨eq_overflow_of_faulted ending, overflows_of_faulted faulted⟩
  · rintro ⟨rfl, overflows⟩
    exact faulted_of_overflows path commit overflows

theorem wide_of_overflows {text : String} (overflows : Overflows text) :
    1 < (Outline.ofText text).hunks.length ∧ ∃ r ∈ (Outline.ofText text).hunks, ¬ r.Fits := by
  have wide : ¬ (Outline.ofText text).Fits := by
    intro fits
    obtain ⟨result, parsed⟩ := exists_parse_of_fits "" "" fits
    rw [faulted_of_overflows "" "" overflows] at parsed
    cases parsed
  rw [Outline.fits_iff, not_or, Nat.not_le] at wide
  simpa using wide

end Patch

end Variability
