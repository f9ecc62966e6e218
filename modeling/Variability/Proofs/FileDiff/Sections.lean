import Variability.Proofs.FileDiff.Extent
import Variability.Proofs.FileDiff.Split

/-!
The sections of a diff, one for every file that starts in it, and what the header lines of a section
say about the file. The last line that tells the change is believed, and on each side the last line
that is about its path; where none is, the path of the `diff --git` line stays. That line names two
paths, also of a file that is there on one side only, so such a file has the path that it should not
have unless a line about the null device takes it away.
-/

namespace Variability

open Text (after? startsWith)

def FileChange.existsOn : FileChange → Side → Bool
  | added, .before | deleted, .after => false
  | added, .after | deleted, .before => true
  | modified, _ | renamed, _ | copied, _ => true

namespace FileDiff

def path? (f : FileDiff) : Side → Option String
  | .before => f.oldPath
  | .after => f.newPath

/-- A file has a path on the sides where it is there, and on no other. -/
def Fits (f : FileDiff) : Prop :=
  ∀ s, (f.path? s).isSome = f.change.existsOn s

/-! Header lines. -/

/-- The change that a line tells, with a path if it names one. -/
def moveTold? (line : List Char) : Option (FileChange × Option (Side × String)) :=
  Draft.moves.findSome? fun (head, change, side?) =>
    (after? head.toList line).map fun path => (change, side?.map (·, String.ofList path))

def changeTold? (line : List Char) : Option FileChange :=
  (moveTold? line).map Prod.fst

/-- What a line says about the path of a side, if it is about that path: the path, or that there is
none. -/
def pathTold? (s : Side) (line : List Char) : Option (Option String) :=
  match moveTold? line with
  | some (_, named?) => (named?.filter (·.1 = s)).map (some ·.2)
  | none => (after? (GitFormat.pathMark s) line).map namedPath

namespace Draft

def path? (d : Draft) : Side → Option String
  | .before => d.oldPath
  | .after => d.newPath

theorem path?_setPath (d : Draft) (s side : Side) (path : Option String) :
    (d.setPath s path).path? side = if s = side then path else d.path? side := by
  cases s <;> cases side <;> rfl

theorem change_setPath (d : Draft) (s : Side) (path : Option String) :
    (d.setPath s path).change = d.change := by
  cases s <;> rfl

theorem move?_eq (d : Draft) (line : List Char) :
    d.move? line = (moveTold? line).map fun (change, named?) =>
      named?.elim { d with change := some change } fun (s, path) =>
        { d with change := some change }.setPath s (some path) := by
  rw [move?, moveTold?, List.map_findSome?]
  congr 1
  funext ⟨head, change, side?⟩
  cases side? <;> simp [Function.comp_def]

theorem after?_pathMark {line path : List Char} (old : after? "--- ".toList line = some path) :
    after? "+++ ".toList line = none := by
  rw [Text.after?_eq_some_iff.mp old]
  rfl

theorem change_addHeader (d : Draft) (line : List Char) :
    (d.addHeader line).change = ((changeTold? line).map some).getD d.change := by
  rw [addHeader, move?_eq, changeTold?]
  cases moveTold? line with
  | some told =>
      obtain ⟨change, named?⟩ := told
      cases named? with
      | none => rfl
      | some named => exact change_setPath _ _ _
  | none =>
      simp only [Option.map_none, Option.getD_none]
      split
      · exact change_setPath _ _ _
      · split
        · exact change_setPath _ _ _
        · split <;> rfl

theorem path?_addHeader (d : Draft) (s : Side) (line : List Char) :
    (d.addHeader line).path? s = (pathTold? s line).getD (d.path? s) := by
  rw [addHeader, move?_eq, pathTold?]
  cases moveTold? line with
  | some told =>
      obtain ⟨change, named?⟩ := told
      cases named? with
      | none => cases s <;> rfl
      | some named =>
          obtain ⟨side, path⟩ := named
          cases s <;> cases side <;> rfl
  | none =>
      simp only [Option.map_none]
      split
      · next old =>
        rw [path?_setPath]
        cases s with
        | before => rw [GitFormat.pathMark, old]; rfl
        | after => rw [GitFormat.pathMark, after?_pathMark old]; rfl
      · next old =>
        split
        · next new =>
          rw [path?_setPath]
          cases s with
          | before => rw [GitFormat.pathMark, old]; rfl
          | after => rw [GitFormat.pathMark, new]; rfl
        · next new =>
          have silent : after? (GitFormat.pathMark s) line = none := by
            cases s with
            | before => exact old
            | after => exact new
          rw [silent]
          split <;> cases s <;> rfl

/-- Of the lines that tell something, the last is believed. -/
theorem foldl_addHeader_told {α : Type} {get : Draft → α} {told? : List Char → Option α}
    (step : ∀ d line, get (d.addHeader line) = (told? line).getD (get d))
    (lines : List (List Char)) (d : Draft) :
    get (lines.foldl addHeader d) = ((lines.filterMap told?).getLast?).getD (get d) := by
  induction lines generalizing d with
  | nil => rfl
  | cons line lines ih =>
      rw [List.foldl_cons, ih, step]
      cases told : told? line with
      | none => rw [List.filterMap_cons_none told, Option.getD_none]
      | some a =>
          rw [List.filterMap_cons_some told, List.getLast?_cons, Option.getD_some,
            Option.getD_some]

theorem finish?_eq_some {d : Draft} {f : FileDiff} (finished : d.finish? = some f) :
    (∀ s, f.path? s = d.path? s) ∧
      f.change = d.change.getD (changeOfPaths (d.path? .before) (d.path? .after)) ∧
      ∃ s, (d.path? s).isSome := by
  unfold finish? at finished
  split at finished
  · cases finished
  · next known =>
    cases finished
    refine ⟨fun s => by cases s <;> rfl, rfl, ?_⟩
    cases old : d.oldPath with
    | some path => exact ⟨.before, by simp [path?, old]⟩
    | none =>
        cases new : d.newPath with
        | some path => exact ⟨.after, by simp [path?, new]⟩
        | none => simp [old, new] at known

theorem existsOn_changeOfPaths {path? : Side → Option String} (known : ∃ s, (path? s).isSome)
    (s : Side) :
    (path? s).isSome = (changeOfPaths (path? .before) (path? .after)).existsOn s := by
  obtain ⟨side, known⟩ := known
  cases old : path? .before <;> cases new : path? .after <;> cases s <;> cases side <;>
    simp_all [changeOfPaths, FileChange.existsOn]

end Draft

/-! Sections. -/

/-- The lines about one file: the one that it starts at, those before its hunks, and those of its
hunks. -/
structure Section where
  first : List Char
  header : List (List Char)
  body : List (List Char)
  deriving DecidableEq

namespace Section

def lines (s : Section) : List (List Char) :=
  s.first :: s.header ++ s.body

-- a section without a `diff --git` line starts at a path line
def headerLines (s : Section) : List (List Char) :=
  s.first :: s.header

def changes (s : Section) : List FileChange :=
  s.headerLines.filterMap changeTold?

/-- The path of a side as the lines have it. -/
def path? (s : Section) (side : Side) : Option String :=
  ((s.headerLines.filterMap (pathTold? side)).getLast?).getD ((Draft.ofLine s.first).path? side)

def draft (s : Section) : Draft :=
  { s.headerLines.foldl Draft.addHeader (.ofLine s.first) with body := s.body.reverse }

def file? (s : Section) : Option FileDiff :=
  s.draft.finish?

def addHeader (s : Section) (line : List Char) : Section :=
  { s with header := s.header ++ [line] }

def addLine (s : Section) (line : List Char) : Section :=
  { s with body := s.body ++ [line] }

end Section

def startsSection (current : Option Section) (line : List Char) (rest : List (List Char)) : Bool :=
  startsWith Draft.gitMark line ||
    (startsWith "--- ".toList line && rest.head?.any (startsWith "+++ ".toList) &&
      current.all fun s => !s.body.isEmpty)

/-- Cuts lines into sections; the one that is being read and what remains of its hunk are carried
along. -/
def sectionLines (current : Option Section) (remaining : Remaining) :
    List (List Char) → List Section
  | [] => current.toList
  | line :: rest =>
    if remaining ≠ .zero then
      sectionLines (current.map (·.addLine line)) (remaining.next line) rest
    else if startsSection current line rest then
      current.toList ++ sectionLines (some ⟨line, [], []⟩) .zero rest
    else
      match current with
      | none => sectionLines none .zero rest
      | some s =>
        if startsWith ['@', '@'] line then
          let remaining :=
            (HunkRange.ofHeader? line).elim .zero fun r => ⟨r.oldLength, r.newLength⟩
          sectionLines (some (s.addLine line)) remaining rest
        else if s.body.isEmpty then sectionLines (some (s.addHeader line)) .zero rest
        else if startsWith ['\\'] line then sectionLines (some (s.addLine line)) .zero rest
        else sectionLines (some s) .zero rest

def sections (diff : String) : List Section :=
  sectionLines none .zero (Text.lines diff.toList)

/-! Sections and files. -/

namespace Section

theorem isEmpty_body_draft (s : Section) : s.draft.body.isEmpty = s.body.isEmpty := by
  rw [draft, List.isEmpty_reverse]

theorem draft_of_empty {s : Section} (empty : s.body = []) :
    s.draft = s.headerLines.foldl Draft.addHeader (.ofLine s.first) := by
  have body := (kept_headers s.headerLines (.ofLine s.first)).1.trans (body_ofLine s.first)
  rw [draft, empty, List.reverse_nil, ← body]

theorem draft_addHeader {s : Section} (empty : s.body = []) (line : List Char) :
    (s.addHeader line).draft = s.draft.addHeader line := by
  have emptyToo : (s.addHeader line).body = [] := empty
  have more : (s.addHeader line).headerLines = s.headerLines ++ [line] := rfl
  rw [draft_of_empty empty, draft_of_empty emptyToo, more, List.foldl_append]
  rfl

theorem draft_addLine (s : Section) (line : List Char) :
    (s.addLine line).draft = s.draft.addLine line := by
  simp [draft, addLine, Draft.addLine, headerLines]

theorem draft_start (line : List Char) : (Section.mk line [] []).draft = start line := by
  rw [draft_of_empty rfl, start]
  change (Draft.ofLine line).addHeader line = _
  cases marked : after? Draft.gitMark line with
  | some rest =>
      rw [startsWith, marked, if_pos Option.isSome_some, Text.after?_eq_some_iff.mp marked]
      rfl
  | none =>
      rw [startsWith, marked, if_neg (by simp), Draft.ofLine, marked]
      rfl

theorem path?_draft (s : Section) (side : Side) : s.draft.path? side = s.path? side := by
  have told := @Draft.foldl_addHeader_told _ (·.path? side) (pathTold? side)
    (fun d line => d.path?_addHeader side line) s.headerLines (.ofLine s.first)
  rw [path?, ← told]
  cases side <;> rfl

theorem change_draft (s : Section) : s.draft.change = s.changes.getLast? := by
  have told := Draft.foldl_addHeader_told Draft.change_addHeader s.headerLines (.ofLine s.first)
  rw [change_ofLine, ← List.map_filterMap, List.getLast?_map] at told
  rw [draft, told, changes]
  cases (s.headerLines.filterMap changeTold?).getLast? <;> rfl

end Section

theorem startsFile_draft (current : Option Section) (line : List Char)
    (rest : List (List Char)) :
    startsFile (current.map Section.draft) line rest = startsSection current line rest := by
  have same : (current.map Section.draft).all (fun d => !d.body.isEmpty) =
      current.all fun s => !s.body.isEmpty := by
    cases current with
    | none => rfl
    | some s => exact congrArg not s.isEmpty_body_draft
  rw [startsFile, startsSection, same]

theorem finishAll_draft (current : Option Section) :
    finishAll (current.map Section.draft) = current.toList.filterMap Section.file? := by
  cases current with
  | none => rfl
  | some s => cases finished : s.draft.finish? <;> simp [finishAll, Section.file?, finished]

theorem splitLines_draft (current : Option Section) (remaining : Remaining)
    (lines : List (List Char)) :
    splitLines (current.map Section.draft) remaining lines =
      (sectionLines current remaining lines).filterMap Section.file? := by
  fun_induction sectionLines current remaining lines with
  | case1 current remaining => exact finishAll_draft current
  | case2 current remaining line rest more ih =>
      cases current with
      | none =>
          rw [Option.map_none, splitLines, if_pos more]
          exact ih
      | some s =>
          rw [Option.map_some, splitLines_of_remaining more, ← s.draft_addLine]
          exact ih
  | case3 current remaining line rest whole starts ih =>
      obtain rfl := not_not.mp whole
      rw [splitLines_of_starts ((startsFile_draft current line rest).trans starts),
        finishAll_draft, List.filterMap_append, ← ih, Option.map_some, Section.draft_start]
  | case4 remaining line rest whole starts ih =>
      rw [← startsFile_draft, Option.map_none] at starts
      rw [Option.map_none, splitLines, if_neg whole, if_neg starts]
      exact ih
  | case5 remaining line rest whole s hunk length starts ih =>
      obtain rfl := not_not.mp whole
      rw [← startsFile_draft, Option.map_some] at starts
      rw [Option.map_some, splitLines_cons, if_neg starts, if_pos hunk, ← s.draft_addLine]
      exact ih
  | case6 remaining line rest whole s hunk empty starts ih =>
      obtain rfl := not_not.mp whole
      rw [← startsFile_draft, Option.map_some] at starts
      rw [Option.map_some, splitLines_cons, if_neg starts, if_neg hunk, s.isEmpty_body_draft,
        if_pos empty, ← Section.draft_addHeader (List.isEmpty_iff.mp empty)]
      exact ih
  | case7 remaining line rest whole s hunk begun marked starts ih =>
      obtain rfl := not_not.mp whole
      rw [← startsFile_draft, Option.map_some] at starts
      rw [Option.map_some, splitLines_cons, if_neg starts, if_neg hunk, s.isEmpty_body_draft,
        if_neg begun, if_pos marked, ← s.draft_addLine]
      exact ih
  | case8 remaining line rest whole s hunk begun marked starts ih =>
      obtain rfl := not_not.mp whole
      rw [← startsFile_draft, Option.map_some] at starts
      rw [Option.map_some, splitLines_cons, if_neg starts, if_neg hunk, s.isEmpty_body_draft,
        if_neg begun, if_neg marked]
      exact ih

theorem split_eq_sections (diff : String) :
    split diff = (sections diff).filterMap Section.file? :=
  splitLines_draft none .zero (Text.lines diff.toList)

/-- The lines of the sections are lines of the diff, in order. -/
theorem sectionLines_sublist (current : Option Section) (remaining : Remaining)
    (lines : List (List Char)) :
    ((sectionLines current remaining lines).flatMap Section.lines).Sublist
      (current.toList.flatMap Section.lines ++ lines) := by
  fun_induction sectionLines current remaining lines with
  | case1 current remaining => simp
  | case2 current remaining line rest more ih =>
      refine ih.trans ?_
      cases current <;> simp [Section.lines, Section.addLine]
  | case3 current remaining line rest whole starts ih =>
      rw [List.flatMap_append]
      exact (List.Sublist.refl _).append ih
  | case4 remaining line rest whole starts ih => exact ih.cons line
  | case5 remaining line rest whole s hunk length starts ih
  | case7 remaining line rest whole s hunk begun marked starts ih =>
      refine ih.trans ?_
      simp [Section.lines, Section.addLine]
  | case6 remaining line rest whole s hunk empty starts ih =>
      refine ih.trans ?_
      simp [Section.lines, Section.addHeader, List.isEmpty_iff.mp empty]
  | case8 remaining line rest whole s hunk begun marked starts ih =>
      exact ih.trans ((List.Sublist.refl _).append (List.sublist_cons_self line rest))

/-! Paths and changes. -/

namespace Section

def OneKind (s : Section) : Prop :=
  ∀ c ∈ s.changes, ∀ d ∈ s.changes, c = d

instance (s : Section) : Decidable s.OneKind :=
  inferInstanceAs (Decidable (∀ c ∈ s.changes, ∀ d ∈ s.changes, c = d))

variable {s : Section} {f : FileDiff}

theorem path?_of_file? (read : s.file? = some f) (side : Side) : f.path? side = s.path? side := by
  rw [(Draft.finish?_eq_some read).1, path?_draft]

theorem fits_of_changes_nil (read : s.file? = some f) (silent : s.changes = []) : f.Fits := by
  -- the change is then told from the paths themselves
  obtain ⟨paths, change, known⟩ := Draft.finish?_eq_some read
  rw [change_draft, silent, List.getLast?_nil, Option.getD_none] at change
  intro side
  rw [paths, change]
  exact Draft.existsOn_changeOfPaths known side

theorem change_of_oneKind (read : s.file? = some f) (one : s.OneKind) {c : FileChange}
    (told : c ∈ s.changes) : f.change = c := by
  obtain ⟨-, change, -⟩ := Draft.finish?_eq_some read
  obtain ⟨last, last?⟩ := Option.isSome_iff_exists.mp
    (List.getLast?_isSome.mpr (List.ne_nil_of_mem told))
  rw [change, change_draft, last?, Option.getD_some]
  exact one last (List.mem_of_getLast? last?) c told

theorem fits_iff (read : s.file? = some f) (one : s.OneKind) :
    f.Fits ↔ ∀ c ∈ s.changes, ∀ side, (s.path? side).isSome = c.existsOn side := by
  refine ⟨fun fits c told side => ?_, fun agree => ?_⟩
  · rw [← path?_of_file? read, ← change_of_oneKind read one told]
    exact fits side
  · cases told : s.changes with
    | nil => exact fits_of_changes_nil read told
    | cons c others =>
        have listed : c ∈ s.changes := told ▸ List.mem_cons_self
        intro side
        rw [path?_of_file? read, change_of_oneKind read one listed]
        exact agree c listed side

/-- Where no line is about the path of the side on which the file is not there, the path of the
`diff --git` line stays. -/
theorem not_fits_of_silent (read : s.file? = some f) (one : s.OneKind) {c : FileChange}
    (told : c ∈ s.changes) {side : Side} (gone : c.existsOn side = false)
    (silent : ∀ line ∈ s.headerLines, pathTold? side line = none)
    (named : ((Draft.ofLine s.first).path? side).isSome) : ¬ f.Fits := by
  intro fits
  have kept : s.path? side = (Draft.ofLine s.first).path? side := by
    rw [path?, List.filterMap_eq_nil_iff.mpr silent]
    rfl
  have agree := (fits_iff read one).mp fits c told side
  rw [kept, named, gone] at agree
  cases agree

end Section

/-- The files of a diff come from its sections, one by one. A file of a section whose lines tell at
most one change has that change, and has its paths where it is there if and only if the lines of the
section leave it with just these. -/
theorem split_fits_iff (diff : String) :
    split diff = (sections diff).filterMap Section.file? ∧
      ((sections diff).flatMap Section.lines).Sublist (Text.lines diff.toList) ∧
      ∀ s ∈ sections diff, ∀ f, s.file? = some f → s.OneKind →
        (∀ c ∈ s.changes, f.change = c) ∧
          (f.Fits ↔ ∀ c ∈ s.changes, ∀ side, (s.path? side).isSome = c.existsOn side) :=
  ⟨split_eq_sections diff, sectionLines_sublist none .zero (Text.lines diff.toList),
    fun _ _ _ read one =>
      ⟨fun _ told => Section.change_of_oneKind read one told, Section.fits_iff read one⟩⟩

/-- An added file with lines, for which git writes a line about the null device. -/
theorem split_fits_iff_null_device :
    let diff := "diff --git a/x b/x\nnew file mode 100644\n--- /dev/null\n+++ b/x\n" ++
      "@@ -0,0 +1 @@\n+y\n"
    ∃ s ∈ sections diff, ∃ f, s.file? = some f ∧ s.OneKind ∧ f.change = .added ∧ f.Fits := by
  intro diff
  let s : Section := ⟨"diff --git a/x b/x".toList,
    ["new file mode 100644".toList, "--- /dev/null".toList, "+++ b/x".toList],
    ["@@ -0,0 +1 @@".toList, "+y".toList]⟩
  have listed : s ∈ sections diff := by decide +kernel
  have read : s.file? = some ⟨none, some "x", .added, "@@ -0,0 +1 @@\n+y\n"⟩ := by decide +kernel
  have one : s.OneKind := by decide +kernel
  obtain ⟨-, -, files⟩ := split_fits_iff diff
  obtain ⟨-, fits⟩ := files s listed _ read one
  have changes : s.changes = [.added] := by decide +kernel
  refine ⟨s, listed, _, read, one, rfl, fits.mpr fun c told side => ?_⟩
  obtain rfl := List.mem_singleton.mp (changes ▸ told)
  cases side <;> decide +kernel

/-- For an added file without lines git writes no lines about paths but the first. -/
theorem not_split_fits :
    ¬ ∀ diff, (∀ s ∈ sections diff, s.OneKind) → ∀ f ∈ split diff, f.Fits := by
  intro fits
  let diff := "diff --git a/x b/x\nnew file mode 100644\nindex 0000000..e69de29\n"
  have one : ∀ s ∈ sections diff, s.OneKind := by decide +kernel
  have read : split diff = [⟨some "x", some "x", .added, ""⟩] := by decide +kernel
  have agree := fits diff one _ (read ▸ List.mem_singleton_self _) .before
  cases agree

end FileDiff

end Variability
