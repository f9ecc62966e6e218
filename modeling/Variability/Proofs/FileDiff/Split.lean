import Variability.Proofs.FileDiff.Headers

/-!
Splitting undoes the concatenation of git. Header lines change the file that is being read, or
nothing; the lengths of a hunk header count its body down to nothing exactly at its end, whatever
the lines of the body look like; and the next entry starts at its own first line.
-/

namespace Variability

open Text (after? startsWith)
open GitFormat

namespace FileDiff

/-! One step. -/

theorem splitLines_cons (d : Draft) (line : List Char) (rest : List (List Char)) :
    splitLines (some d) .zero (line :: rest) =
      if startsFile (some d) line rest then
        finishAll (some d) ++ splitLines (some (start line)) .zero rest
      else if startsWith ['@', '@'] line then
        splitLines (some (d.addLine line))
          ((HunkRange.ofHeader? line).elim .zero fun r => ⟨r.oldLength, r.newLength⟩) rest
      else if d.body.isEmpty then splitLines (some (d.addHeader line)) .zero rest
      else if startsWith ['\\'] line then splitLines (some (d.addLine line)) .zero rest
      else splitLines (some d) .zero rest := by
  rw [splitLines, if_neg (by simp)]

theorem splitLines_of_remaining {r : Remaining} (more : r ≠ .zero) (d : Draft) (line : List Char)
    (rest : List (List Char)) :
    splitLines (some d) r (line :: rest) =
      splitLines (some (d.addLine line)) (r.next line) rest := by
  rw [splitLines, if_pos more]
  rfl

theorem startsFile_of_git {line : List Char} (git : startsWith Draft.gitMark line = true)
    (current : Option Draft) (rest : List (List Char)) : startsFile current line rest = true := by
  rw [startsFile, git, Bool.true_or]

theorem startsFile_of_empty {line : List Char} (git : startsWith Draft.gitMark line = false)
    {d : Draft} (empty : d.body = []) (rest : List (List Char)) :
    startsFile (some d) line rest = false := by
  simp [startsFile, git, empty]

theorem startsWith_of_ne {h c : Char} (other : c ≠ h) (hs cs : List Char) :
    startsWith (h :: hs) (c :: cs) = false := by
  rw [startsWith, after?, if_neg (Ne.symm other)]
  rfl

/-- A line with this start cannot start a file. -/
theorem startsFile_of_head {c : Char} (other : c ≠ 'd') (otherToo : c ≠ '-') (cs : List Char)
    (current : Option Draft) (rest : List (List Char)) :
    startsFile current (c :: cs) rest = false := by
  have git : startsWith Draft.gitMark (c :: cs) = false := startsWith_of_ne other _ _
  have path : startsWith "--- ".toList (c :: cs) = false := startsWith_of_ne otherToo _ _
  rw [startsFile, git, path]
  rfl

theorem splitLines_of_starts {current : Option Draft} {line : List Char} {rest : List (List Char)}
    (starts : startsFile current line rest = true) :
    splitLines current .zero (line :: rest) =
      finishAll current ++ splitLines (some (start line)) .zero rest := by
  cases current <;> simp only [splitLines, starts] <;> rfl

theorem splitLines_git {line : List Char} (git : startsWith Draft.gitMark line = true)
    (current : Option Draft) (rest : List (List Char)) :
    splitLines current .zero (line :: rest) =
      finishAll current ++ splitLines (some (.ofLine line)) .zero rest := by
  rw [splitLines_of_starts (startsFile_of_git git current rest), start, if_pos git]

/-! Headers. -/

/-- A line that a header can have: no file and no hunk starts with it. -/
def Inert (line : List Char) : Prop :=
  startsWith Draft.gitMark line = false ∧ startsWith ['@', '@'] line = false

theorem splitLines_header {line : List Char} (inert : Inert line) {d : Draft} (empty : d.body = [])
    (rest : List (List Char)) :
    splitLines (some d) .zero (line :: rest) = splitLines (some (d.addHeader line)) .zero rest := by
  rw [splitLines_cons, startsFile_of_empty inert.1 empty, inert.2, empty]
  rfl

theorem splitLines_headers {lines : List (List Char)} (inert : ∀ l ∈ lines, Inert l) {d : Draft}
    (empty : d.body = []) (rest : List (List Char)) :
    splitLines (some d) .zero (lines ++ rest) =
      splitLines (some (lines.foldl Draft.addHeader d)) .zero rest := by
  induction lines generalizing d with
  | nil => rfl
  | cons line lines ih =>
      obtain ⟨first, others⟩ := List.forall_mem_cons.mp inert
      rw [List.cons_append, splitLines_header first empty, List.foldl_cons]
      exact ih others ((kept_addHeader d line).1.trans empty)

/-! Hunks. -/

def addLines (d : Draft) (lines : List (List Char)) : Draft :=
  { d with body := lines.reverse ++ d.body }

theorem addLines_cons (d : Draft) (line : List Char) (lines : List (List Char)) :
    addLines (d.addLine line) lines = addLines d (line :: lines) := by
  simp [addLines, Draft.addLine]

theorem addLines_append (d : Draft) (lines more : List (List Char)) :
    addLines (addLines d lines) more = addLines d (lines ++ more) := by
  simp [addLines]

/-- What the lines of a body leave to come. -/
def remainingOf (body : List BodyLine) : Remaining :=
  ⟨BodyLine.count .before body, BodyLine.count .after body⟩

theorem next_remainingOf (b : BodyLine) (body : List BodyLine) :
    (remainingOf (b :: body)).next b.line = remainingOf body := by
  cases b <;> simp [remainingOf, BodyLine.count, BodyLine.line, BodyLine.existsOn, Remaining.next]

theorem eq_marker_of_remainingOf {b : BodyLine} {body : List BodyLine}
    (nothing : remainingOf (b :: body) = .zero) :
    (∃ text, b = .marker text) ∧ remainingOf body = .zero := by
  cases b <;> simp_all [remainingOf, BodyLine.count, BodyLine.existsOn, Remaining.zero]

theorem splitLines_body (body : List BodyLine) {d : Draft} (begun : d.body ≠ [])
    (rest : List (List Char)) :
    splitLines (some d) (remainingOf body) (body.map BodyLine.line ++ rest) =
      splitLines (some (addLines d (body.map BodyLine.line))) .zero rest := by
  induction body generalizing d with
  | nil => rfl
  | cons b body ih =>
      have further : (d.addLine b.line).body ≠ [] := List.cons_ne_nil _ _
      rw [List.map_cons, List.cons_append, ← addLines_cons, ← ih further]
      by_cases more : remainingOf (b :: body) = .zero
      · -- behind the last line of both sides there are only markers
        obtain ⟨⟨text, rfl⟩, nothing⟩ := eq_marker_of_remainingOf more
        have marked : BodyLine.line (.marker text) = '\\' :: text.chars := rfl
        rw [more, nothing, splitLines_cons, marked,
          startsFile_of_head (by decide) (by decide)]
        simp [startsWith, after?, begun]
      · rw [splitLines_of_remaining more, next_remainingOf]

theorem splitLines_hunk (h : Hunk) (d : Draft) (rest : List (List Char)) :
    splitLines (some d) .zero (h.lines ++ rest) =
      splitLines (some (addLines d h.lines)) .zero rest := by
  have apart : startsFile (some d) h.header (h.body.map BodyLine.line ++ rest) = false :=
    startsFile_of_head (by decide) (by decide) _ _ _
  have marked : startsWith ['@', '@'] h.header = true := by
    rw [startsWith, Hunk.header]
    rfl
  have begun : (d.addLine h.header).body ≠ [] := List.cons_ne_nil _ _
  rw [Hunk.lines, List.cons_append, splitLines_cons, apart, marked, Hunk.ofHeader?_header,
    ← addLines_cons, ← splitLines_body h.body begun]
  rfl

theorem splitLines_hunks (hunks : List Hunk) (d : Draft) (rest : List (List Char)) :
    splitLines (some d) .zero (hunks.flatMap Hunk.lines ++ rest) =
      splitLines (some (addLines d (hunks.flatMap Hunk.lines))) .zero rest := by
  induction hunks generalizing d with
  | nil => rfl
  | cons h hunks ih =>
      rw [List.flatMap_cons, List.append_assoc, splitLines_hunk, ih, addLines_append]

/-! Entries. -/

theorem inert_notice (n : Notice) : Inert n.line := by
  cases n <;> exact ⟨rfl, rfl⟩

theorem inert_moves (c : Change) : ∀ l ∈ c.moves, Inert l := by
  cases c <;> simp only [Change.moves, List.forall_mem_cons, List.not_mem_nil, false_implies,
    implies_true, and_true]
  case added | deleted => exact ⟨rfl, rfl⟩
  case renamed | copied => exact ⟨⟨rfl, rfl⟩, rfl, rfl⟩

theorem inert_header (h : Header) : ∀ l ∈ h.lines, Inert l :=
  Header.forall_lines inert_notice (inert_moves h.change)

theorem inert_pathLine (f : TextFile) (s : Side) : Inert (f.pathLine s) := by
  cases s <;> exact ⟨rfl, rfl⟩

theorem inert_contentLines (f : BinaryFile) : ∀ l ∈ f.contentLines, Inert l := by
  unfold BinaryFile.contentLines
  split
  · simp only [List.forall_mem_cons, List.not_mem_nil, false_implies, implies_true, and_true]
    exact ⟨rfl, rfl⟩
  · simp only [List.forall_mem_cons, List.forall_mem_map]
    exact ⟨⟨rfl, rfl⟩, fun line _ => line.inert⟩

/-- The file as it is read when the lines of an entry are through. -/
def drafted : Entry → Draft
  | .text f =>
    addLines ((f.toHeader.lines ++ [f.pathLine .before, f.pathLine .after]).foldl Draft.addHeader
      (.ofLine f.change.gitLine)) f.hunkLines
  | .binary f =>
    (f.toHeader.lines ++ f.contentLines).foldl Draft.addHeader (.ofLine f.change.gitLine)

theorem startsWith_gitLine (c : Change) : startsWith Draft.gitMark c.gitLine = true := by
  have marked := Text.after?_append Draft.gitMark
    ("a/".toList ++ (c.name .before).chars ++ (" b/".toList ++ (c.name .after).chars))
  exact congrArg Option.isSome marked

theorem splitLines_entry (e : Entry) (current : Option Draft) (rest : List (List Char)) :
    splitLines current .zero (e.lines ++ rest) =
      finishAll current ++ splitLines (some (drafted e)) .zero rest := by
  cases e with
  | text f =>
      have inert : ∀ l ∈ f.toHeader.lines ++ [f.pathLine .before, f.pathLine .after], Inert l := by
        simp only [List.mem_append, List.mem_cons, List.not_mem_nil, or_false]
        rintro l (header | rfl | rfl)
        · exact inert_header f.toHeader l header
        · exact inert_pathLine f .before
        · exact inert_pathLine f .after
      rw [Entry.lines, TextFile.lines, List.cons_append, List.cons_append, List.append_assoc,
        splitLines_git (startsWith_gitLine _), splitLines_headers inert (body_ofLine _),
        TextFile.hunkLines, splitLines_hunks]
      rfl
  | binary f =>
      have inert : ∀ l ∈ f.toHeader.lines ++ f.contentLines, Inert l := by
        intro l member
        rcases List.mem_append.mp member with header | content
        · exact inert_header f.toHeader l header
        · exact inert_contentLines f l content
      rw [Entry.lines, BinaryFile.lines, List.cons_append,
        splitLines_git (startsWith_gitLine _), splitLines_headers inert (body_ofLine _)]
      rfl

/-- The change that is known in the end, from the header lines or from the paths. -/
theorem told_getD (c : Change) :
    (told c).getD (Draft.changeOfPaths ((c.path? .before).map Path.text)
      ((c.path? .after).map Path.text)) = c.kind := by
  cases c <;> rfl

theorem path?_after_ne_none (c : Change) (absent : c.path? .before = none) :
    c.path? .after ≠ none := by
  cases c <;> simp_all [Change.path?]

theorem finish?_text (f : TextFile) : (drafted (.text f)).finish? = some f.file := by
  obtain ⟨change, binary⟩ := addHeader_lines f.toHeader (.ofLine f.change.gitLine)
  obtain ⟨body, -⟩ := kept_headers f.toHeader.lines (.ofLine f.change.gitLine)
  rw [change_ofLine] at change
  rw [binary_ofLine] at binary
  rw [body_ofLine] at body
  rw [drafted, List.foldl_append, List.foldl_cons, List.foldl_cons, List.foldl_nil,
    addHeader_pathLine, addHeader_pathLine]
  have known := path?_after_ne_none f.change
  have kind := told_getD f.change
  simpa [Draft.finish?, addLines, Draft.setPath, binary, change, body, kind, TextFile.file]
    using known

theorem finish?_binary (f : BinaryFile) : (drafted (.binary f)).finish? = none := by
  have binary : (drafted (.binary f)).binary = true := by
    rw [drafted, List.foldl_append]
    unfold BinaryFile.contentLines
    split
    · rfl
    · rw [List.foldl_cons]
      exact (kept_headers _ _).2 rfl
  rw [Draft.finish?, binary]
  rfl

theorem finish?_drafted (e : Entry) : (drafted e).finish? = e.file? := by
  cases e with
  | text f => exact finish?_text f
  | binary f => exact finish?_binary f

theorem splitLines_entries (entries : List Entry) (current : Option Draft) :
    splitLines current .zero (entries.flatMap Entry.lines) =
      finishAll current ++ entries.filterMap Entry.file? := by
  induction entries generalizing current with
  | nil => simp [splitLines]
  | cons e entries ih =>
      have finished : finishAll (some (drafted e)) = e.file?.toList :=
        congrArg Option.toList (finish?_drafted e)
      rw [List.flatMap_cons, splitLines_entry, ih, finished]
      cases e <;> rfl

/-- Of a diff in the format of git, splitting gives back the files of text, in order, with their
paths, what happened to them and the lines of their hunks. Lines of a hunk body may look like
anything. -/
theorem split_render (entries : List Entry) :
    split (render entries) = entries.filterMap Entry.file? := by
  rw [split, lines_render, splitLines_entries]
  rfl

example :
    split "diff --git a/x b/x\n--- a/x\n+++ b/x\n@@ -1,2 +1 @@\n--- a/y\n+++ b/y\n-@@ -1 +1 @@\n" =
      [⟨some "x", some "x", .modified, "@@ -1,2 +1 @@\n--- a/y\n+++ b/y\n-@@ -1 +1 @@\n"⟩] := by
  decide +kernel

end FileDiff

end Variability
