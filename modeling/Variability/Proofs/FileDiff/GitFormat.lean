import Variability.FileDiff
import Variability.Proofs.HunkRange

/-!
Diffs in the format of git. A diff is a list of entries, each begun by its `diff --git` line. Header
lines tell modes, similarity and, as the change asks for it, whether the file is new, deleted,
renamed or copied. An entry of text goes on with the two paths, where the null device stands for no
file, and with its hunks; a binary entry says so, or has data in the place of hunks.
-/

namespace Variability.GitFormat

/-- Neither line feeds nor carriage returns. -/
def Clean (cs : List Char) : Prop :=
  '\n' ∉ cs ∧ '\r' ∉ cs

instance (cs : List Char) : Decidable (Clean cs) :=
  inferInstanceAs (Decidable (_ ∧ _))

theorem Clean.append {cs ds : List Char} (clean : Clean cs) (cleanToo : Clean ds) :
    Clean (cs ++ ds) := by
  simp only [Clean, List.mem_append, not_or]
  exact ⟨⟨clean.1, cleanToo.1⟩, clean.2, cleanToo.2⟩

theorem Clean.cons {c : Char} {cs : List Char} (visible : Clean [c]) (clean : Clean cs) :
    Clean (c :: cs) :=
  visible.append clean

/-- Text that stands on one line. -/
structure Line where
  chars : List Char
  clean : Clean chars

structure Path extends Line where
  nonempty : chars ≠ []
  tabless : '\t' ∉ chars
  trimmed : Text.trimEnd chars = chars

def Path.text (p : Path) : String :=
  String.ofList p.chars

/-! Headers. -/

/-- Header lines that say nothing about paths. -/
inductive Notice where
  | oldMode (mode : Line)
  | newMode (mode : Line)
  | similarity (percent : Line)
  | dissimilarity (percent : Line)
  | index (blobs : Line)

def Notice.line : Notice → List Char
  | oldMode mode => "old mode ".toList ++ mode.chars
  | newMode mode => "new mode ".toList ++ mode.chars
  | similarity percent => "similarity index ".toList ++ percent.chars
  | dissimilarity percent => "dissimilarity index ".toList ++ percent.chars
  | index blobs => "index ".toList ++ blobs.chars

/-- What happened to a file, and the paths that it has. -/
inductive Change where
  | added (path : Path) (mode : Line)
  | deleted (path : Path) (mode : Line)
  | modified (path : Path)
  | renamed (old new : Path)
  | copied (old new : Path)

namespace Change

def kind : Change → FileChange
  | added .. => .added
  | deleted .. => .deleted
  | modified _ => .modified
  | renamed .. => .renamed
  | copied .. => .copied

/-- The path of the file on a side; there is none where there is no file. -/
def path? : Change → Side → Option Path
  | added path _, .after => some path
  | added .., .before => none
  | deleted path _, .before => some path
  | deleted .., .after => none
  | modified path, _ => some path
  | renamed old _, .before | copied old _, .before => some old
  | renamed _ new, .after | copied _ new, .after => some new

/-- The name of a side in the first line, where there is always one. -/
def name : Change → Side → Path
  | added path _, _ | deleted path _, _ | modified path, _ => path
  | renamed old _, .before | copied old _, .before => old
  | renamed _ new, .after | copied _ new, .after => new

def gitLine (c : Change) : List Char :=
  "diff --git ".toList ++ ("a/".toList ++ (c.name .before).chars ++
    (" b/".toList ++ (c.name .after).chars))

def moves : Change → List (List Char)
  | added _ mode => ["new file mode ".toList ++ mode.chars]
  | deleted _ mode => ["deleted file mode ".toList ++ mode.chars]
  | modified _ => []
  | renamed old new => ["rename from ".toList ++ old.chars, "rename to ".toList ++ new.chars]
  | copied old new => ["copy from ".toList ++ old.chars, "copy to ".toList ++ new.chars]

end Change

def sideMark : Side → List Char
  | .before => "a/".toList
  | .after => "b/".toList

/-- A path with the mark of its side, or the null device. -/
def sided (s : Side) : Option Path → List Char
  | none => "/dev/null".toList
  | some path => sideMark s ++ path.chars

theorem sided_none (s : Side) : sided s none = "/dev/null".toList := rfl

theorem sided_some (s : Side) (path : Path) : sided s (some path) = sideMark s ++ path.chars := rfl

/-- What may stand behind a path, a tab before it. -/
def behindTab : Option Line → List Char
  | none => []
  | some rest => '\t' :: rest.chars

def pathMark : Side → List Char
  | .before => "--- ".toList
  | .after => "+++ ".toList

structure Header where
  change : Change
  /-- Above the lines that tell the change. -/
  notices : List Notice
  /-- Below them. -/
  further : List Notice

def Header.lines (h : Header) : List (List Char) :=
  h.notices.map Notice.line ++ h.change.moves ++ h.further.map Notice.line

theorem Header.forall_lines {h : Header} {P : List Char → Prop} (notices : ∀ n : Notice, P n.line)
    (moves : ∀ l ∈ h.change.moves, P l) : ∀ l ∈ h.lines, P l := by
  simp only [Header.lines, List.mem_append, List.mem_map]
  rintro l ((⟨n, -, rfl⟩ | move) | ⟨n, -, rfl⟩)
  · exact notices n
  · exact moves l move
  · exact notices n

/-! Hunks. -/

/-- A line of a hunk body. The empty line stands for an empty line that was kept; a marker stands
for no line. -/
inductive BodyLine where
  | kept (text : Line)
  | added (text : Line)
  | removed (text : Line)
  | empty
  | marker (text : Line)

namespace BodyLine

def line : BodyLine → List Char
  | kept text => ' ' :: text.chars
  | added text => '+' :: text.chars
  | removed text => '-' :: text.chars
  | empty => []
  | marker text => '\\' :: text.chars

def existsOn : BodyLine → Side → Bool
  | kept _, _ | empty, _ => true
  | added _, s => s = .after
  | removed _, s => s = .before
  | marker _, _ => false

/-- The lines of a body that a side has. -/
def count (s : Side) (body : List BodyLine) : Nat :=
  body.countP (·.existsOn s)

end BodyLine

structure Hunk where
  oldStart : Nat
  newStart : Nat
  /-- Whether the length of a side is left out if it is 1. -/
  terse : Side → Bool
  /-- What stands behind the second mark. -/
  heading : Line
  body : List BodyLine
  /-- Line numbers and lengths are machine words. -/
  words : HunkRange.InWords
    ⟨oldStart, BodyLine.count .before body, newStart, BodyLine.count .after body⟩

def span (sign : Char) (terse : Bool) (start length : Nat) : List Char :=
  if terse ∧ length = 1 then sign :: Text.decimal start else HunkRange.printSpan sign start length

theorem readSpan?_span (sign : Char) (terse : Bool) {start length : Nat}
    (word : start < Text.wordLimit) (wordToo : length < Text.wordLimit) :
    HunkRange.readSpan? sign (span sign terse start length) = some (start, length) := by
  unfold span
  split
  · next short =>
    obtain ⟨-, rfl⟩ := short
    have marked : Text.after? [sign] (sign :: Text.decimal start) = some (Text.decimal start) :=
      Text.after?_append [sign] _
    have whole : Text.cut? [','] (Text.decimal start) = none :=
      Text.cut?_eq_none (Text.not_mem_decimal (by decide)) []
    simp [HunkRange.readSpan?, marked, whole, Text.readDecimal?_decimal word]
  · exact HunkRange.readSpan?_printSpan sign word wordToo

theorem solid_span {sign : Char} (visible : Text.isBlank sign = false) (terse : Bool)
    (start length : Nat) : Text.Solid (span sign terse start length) := by
  unfold span
  split
  · refine ⟨by simp, fun c member => ?_⟩
    rcases List.mem_cons.mp member with rfl | digit
    · exact visible
    · exact (Text.solid_decimal start).2 c digit
  · exact HunkRange.solid_printSpan visible start length

theorem not_mem_span {sign c : Char} (digit : c.isDigit = false) (other : c ≠ sign)
    (notComma : c ≠ ',') (terse : Bool) (start length : Nat) :
    c ∉ span sign terse start length := by
  have absent (n : Nat) : c ∉ Text.decimal n := Text.not_mem_decimal digit
  unfold span
  split <;> simp [HunkRange.printSpan, absent, other, notComma]

namespace Hunk

def range (h : Hunk) : HunkRange :=
  ⟨h.oldStart, BodyLine.count .before h.body, h.newStart, BodyLine.count .after h.body⟩

def spans (h : Hunk) : List Char :=
  span '-' (h.terse .before) h.oldStart (BodyLine.count .before h.body) ++
    ' ' :: span '+' (h.terse .after) h.newStart (BodyLine.count .after h.body)

def header (h : Hunk) : List Char :=
  "@@ ".toList ++ (h.spans ++ " @@".toList ++ h.heading.chars)

def lines (h : Hunk) : List (List Char) :=
  h.header :: h.body.map BodyLine.line

theorem not_mem_spans (h : Hunk) {c : Char} (digit : c.isDigit = false)
    (other : c ∉ ['-', '+', ',', ' ']) : c ∉ h.spans := by
  simp only [List.mem_cons, List.not_mem_nil, or_false, not_or] at other
  obtain ⟨minus, plus, comma, blank⟩ := other
  simp [spans, not_mem_span digit minus comma, not_mem_span digit plus comma, blank]

theorem read?_spans (h : Hunk) : HunkRange.read? h.spans = some h.range := by
  have words : Text.words h.spans =
      [span '-' (h.terse .before) h.oldStart (BodyLine.count .before h.body),
        span '+' (h.terse .after) h.newStart (BodyLine.count .after h.body)] := by
    rw [spans, (solid_span (by decide) _ _ _).words_append (by decide),
      (solid_span (by decide) _ _ _).words]
  simp [HunkRange.read?, words, readSpan?_span '-' _ h.words.oldStart h.words.oldLength,
    readSpan?_span '+' _ h.words.newStart h.words.newLength, range]

theorem trim_spans (h : Hunk) : Text.trim (' ' :: (h.spans ++ [' '])) = h.spans := by
  have left : Text.trimStart (' ' :: (h.spans ++ [' '])) = h.spans ++ [' '] := by
    rw [Text.trimStart, List.dropWhile_cons_of_pos (by decide), spans, List.append_assoc]
    exact (solid_span (by decide) _ _ _).trimStart_append _
  have last : Text.Solid
      (span '+' (h.terse .after) h.newStart (BodyLine.count .after h.body)) :=
    solid_span (by decide) _ _ _
  rw [Text.trim, left, Text.trimEnd_concat_blank _ (by decide), spans, ← List.singleton_append,
    ← List.append_assoc, Text.trimEnd_append _ (by rw [last.trimEnd]; exact last.1), last.trimEnd]

/-- The range of a hunk is read from its header. -/
theorem ofHeader?_header (h : Hunk) : HunkRange.ofHeader? h.header = some h.range := by
  have marked : Text.after? ['@', '@'] h.header =
      some (' ' :: (h.spans ++ [' ']) ++ ['@', '@'] ++ h.heading.chars) := by
    rw [Text.after?_eq_some_iff]
    simp [header]
  have absent : '@' ∉ ' ' :: (h.spans ++ [' ']) := by
    have := h.not_mem_spans (c := '@') (by decide) (by decide)
    simp [this]
  have cut := Text.cut?_append absent ['@'] h.heading.chars
  rw [HunkRange.ofHeader?, marked]
  simp only [Option.bind_some, bind, cut, trim_spans, read?_spans]
end Hunk

/-! Entries. -/

structure TextFile extends Header where
  /-- What stands behind the paths. -/
  tails : Side → Option Line
  first : Hunk
  more : List Hunk

namespace TextFile

def hunkLines (f : TextFile) : List (List Char) :=
  (f.first :: f.more).flatMap Hunk.lines

def pathLine (f : TextFile) (s : Side) : List Char :=
  pathMark s ++ (sided s (f.change.path? s) ++ behindTab (f.tails s))

def lines (f : TextFile) : List (List Char) :=
  f.change.gitLine :: (f.toHeader.lines ++ [f.pathLine .before, f.pathLine .after]) ++ f.hunkLines

/-- The file that is meant. -/
def file (f : TextFile) : FileDiff where
  oldPath := (f.change.path? .before).map Path.text
  newPath := (f.change.path? .after).map Path.text
  change := f.change.kind
  patch := String.ofList (Text.unlines f.hunkLines)

end TextFile

/-- A line of binary data. Encoded data starts with a letter for its length and has no blanks. -/
structure DataLine extends Line where
  inert : Text.startsWith FileDiff.Draft.gitMark chars = false ∧
    Text.startsWith ['@', '@'] chars = false

inductive Contents where
  | differ
  | patch (data : List DataLine)

structure BinaryFile extends Header where
  contents : Contents

namespace BinaryFile

def contentLines (f : BinaryFile) : List (List Char) :=
  match f.contents with
  | .differ =>
    ["Binary files ".toList ++ (sided .before (f.change.path? .before) ++ " and ".toList ++
      sided .after (f.change.path? .after) ++ " differ".toList)]
  | .patch data => "GIT binary patch".toList :: data.map (·.chars)

def lines (f : BinaryFile) : List (List Char) :=
  f.change.gitLine :: (f.toHeader.lines ++ f.contentLines)

end BinaryFile

inductive Entry where
  | text (file : TextFile)
  | binary (file : BinaryFile)

namespace Entry

def lines : Entry → List (List Char)
  | text f => f.lines
  | binary f => f.lines

def file? : Entry → Option FileDiff
  | text f => some f.file
  | binary _ => none

end Entry

/-! Every line is clean. -/

theorem clean_notice (n : Notice) : Clean n.line := by
  cases n with
  | oldMode text | newMode text | similarity text | dissimilarity text | index text =>
      exact Clean.append (by decide +kernel) text.clean

theorem clean_gitLine (c : Change) : Clean c.gitLine :=
  Clean.append (by decide +kernel) (Clean.append
    (Clean.append (by decide +kernel) (c.name .before).clean)
    (Clean.append (by decide +kernel) (c.name .after).clean))

theorem clean_moves (c : Change) : ∀ l ∈ c.moves, Clean l := by
  cases c <;> simp only [Change.moves, List.forall_mem_cons, List.not_mem_nil, false_implies,
    implies_true, and_true]
  case added _ mode | deleted _ mode => exact Clean.append (by decide +kernel) mode.clean
  case renamed old new | copied old new =>
    exact ⟨Clean.append (by decide +kernel) old.clean, Clean.append (by decide +kernel) new.clean⟩

theorem clean_header (h : Header) : ∀ l ∈ h.lines, Clean l :=
  Header.forall_lines clean_notice (clean_moves h.change)

theorem clean_sided (s : Side) (path : Option Path) : Clean (sided s path) := by
  cases path with
  | none =>
      rw [sided_none]
      decide +kernel
  | some path =>
      have marked : Clean (sideMark s) := by
        cases s <;> decide +kernel
      exact marked.append path.clean

theorem clean_pathLine (f : TextFile) (s : Side) : Clean (f.pathLine s) := by
  have marked : Clean (pathMark s) := by
    cases s <;> decide +kernel
  have behind : Clean (behindTab (f.tails s)) := by
    cases f.tails s with
    | none => exact ⟨by simp [behindTab], by simp [behindTab]⟩
    | some tail => exact Clean.cons (by decide) tail.clean
  exact marked.append ((clean_sided s _).append behind)

theorem clean_hunk (h : Hunk) : ∀ l ∈ h.lines, Clean l := by
  have spans : Clean h.spans :=
    ⟨h.not_mem_spans (by decide) (by decide), h.not_mem_spans (by decide) (by decide)⟩
  simp only [Hunk.lines, List.forall_mem_cons, List.forall_mem_map]
  refine ⟨Clean.append (by decide +kernel) ((spans.append (by decide +kernel)).append
    h.heading.clean), fun b _ => ?_⟩
  cases b with
  | kept text | added text | removed text | marker text => exact Clean.cons (by decide) text.clean
  | empty => decide

theorem clean_contentLines (f : BinaryFile) : ∀ l ∈ f.contentLines, Clean l := by
  unfold BinaryFile.contentLines
  split
  · simp only [List.forall_mem_cons, List.not_mem_nil, false_implies, implies_true, and_true]
    exact Clean.append (by decide +kernel) ((((clean_sided .before _).append
      (by decide +kernel)).append (clean_sided .after _)).append (by decide +kernel))
  · simp only [List.forall_mem_cons, List.forall_mem_map]
    exact ⟨by decide +kernel, fun line _ => line.clean⟩

theorem Entry.clean_lines (e : Entry) : ∀ l ∈ e.lines, Clean l := by
  cases e with
  | text f =>
      simp only [Entry.lines, TextFile.lines, TextFile.hunkLines, List.mem_append, List.mem_cons,
        List.not_mem_nil, or_false, List.mem_flatMap]
      rintro l ((rfl | header | rfl | rfl) | ⟨h, -, hunk⟩)
      · exact clean_gitLine f.change
      · exact clean_header f.toHeader l header
      · exact clean_pathLine f .before
      · exact clean_pathLine f .after
      · exact clean_hunk h l hunk
  | binary f =>
      simp only [Entry.lines, BinaryFile.lines, List.mem_append, List.mem_cons]
      rintro l (rfl | header | content)
      · exact clean_gitLine f.change
      · exact clean_header f.toHeader l header
      · exact clean_contentLines f l content

def render (entries : List Entry) : String :=
  String.ofList (Text.unlines (entries.flatMap Entry.lines))

/-- The lines of a diff are those it was made of. -/
theorem lines_render (entries : List Entry) :
    Text.lines (render entries).toList = entries.flatMap Entry.lines := by
  have clean : ∀ l ∈ entries.flatMap Entry.lines, Clean l := by
    intro l member
    obtain ⟨e, -, line⟩ := List.mem_flatMap.mp member
    exact e.clean_lines l line
  have returnless : ∀ l ∈ entries.flatMap Entry.lines, Text.dropReturn l = l := fun l member =>
    Text.dropReturn_eq_self_iff.mpr fun last => (clean l member).2 (List.mem_of_getLast? last)
  rw [render, String.toList_ofList, Text.lines_unlines fun l member => (clean l member).1,
    List.map_congr_left returnless, List.map_id']

end Variability.GitFormat
