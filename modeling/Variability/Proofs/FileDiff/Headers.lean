import Variability.Proofs.FileDiff.GitFormat

/-!
What the header lines of git make of a file that is read. Notices leave it as it is, the lines of a
change set the change, and the two path lines settle the paths, whatever stood there before. A file
that is once known to be binary stays so.
-/

namespace Variability

open Text (after? startsWith)
open GitFormat

namespace FileDiff

@[simp] theorem body_setPath (d : Draft) (s : Side) (path : Option String) :
    (d.setPath s path).body = d.body := by
  cases s <;> rfl

@[simp] theorem binary_setPath (d : Draft) (s : Side) (path : Option String) :
    (d.setPath s path).binary = d.binary := by
  cases s <;> rfl

theorem kept_move? {d moved : Draft} {line : List Char} (move : d.move? line = some moved) :
    moved.body = d.body ∧ moved.binary = d.binary := by
  obtain ⟨⟨head, change, side?⟩, -, fits⟩ := List.exists_of_findSome?_eq_some move
  obtain ⟨path, -, rfl⟩ := Option.map_eq_some_iff.mp fits
  cases side? with
  | none => exact ⟨rfl, rfl⟩
  | some s => exact ⟨body_setPath _ _ _, binary_setPath _ _ _⟩

theorem kept_addHeader (d : Draft) (line : List Char) :
    (d.addHeader line).body = d.body ∧ (d.binary = true → (d.addHeader line).binary = true) := by
  unfold Draft.addHeader
  split
  · next moved move =>
    obtain ⟨body, binary⟩ := kept_move? move
    exact ⟨body, fun h => binary.trans h⟩
  · split
    · simp
    · split
      · simp
      · split
        · simp
        · simp

theorem kept_headers (lines : List (List Char)) (d : Draft) :
    (lines.foldl Draft.addHeader d).body = d.body ∧
      (d.binary = true → (lines.foldl Draft.addHeader d).binary = true) := by
  induction lines generalizing d with
  | nil => exact ⟨rfl, id⟩
  | cons line lines ih =>
      obtain ⟨body, binary⟩ := kept_addHeader d line
      obtain ⟨bodyToo, binaryToo⟩ := ih (d.addHeader line)
      exact ⟨bodyToo.trans body, fun h => binaryToo (binary h)⟩

/-! Notices and changes. -/

theorem addHeader_notice (d : Draft) (n : Notice) : d.addHeader n.line = d := by
  cases n <;> rfl

theorem addHeader_notices (notices : List Notice) (d : Draft) :
    (notices.map Notice.line).foldl Draft.addHeader d = d := by
  induction notices with
  | nil => rfl
  | cons n notices ih => rw [List.map_cons, List.foldl_cons, addHeader_notice, ih]

/-- The change that header lines tell; of a modified file they tell nothing. -/
def told : Change → Option FileChange
  | .modified _ => none
  | c => some c.kind

theorem addHeader_moves (c : Change) (d : Draft) :
    (c.moves.foldl Draft.addHeader d).change = (told c <|> d.change) ∧
      (c.moves.foldl Draft.addHeader d).binary = d.binary := by
  cases c <;> exact ⟨rfl, rfl⟩

theorem addHeader_lines (h : Header) (d : Draft) :
    (h.lines.foldl Draft.addHeader d).change = (told h.change <|> d.change) ∧
      (h.lines.foldl Draft.addHeader d).binary = d.binary := by
  rw [Header.lines, List.foldl_append, List.foldl_append, addHeader_notices, addHeader_notices]
  exact addHeader_moves h.change d

/-! Paths. -/

theorem trimEnd_sided (s : Side) (path : Option Path) :
    Text.trimEnd (sided s path) = sided s path := by
  cases path with
  | none =>
      rw [sided_none]
      exact Text.Solid.trimEnd (by decide +kernel)
  | some path =>
      have visible : Text.trimEnd path.chars ≠ [] := by
        rw [path.trimmed]
        exact path.nonempty
      rw [sided_some, Text.trimEnd_append _ visible, path.trimmed]

theorem tab_not_mem_sided (s : Side) (path : Option Path) : '\t' ∉ sided s path := by
  cases path with
  | none => simp [sided_none]
  | some path =>
      have marked : '\t' ∉ sideMark s := by
        cases s <;> decide +kernel
      simp [sided_some, marked, path.tabless]

theorem takeWhile_sided (s : Side) (path : Option Path) (tail : Option Line) :
    (sided s path ++ behindTab tail).takeWhile (· ≠ '\t') = sided s path := by
  rw [List.takeWhile_append_of_pos fun c member => ?_]
  · cases tail <;> simp [behindTab]
  · have := tab_not_mem_sided s path
    exact decide_eq_true fun tab => this (tab ▸ member)

/-- A path line names its path; what stands behind a tab does not matter. -/
theorem namedPath_sided (s : Side) (path : Option Path) (tail : Option Line) :
    namedPath (sided s path ++ behindTab tail) = path.map Path.text := by
  rw [namedPath, takeWhile_sided, trimEnd_sided]
  cases path with
  | none => rfl
  | some path => cases s <;> rfl

theorem addHeader_pathLine (f : TextFile) (s : Side) (d : Draft) :
    d.addHeader (f.pathLine s) = d.setPath s ((f.change.path? s).map Path.text) := by
  rw [← namedPath_sided s _ (f.tails s)]
  cases s <;> rfl

theorem change_ofLine (line : List Char) : (Draft.ofLine line).change = none := by
  unfold Draft.ofLine
  split <;> rfl

theorem binary_ofLine (line : List Char) : (Draft.ofLine line).binary = false := by
  unfold Draft.ofLine
  split <;> rfl

theorem body_ofLine (line : List Char) : (Draft.ofLine line).body = [] := by
  unfold Draft.ofLine
  split <;> rfl

end FileDiff

end Variability
