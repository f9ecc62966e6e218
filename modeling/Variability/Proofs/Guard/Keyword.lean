import Variability.Directive
import Variability.Proofs.Guard.Rendering
import Variability.Proofs.Text.Words

/-!
Where the keyword of a directive stands. A text is a directive on account of the keyword that starts
it and of the character behind, so text in which only what follows is different is one too.
-/

namespace Variability

namespace Directive

open Guard.Token (span_append)
open Text (isBlank isWordChar trimStart trimStart_append trimStart_append_cons)

theorem split?_eq_some_iff {line rest : List Char} {keyword : Keyword} :
    split? line = some (keyword, rest) ↔
      ∃ cs, trimStart line = '#' :: cs ∧ (trimStart cs).dropWhile isWordChar = rest ∧
        '\n' ∉ rest ∧ Keyword.ofWord? ((trimStart cs).takeWhile isWordChar) = some keyword := by
  unfold split?
  constructor
  · intro found
    split at found
    · next cs mark =>
      simp only at found
      split at found
      · cases found
      · next whole =>
        obtain ⟨known, here, same⟩ := Option.map_eq_some_iff.mp found
        cases same
        exact ⟨cs, mark, rfl, by simpa using whole, here⟩
    · cases found
  · rintro ⟨cs, mark, rfl, whole, known⟩
    simp [mark, whole, known]

theorem isDirective_iff {line : List Char} :
    isDirective line ↔ ∃ cs, trimStart line = '#' :: cs ∧
      '\n' ∉ (trimStart cs).dropWhile isWordChar ∧
      (Keyword.ofWord? ((trimStart cs).takeWhile isWordChar)).isSome := by
  rw [isDirective, Option.isSome_iff_exists]
  simp only [Prod.exists, split?_eq_some_iff, Option.isSome_iff_exists]
  constructor
  · rintro ⟨keyword, rest, cs, mark, rfl, whole, known⟩
    exact ⟨cs, mark, whole, keyword, known⟩
  · rintro ⟨cs, mark, whole, keyword, known⟩
    exact ⟨keyword, _, cs, mark, rfl, whole, known⟩

/-- What stands before a mark that is neither blank nor part of a word is a directive already, and
stays one with other text behind it. -/
theorem isDirective_replace {cs behind more : List Char} {c d : Char}
    (directive : isDirective (cs ++ c :: behind)) (visible : isBlank c = false)
    (hash : c ≠ '#') (other : isWordChar c = false) (otherToo : isWordChar d = false)
    (whole : '\n' ∉ d :: more) : isDirective (cs ++ d :: more) := by
  obtain ⟨rest, mark, wholeRest, known⟩ := isDirective_iff.mp directive
  rw [trimStart_append_cons visible] at mark
  obtain ⟨rest, trimmed, rfl⟩ :
      ∃ rest', trimStart cs = '#' :: rest' ∧ rest = rest' ++ c :: behind := by
    cases trimmed : trimStart cs with
    | nil =>
        rw [trimmed] at mark
        exact absurd (List.cons.inj mark).1 hash
    | cons e rest' =>
        rw [trimmed, List.cons_append] at mark
        obtain ⟨rfl, same⟩ := List.cons.inj mark
        exact ⟨rest', rfl, same.symm⟩
  have stops : ∀ e ∈ (c :: behind).head?, isWordChar e = false := by simpa using other
  have stopsToo : ∀ e ∈ (d :: more).head?, isWordChar e = false := by simpa using otherToo
  obtain ⟨taken, dropped⟩ := span_append stops (trimStart rest)
  obtain ⟨takenToo, droppedToo⟩ := span_append stopsToo (trimStart rest)
  rw [trimStart_append_cons visible, taken] at known
  rw [trimStart_append_cons visible, dropped] at wholeRest
  have word : trimStart rest ≠ [] := by
    intro nothing
    rw [nothing] at known
    cases known
  refine isDirective_iff.mpr ⟨rest ++ d :: more, ?_, ?_, ?_⟩
  · rw [trimStart_append (by simp [trimmed]), trimmed, List.cons_append]
  · rw [trimStart_append word, droppedToo, List.mem_append, not_or]
    exact ⟨fun newline => wholeRest (List.mem_append_left _ newline), whole⟩
  · rw [trimStart_append word, takenToo]
    exact known

end Directive

end Variability
