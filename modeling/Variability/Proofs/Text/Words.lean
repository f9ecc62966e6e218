import Variability.Proofs.Text.Written
import Variability.Text.WordChar

/-!
The words of a text. Text behind a blank has its own words, so a text is read word by word: the
first word stands where blanks are trimmed, and the last one ends with the last character that is no
blank.
-/

namespace Variability.Text

/-- Text that is nothing, or that starts with a blank. -/
def Detached (cs : List Char) : Prop :=
  ∀ c ∈ cs.head?, isBlank c

/-- A text has no blanks, or it is text without blanks, a blank, and more text behind it. -/
theorem induction_words {motive : List Char → Prop}
    (last : ∀ word, (∀ c ∈ word, isBlank c = false) → motive word)
    (word : ∀ word b cs, (∀ c ∈ word, isBlank c = false) → isBlank b → motive cs →
      motive (word ++ b :: cs)) (cs : List Char) : motive cs := by
  -- the word that is being read is carried along
  have carried (read : List Char) (visible : ∀ c ∈ read, isBlank c = false) :
      motive (read ++ cs) := by
    induction cs generalizing read with
    | nil =>
        rw [List.append_nil]
        exact last read visible
    | cons c cs ih =>
        cases blank : isBlank c with
        | true => exact word read c cs visible blank (ih [] (by simp))
        | false =>
            rw [List.append_cons]
            exact ih (read ++ [c]) (List.forall_mem_append.mpr ⟨visible, by simpa using blank⟩)
  exact carried [] (by simp)

section Word

variable {word : List Char} (visible : ∀ c ∈ word, isBlank c = false)
include visible

theorem words_visible : words word = [word].filter fun run => !run.isEmpty := by
  have empty : runs [] = [] :: [] := rfl
  rw [words_eq, ← List.append_nil word, runs_of_forall visible empty]

theorem words_visible_append {b : Char} (blank : isBlank b) (cs : List Char) :
    words (word ++ b :: cs) = words word ++ words cs := by
  have behind : runs (b :: cs) = [] :: runs cs := by
    rw [runs, if_pos blank]
  rw [words_eq, runs_of_forall visible behind, words_visible visible, words_eq, List.append_nil,
    List.filter_cons, List.filter_cons]
  split <;> rfl

end Word

/-- Text behind a blank has its own words. -/
theorem words_append_blank {b : Char} (blank : isBlank b) (cs ds : List Char) :
    words (cs ++ b :: ds) = words cs ++ words ds := by
  induction cs using induction_words with
  | last word visible => exact words_visible_append visible blank ds
  | word word c cs visible blankToo ih =>
      rw [List.append_assoc, List.cons_append, words_visible_append visible blankToo, ih,
        words_visible_append visible blankToo, List.append_assoc]

theorem words_blank_cons {b : Char} (blank : isBlank b) (cs : List Char) :
    words (b :: cs) = words cs :=
  words_append_blank blank [] cs

theorem words_append_detached {ds : List Char} (detached : Detached ds) (cs : List Char) :
    words (cs ++ ds) = words cs ++ words ds := by
  cases ds with
  | nil => simp
  | cons b ds =>
      have blank := detached b rfl
      rw [words_append_blank blank, words_blank_cons blank]

@[simp] theorem words_trimStart (cs : List Char) : words (trimStart cs) = words cs := by
  induction cs with
  | nil => rfl
  | cons c cs ih =>
      rw [trimStart, List.dropWhile_cons]
      split
      · next blank =>
        rw [← trimStart, ih, words_blank_cons blank]
      · rfl

theorem trimStart_append {cs : List Char} (visible : trimStart cs ≠ []) (more : List Char) :
    trimStart (cs ++ more) = trimStart cs ++ more := by
  rw [trimStart, List.dropWhile_append, if_neg (by rwa [List.isEmpty_iff]), ← trimStart]

theorem trimStart_append_cons {c : Char} (visible : isBlank c = false)
    (cs more : List Char) : trimStart (cs ++ c :: more) = trimStart cs ++ c :: more := by
  rw [trimStart, List.dropWhile_append, ← trimStart]
  split
  · next blank =>
    rw [List.isEmpty_iff.mp blank, List.dropWhile_cons_of_neg (by simp [visible])]
    rfl
  · rfl

/-- Trimmed text starts with its first word. -/
theorem exists_trimStart {cs word : List Char} {more : List (List Char)}
    (split : words cs = word :: more) :
    ∃ rest, trimStart cs = word ++ rest ∧ Solid word ∧ words rest = more ∧ Detached rest := by
  induction cs using induction_words with
  | last own visible =>
      by_cases empty : own = []
      · rw [empty] at split
        cases split
      · have solid : Solid own := ⟨empty, visible⟩
        rw [solid.words] at split
        cases split
        exact ⟨[], by simpa using solid.trimStart_append [], solid, rfl, by simp [Detached]⟩
  | word own b cs visible blank ih =>
      by_cases empty : own = []
      · rw [empty, List.nil_append, words_blank_cons blank] at split
        rw [empty, List.nil_append, trimStart, List.dropWhile_cons_of_pos blank]
        exact ih split
      · have solid : Solid own := ⟨empty, visible⟩
        rw [solid.words_append blank] at split
        cases split
        exact ⟨b :: cs, solid.trimStart_append _, solid, words_blank_cons blank cs,
          by rintro c ⟨⟩; exact blank⟩

private theorem exists_words_concat {c : Char} (visible : isBlank c = false) (cs : List Char) :
    ∃ more word, words (cs ++ [c]) = more ++ [word ++ [c]] := by
  induction cs using induction_words with
  | last word own =>
      have solid : Solid (word ++ [c]) :=
        ⟨by simp, List.forall_mem_append.mpr ⟨own, by simpa using visible⟩⟩
      exact ⟨[], word, solid.words⟩
  | word own b cs _ blank ih =>
      obtain ⟨more, word, split⟩ := ih
      refine ⟨words own ++ more, word, ?_⟩
      rw [List.append_assoc, List.cons_append, words_append_blank blank, split, List.append_assoc]

/-- The last word ends where the text without trailing blanks does. -/
theorem getLast?_trimEnd (cs : List Char) :
    (trimEnd cs).getLast? = (words cs).getLast?.bind List.getLast? := by
  induction cs using List.reverseRecOn with
  | nil => rfl
  | append_singleton cs c ih =>
      cases blank : isBlank c with
      | true =>
          rw [trimEnd_concat_blank cs blank, ih, words_append_blank blank, words_nil,
            List.append_nil]
      | false =>
          obtain ⟨more, word, split⟩ := exists_words_concat blank cs
          rw [trimEnd_eq_self_iff.mpr (by simpa using blank), split]
          simp

/-- Blanks apart, the characters of a text are those of its words. -/
theorem forall_mem_words_iff {P : Char → Prop} (blanks : ∀ c, isBlank c → P c) {cs : List Char} :
    (∀ word ∈ words cs, ∀ c ∈ word, P c) ↔ ∀ c ∈ cs, P c := by
  induction cs using induction_words with
  | last word visible =>
      rw [words_visible visible]
      cases word <;> simp
  | word word b cs visible blank ih =>
      rw [words_visible_append visible blank, List.forall_mem_append, ih, words_visible visible,
        List.forall_mem_append, List.forall_mem_cons]
      cases word <;> simp [blanks b blank]

theorem isWordChar_eq_false_of_isBlank {c : Char} (blank : isBlank c) : isWordChar c = false := by
  have apart : ∀ range ∈ blankRanges, ∀ other ∈ wordRanges,
      range.2 < other.1 ∨ other.2 < range.1 := by decide +kernel
  rw [isBlank, List.any_eq_true] at blank
  obtain ⟨range, listed, inside⟩ := blank
  rw [isWordChar, List.any_eq_false]
  intro other listedToo insideToo
  simp only [Bool.and_eq_true, decide_eq_true_eq] at inside insideToo
  have disjoint := apart range listed other listedToo
  omega

end Variability.Text
