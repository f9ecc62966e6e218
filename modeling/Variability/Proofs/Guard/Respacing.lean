import Variability.Proofs.Guard.Keyword
import Variability.Proofs.Guard.Quotes
import Variability.Proofs.Guard.Reparse
import Variability.Proofs.Text.Words

/-!
Directives with other blanks between their words. Without quotes in a text, its comments are taken
out and its tokens are scanned word by word: all that a word has to know of those before it is
whether a comment is open. So a directive is read off its words.
-/

namespace Variability

open Text (isBlank isWordChar words trimStart Detached)

namespace Guard

open Token

/-- Whether a block comment is open behind a text; none is where a line comment took the rest. -/
def commentBehind : (inside : Bool) → List Char → Option Bool
  | inside, [] => some inside
  | false, '/' :: '/' :: _ => none
  | false, '/' :: '*' :: cs => commentBehind true cs
  | false, _ :: cs => commentBehind false cs
  | true, '*' :: '/' :: cs => commentBehind false cs
  | true, _ :: cs => commentBehind true cs

private theorem stripComments_false_cons {c : Char} {cs : List Char}
    (plain : c = '/' → ∀ d ∈ cs.head?, d ≠ '/' ∧ d ≠ '*') :
    stripComments false (c :: cs) = c :: stripComments false cs := by
  rw [stripComments]
  · rintro rest slash rfl
    exact (plain slash '/' rfl).1 rfl
  · rintro rest slash rfl
    exact (plain slash '*' rfl).2 rfl

private theorem stripComments_true_cons {c : Char} {cs : List Char}
    (plain : c = '*' → ∀ d ∈ cs.head?, d ≠ '/') :
    stripComments true (c :: cs) = stripComments true cs := by
  rw [stripComments]
  rintro rest star rfl
  exact plain star '/' rfl rfl

private theorem head?_append_cons {b d : Char} {cs ds : List Char}
    (first : d ∈ (cs ++ b :: ds).head?) : d = b ∨ d ∈ cs.head? := by
  cases cs with
  | nil => exact .inl (Option.some.inj first).symm
  | cons c cs => exact .inr first

theorem stripComments_append_blank {b : Char} (blank : isBlank b) (inside : Bool)
    (cs ds : List Char) :
    stripComments inside (cs ++ b :: ds) =
      stripComments inside cs ++
        match commentBehind inside cs with
        | none => []
        | some false => b :: stripComments false ds
        | some true => stripComments true ds := by
  have noSlash : b ≠ '/' := by
    rintro rfl
    cases blank
  have noStar : b ≠ '*' := by
    rintro rfl
    cases blank
  fun_induction commentBehind inside cs with
  | case1 inside =>
      cases inside with
      | false => exact stripComments_false_cons fun slash => absurd slash noSlash
      | true => exact stripComments_true_cons fun star => absurd star noStar
  | case2 => rfl
  | case3 cs ih => exact congrArg (' ' :: ·) ih
  | case4 c cs noLine noBlock ih =>
      have plain (slash : c = '/') : ∀ d ∈ cs.head?, d ≠ '/' ∧ d ≠ '*' := by
        intro d first
        obtain ⟨rest, rfl⟩ := List.head?_eq_some_iff.mp first
        exact ⟨fun same => noLine rest slash (by rw [same]),
          fun same => noBlock rest slash (by rw [same])⟩
      rw [List.cons_append, stripComments_false_cons, ih, stripComments_false_cons plain,
        List.cons_append]
      intro slash d first
      rcases head?_append_cons first with rfl | own
      · exact ⟨noSlash, noStar⟩
      · exact plain slash d own
  | case5 cs ih => exact ih
  | case6 c cs noEnd ih =>
      have plain (star : c = '*') : ∀ d ∈ cs.head?, d ≠ '/' := by
        intro d first same
        obtain ⟨rest, rfl⟩ := List.head?_eq_some_iff.mp first
        exact noEnd rest star (by rw [same])
      rw [List.cons_append, stripComments_true_cons, ih, stripComments_true_cons plain]
      intro star d first
      rcases head?_append_cons first with rfl | own
      · exact noSlash
      · exact plain star d own

/-- Behind a comment that is left open, what is kept ends with the blank of a comment, unless the
text started inside and all of it is gone. -/
theorem stripComments_of_commentBehind {inside : Bool} {cs : List Char}
    (isOpen : commentBehind inside cs = some true) :
    (inside = true ∧ stripComments inside cs = []) ∨
      ∃ ds, stripComments inside cs = ds ++ [' '] := by
  fun_induction commentBehind inside cs with
  | case1 inside =>
      obtain rfl := Option.some.inj isOpen
      exact .inl ⟨rfl, rfl⟩
  | case2 => cases isOpen
  | case3 cs ih =>
      rw [stripComments]
      rcases ih isOpen with ⟨-, nothing⟩ | ⟨ds, ends⟩
      · exact .inr ⟨[], by rw [nothing, List.nil_append]⟩
      · exact .inr ⟨' ' :: ds, by rw [ends, List.cons_append]⟩
  | case4 c cs noLine noBlock ih =>
      rcases ih isOpen with ⟨outside, -⟩ | ⟨ds, ends⟩
      · cases outside
      · refine .inr ⟨c :: ds, ?_⟩
        rw [stripComments, ends, List.cons_append] <;> assumption
  | case5 cs ih =>
      rcases ih isOpen with ⟨outside, -⟩ | ends
      · cases outside
      · exact .inr ends
  | case6 c cs noEnd ih =>
      rw [stripComments]
      · rcases ih isOpen with ⟨-, nothing⟩ | ends
        · exact .inl ⟨rfl, nothing⟩
        · exact .inr ends
      · assumption

/-- Text without quotes. -/
def Quoteless (cs : List Char) : Prop :=
  ∀ c ∈ cs, isQuote c = false

instance (cs : List Char) : Decidable (Quoteless cs) :=
  decidable_of_iff (cs.all fun c => !isQuote c) (by simp [Quoteless])

theorem Quoteless.of_words {cs ds : List Char} (quoteless : Quoteless cs)
    (same : words cs = words ds) : Quoteless ds := by
  have blanks (c : Char) (blank : isBlank c) : isQuote c = false := by
    rw [Bool.eq_false_iff]
    intro quote
    rw [isBlank_eq_false_of_isQuote quote] at blank
    cases blank
  rw [Quoteless, ← Text.forall_mem_words_iff blanks] at quoteless ⊢
  rwa [← same]

section Wordwise

variable {α : Type}

/-- A reader of text for which a blank, outside of quotes, separates what it reads. -/
structure Wordwise (h : List Char → List α) : Prop where
  nil : h [] = []
  append : ∀ {cs ds : List Char} {b : Char}, Quoteless cs → isBlank b →
    h (cs ++ b :: ds) = h cs ++ h ds

/-- What is read of words, one by one, once their comments are out. -/
def readWords (h : List Char → List α) : (inside : Bool) → List (List Char) → List α
  | _, [] => []
  | inside, word :: more =>
    h (stripComments inside word) ++
      match commentBehind inside word with
      | none => []
      | some inside => readWords h inside more

variable {h : List Char → List α} (wordwise : Wordwise h)
include wordwise

theorem Wordwise.readWords_append {word : List Char} (visible : ∀ c ∈ word, isBlank c = false)
    (inside : Bool) (more : List (List Char)) :
    readWords h inside (words word ++ more) =
      h (stripComments inside word) ++
        match commentBehind inside word with
        | none => []
        | some inside => readWords h inside more := by
  rw [Text.words_visible visible]
  cases word with
  | nil => cases inside <;> simp [stripComments, commentBehind, wordwise.nil]
  | cons c word => rfl

/-- Without quotes, a text with its comments out is read word by word. -/
theorem Wordwise.read_stripComments {cs : List Char} (quoteless : Quoteless cs)
    (inside : Bool) : h (stripComments inside cs) = readWords h inside (words cs) := by
  induction cs using Text.induction_words generalizing inside with
  | last word visible =>
      rw [← List.append_nil (words word), wordwise.readWords_append visible]
      cases commentBehind inside word <;> simp [readWords]
  | word word b cs visible blank ih =>
      obtain ⟨quotelessWord, quotelessRest⟩ := List.forall_mem_append.mp quoteless
      have ih := ih (List.forall_mem_cons.mp quotelessRest).2
      have kept : Quoteless (stripComments inside word) := by
        intro c member
        rcases mem_stripComments member with rfl | own
        · rfl
        · exact quotelessWord c own
      rw [Text.words_visible_append visible blank, wordwise.readWords_append visible,
        stripComments_append_blank blank]
      cases behind : commentBehind inside word with
      | none => simp
      | some isOpen =>
          cases isOpen with
          | false => simp only [wordwise.append kept blank, ih]
          | true =>
              simp only [← ih]
              rcases stripComments_of_commentBehind behind with ⟨-, nothing⟩ | ⟨ds, ends⟩
              · rw [nothing, wordwise.nil, List.nil_append, List.nil_append]
              · rw [ends] at kept ⊢
                have front : Quoteless ds := (List.forall_mem_append.mp kept).1
                rw [List.append_assoc, List.singleton_append, wordwise.append front (by decide),
                  wordwise.append front (by decide), wordwise.nil, List.append_nil]

end Wordwise

theorem goesOn_of_isBlank {b : Char} (blank : isBlank b) (t : Token) : t.goesOn b = false := by
  refine goesOn_eq_false ?_ ?_ t
  · rw [Bool.eq_false_iff]
    intro inside
    rw [isBlank_eq_false_of_isNumberChar inside] at blank
    cases blank
  · intro second
    simp only [List.mem_cons, List.not_mem_nil, or_false] at second
    rcases second with rfl | rfl | rfl | rfl | rfl <;> cases blank

theorem wordwise_scan : Wordwise scan where
  nil := by rw [scan]
  append := by
    intro cs ds b quoteless blank
    rw [scan_append_of_stops (closed_of_quoteless quoteless)
      (by rintro t c ⟨⟩; exact goesOn_of_isBlank blank t), scan_blank blank]

theorem wordwise_words : Wordwise words where
  nil := rfl
  append := fun _ blank => Text.words_append_blank blank _ _

/-- A guard without quotes is read off its words. -/
theorem parse_of_words {cs ds : List Char} (quoteless : Quoteless cs)
    (same : words cs = words ds) : parse cs = parse ds := by
  have scanned : tokens cs = tokens ds := by
    rw [tokens, tokens, wordwise_scan.read_stripComments quoteless,
      wordwise_scan.read_stripComments (quoteless.of_words same), same]
  rw [parse, parse, scanned]

end Guard

namespace Directive

open Guard (Quoteless)
open Guard.Token (span_append)

theorem Keyword.read_of_words {cs ds : List Char} (quoteless : Quoteless cs)
    (same : words cs = words ds) (keyword : Keyword) : keyword.read cs = keyword.read ds := by
  cases keyword with
  | expression kind => rw [read, read, Guard.parse_of_words quoteless same]
  | macroName kind defined =>
      rw [read, read, macroGuard, macroGuard,
        Guard.wordwise_words.read_stripComments quoteless,
        Guard.wordwise_words.read_stripComments (quoteless.of_words same), same]
  | bare kind => rfl

theorem behind_keyword_subset {line front : List Char} (mark : trimStart line = '#' :: front) :
    (trimStart front).dropWhile isWordChar ⊆ line := by
  intro c member
  have inside : c ∈ front :=
    (List.dropWhile_sublist _).subset ((List.dropWhile_sublist _).subset member)
  have behind : c ∈ trimStart line := mark ▸ List.mem_cons_of_mem '#' inside
  exact (List.dropWhile_sublist _).subset behind

section Further

variable {cs ds : List Char} {more : List (List Char)} (further : words ds = words cs ++ more)
include further

/-- Once they are trimmed, a text starts with the first word of a text that has fewer words. -/
theorem exists_first_word (visible : trimStart cs ≠ []) :
    ∃ word rest restToo, trimStart cs = word ++ rest ∧ trimStart ds = word ++ restToo ∧
      word ≠ [] ∧ words restToo = words rest ++ more ∧ Detached rest ∧ Detached restToo := by
  cases split : words cs with
  | nil =>
      have blank : ∀ c ∈ cs, isBlank c = true :=
        (Text.forall_mem_words_iff fun _ blank => blank).mp (by simp [split])
      exact absurd (List.dropWhile_eq_nil_iff.mpr blank) visible
  | cons word others =>
      rw [split, List.cons_append] at further
      obtain ⟨rest, trimmed, solid, behind, detached⟩ := Text.exists_trimStart split
      obtain ⟨restToo, trimmedToo, -, behindToo, detachedToo⟩ := Text.exists_trimStart further
      exact ⟨word, rest, restToo, trimmed, trimmedToo, solid.1, by rw [behindToo, behind],
        detached, detachedToo⟩

theorem exists_trimStart_of_words {c : Char} {front : List Char}
    (first : trimStart cs = c :: front) :
    ∃ frontToo, trimStart ds = c :: frontToo ∧ words frontToo = words front ++ more := by
  obtain ⟨word, rest, restToo, trimmed, trimmedToo, written, behind, detached, detachedToo⟩ :=
    exists_first_word further (by simp [first])
  obtain ⟨d, name, rfl⟩ := List.exists_cons_of_ne_nil written
  obtain ⟨rfl, rfl⟩ := List.cons.inj (first.symm.trans trimmed)
  refine ⟨name ++ restToo, trimmedToo, ?_⟩
  rw [Text.words_append_detached detachedToo, behind, List.append_eq,
    Text.words_append_detached detached, List.append_assoc]

/-- The keyword is read off the first word, and the words behind it are those that follow. -/
theorem keyword_of_words (visible : trimStart cs ≠ []) :
    (trimStart ds).takeWhile isWordChar = (trimStart cs).takeWhile isWordChar ∧
      words ((trimStart ds).dropWhile isWordChar) =
        words ((trimStart cs).dropWhile isWordChar) ++ more := by
  have parts {rest : List Char} (detached : Detached rest) (word : List Char) :
      (word ++ rest).takeWhile isWordChar = word.takeWhile isWordChar ∧
        words ((word ++ rest).dropWhile isWordChar) =
          words (word.dropWhile isWordChar) ++ words rest := by
    obtain ⟨taken, dropped⟩ := span_append
      (fun c first => Text.isWordChar_eq_false_of_isBlank (detached c first)) word
    rw [taken, dropped, Text.words_append_detached detached]
    exact ⟨rfl, rfl⟩
  obtain ⟨word, rest, restToo, trimmed, trimmedToo, -, behind, detached, detachedToo⟩ :=
    exists_first_word further visible
  obtain ⟨taken, dropped⟩ := parts detached word
  obtain ⟨takenToo, droppedToo⟩ := parts detachedToo word
  rw [trimmed, trimmedToo, taken, takenToo, dropped, droppedToo, behind, List.append_assoc]
  exact ⟨rfl, rfl⟩

/-- What follows the keyword has further words when the text has. -/
theorem exists_split? {keyword : Keyword} {rest : List Char}
    (split : split? cs = some (keyword, rest)) (whole : '\n' ∉ ds) :
    ∃ restToo, split? ds = some (keyword, restToo) ∧ words restToo = words rest ++ more := by
  obtain ⟨front, mark, rfl, -, known⟩ := split?_eq_some_iff.mp split
  obtain ⟨frontToo, markToo, furtherFront⟩ := exists_trimStart_of_words further mark
  have visible : trimStart front ≠ [] := by
    intro nothing
    rw [nothing] at known
    cases known
  obtain ⟨taken, dropped⟩ := keyword_of_words furtherFront visible
  exact ⟨_, split?_eq_some_iff.mpr ⟨frontToo, markToo, rfl,
    fun newline => whole (behind_keyword_subset markToo newline), by rw [taken, known]⟩, dropped⟩

theorem isDirective_of_words (directive : isDirective cs) (whole : '\n' ∉ ds) :
    isDirective ds := by
  obtain ⟨⟨keyword, rest⟩, split⟩ := Option.isSome_iff_exists.mp directive
  obtain ⟨restToo, splitToo, -⟩ := exists_split? further split whole
  rw [isDirective, splitToo]
  rfl

end Further

/-- A directive without quotes is read off its words. -/
theorem ofLine_of_words {cs ds : List Char} (directive : isDirective cs)
    (quoteless : Quoteless cs) (same : words ds = words cs) (whole : '\n' ∉ ds) :
    ofLine ds = ofLine cs := by
  obtain ⟨⟨keyword, rest⟩, split⟩ := Option.isSome_iff_exists.mp directive
  obtain ⟨restToo, splitToo, behind⟩ := exists_split? (by rw [same, List.append_nil]) split whole
  rw [List.append_nil] at behind
  have inside : Quoteless rest := by
    obtain ⟨front, mark, rfl, -⟩ := split?_eq_some_iff.mp split
    exact fun c member => quoteless c (behind_keyword_subset mark member)
  rw [ofLine, ofLine, split, splitToo]
  simp only
  rw [Keyword.read_of_words inside behind.symm]

end Directive

end Variability
