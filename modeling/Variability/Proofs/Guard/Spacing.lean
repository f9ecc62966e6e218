import Variability.Guard
import Variability.Proofs.Guard.Rendering

/-!
Tokens written with gaps between them. White space and comments may stand before, between and
behind the tokens of a boolean expression; nothing but two words in a row needs them, and the
tokens that are read are the same whatever they are.
-/

namespace Variability.Guard

open Text (isBlank)
open Token

/-- What may stand between two tokens: white space and block comments. -/
inductive Gap : List Char → Prop where
  | nothing : Gap []
  | blank {c : Char} {cs : List Char} (blank : isBlank c) (rest : Gap cs) : Gap (c :: cs)
  | comment {body cs : List Char} (closed : ¬ ['*', '/'] <:+: body) (rest : Gap cs) :
      Gap ('/' :: '*' :: (body ++ '*' :: '/' :: cs))

namespace Token

def isWord : Token → Bool
  | identifier _ | number _ => true
  | _ => false

end Token

/-- The texts that tokens are written as. Words do not touch each other. A guard is one line, so a
line comment reaches to its end. -/
inductive Spaced : List Token → List Char → Prop where
  | ending {gap : List Char} (space : Gap gap) : Spaced [] gap
  | remark {gap : List Char} (space : Gap gap) (remark : List Char) :
      Spaced [] (gap ++ '/' :: '/' :: remark)
  | token {t : Token} {ts : List Token} {gap cs : List Char} (space : Gap gap)
      (apart : t.isWord → ∀ c ∈ cs.head?, isNameChar c = false) (rest : Spaced ts cs) :
      Spaced (t :: ts) (gap ++ (t.text ++ cs))

/-- The tokens of boolean expressions. -/
inductive Ordinary : Token → Prop where
  | identifier {name : List Char} (identifier : isIdentifier name) : Ordinary (.identifier name)
  | number {c : Char} {cs : List Char} (digit : c.isDigit) (rest : ∀ d ∈ cs, isNameChar d) :
      Ordinary (.number (c :: cs))
  | leftParen : Ordinary .leftParen
  | rightParen : Ordinary .rightParen
  | negation : Ordinary .negation
  | conjunction : Ordinary .conjunction
  | disjunction : Ordinary .disjunction

/-! Comments and gaps are taken out. -/

theorem stripComments_cons {c : Char} (noSlash : c ≠ '/') (cs : List Char) :
    stripComments false (c :: cs) = c :: stripComments false cs := by
  rw [stripComments]
  · exact fun _ slash => absurd slash noSlash
  · exact fun _ slash => absurd slash noSlash

theorem stripComments_append {text : List Char} (noSlash : '/' ∉ text) (cs : List Char) :
    stripComments false (text ++ cs) = text ++ stripComments false cs := by
  induction text with
  | nil => rfl
  | cons c text ih =>
      rw [List.mem_cons, not_or] at noSlash
      rw [List.cons_append, stripComments_cons (Ne.symm noSlash.1), ih noSlash.2, List.cons_append]

theorem stripComments_comment {body : List Char} (closed : ¬ ['*', '/'] <:+: body)
    (cs : List Char) :
    stripComments true (body ++ '*' :: '/' :: cs) = stripComments false cs := by
  induction body with
  | nil => rfl
  | cons c body ih =>
      rw [List.infix_cons_iff, not_or] at closed
      rw [List.cons_append, stripComments, ih closed.2]
      rintro rest rfl behind
      cases body with
      | nil => cases behind
      | cons d body =>
          obtain ⟨rfl, -⟩ := List.cons.inj behind
          exact closed.1 ⟨body, rfl⟩

theorem scan_stripComments_gap {gap : List Char} (space : Gap gap) (cs : List Char) :
    scan (stripComments false (gap ++ cs)) = scan (stripComments false cs) := by
  induction space with
  | nothing => rfl
  | @blank c gap blank _ ih =>
      have noSlash : c ≠ '/' := by
        rintro rfl
        cases blank
      rw [List.cons_append, stripComments_cons noSlash, scan_blank blank, ih]
  | @comment body gap closed _ ih =>
      have opened : '/' :: '*' :: (body ++ '*' :: '/' :: gap) ++ cs =
        '/' :: '*' :: (body ++ '*' :: '/' :: (gap ++ cs)) := by simp
      rw [opened, stripComments, stripComments_comment closed, scan_blank (by decide), ih]

theorem head?_stripComments {cs : List Char} {c : Char}
    (first : c ∈ (stripComments false cs).head?) : c = ' ' ∨ c ∈ cs.head? := by
  unfold stripComments at first
  split at first
  · cases first
  · cases first
  · exact .inl (Option.some.inj first).symm
  · exact .inr first
  · contradiction
  · contradiction

/-! Ordinary tokens between gaps. -/

/-- Characters that would turn the end of an ordinary token into something else. -/
def disturbers : List Char := ['.', '=']

theorem Gap.head?_not_mem {gap : List Char} (space : Gap gap) :
    ∀ c ∈ gap.head?, c ∉ disturbers := by
  intro c first member
  cases space with
  | nothing => cases first
  | blank blank =>
      obtain rfl := Option.some.inj first
      rcases List.mem_pair.mp member with rfl | rfl <;> cases blank
  | comment =>
      obtain rfl := Option.some.inj first
      exact absurd member (by decide)

namespace Ordinary

variable {t : Token} (ordinary : Ordinary t)
include ordinary

theorem whole : Whole t := by
  cases ordinary with
  | identifier identifier => exact .of_isIdentifier identifier
  | number digit rest =>
      refine .number digit fun d member => ?_
      have inside := rest d member
      simp only [isNameChar, Bool.or_eq_true] at inside
      simpa [isNumberChar, or_right_comm] using Or.inl inside
  | leftParen => exact .symbol (c := '(') (by decide)
  | rightParen => exact .symbol (c := ')') (by decide)
  | negation => exact .symbol (c := '!') (by decide)
  | conjunction => exact .pair (c := '&') (d := '&') rfl
  | disjunction => exact .pair (c := '|') (d := '|') rfl

theorem not_mem_text {c : Char} (noName : isNameChar c = false)
    (noSymbol : c ∉ ['(', ')', '!', '&', '|']) : c ∉ t.text := by
  cases ordinary with
  | @identifier name identifier =>
      cases name with
      | nil => simp [text]
      | cons d ds =>
          rw [isIdentifier, Bool.and_eq_true, List.all_eq_true] at identifier
          intro member
          rcases List.mem_cons.mp member with rfl | later
          · exact Bool.false_ne_true (noName.symm.trans (isNameChar_of_isNameStart identifier.1))
          · exact Bool.false_ne_true (noName.symm.trans (identifier.2 c later))
  | number digit rest =>
      intro member
      rcases List.mem_cons.mp member with rfl | later
      · simp [isNameChar, Char.isAlphanum, digit] at noName
      · exact Bool.false_ne_true (noName.symm.trans (rest c later))
  | leftParen | rightParen | negation | conjunction | disjunction =>
      simp only [List.mem_cons, List.not_mem_nil, or_false, not_or] at noSymbol
      simp [text, noSymbol]

theorem not_mem_text_of_mem_disturbers {c : Char} (disturbs : c ∈ disturbers) : c ∉ t.text := by
  rcases List.mem_pair.mp disturbs with rfl | rfl
  · exact ordinary.not_mem_text (by decide) (by decide)
  · exact ordinary.not_mem_text (by decide) (by decide)

theorem goesOn_eq_false {c : Char} (apart : t.isWord → isNameChar c = false)
    (calm : c ∉ disturbers) : t.goesOn c = false := by
  cases ordinary with
  | identifier => exact apart rfl
  | number =>
      have noName := apart rfl
      have noDot : c ≠ '.' := by
        rintro rfl
        exact calm (by decide)
      simp only [isNameChar, Bool.or_eq_false_iff] at noName
      simp [goesOn, isNumberChar, noName, noDot]
  | negation =>
      have noEquals : c ≠ '=' := by
        rintro rfl
        exact calm (by decide)
      simp [goesOn, noEquals]
  | leftParen | rightParen | conjunction | disjunction => rfl

end Ordinary

namespace Spaced

variable {ts : List Token} {cs : List Char}

theorem head?_not_mem (spaced : Spaced ts cs) (ordinary : ∀ t ∈ ts, Ordinary t) :
    ∀ c ∈ cs.head?, c ∉ disturbers := by
  intro c first
  cases spaced with
  | ending space => exact space.head?_not_mem c first
  | remark space remark =>
      rw [List.head?_append, Option.mem_def, Option.or_eq_some_iff] at first
      rcases first with first | ⟨-, first⟩
      · exact space.head?_not_mem c first
      · obtain rfl := Option.some.inj first
        decide
  | @token t ts gap cs space apart rest =>
      have plain := ordinary t (by simp)
      rw [List.head?_append, Option.mem_def, Option.or_eq_some_iff] at first
      rcases first with first | ⟨-, first⟩
      · exact space.head?_not_mem c first
      · rw [List.head?_append_of_ne_nil _ plain.whole.text_ne_nil] at first
        exact fun disturbs =>
          plain.not_mem_text_of_mem_disturbers disturbs (List.mem_of_mem_head? first)

theorem tokens_eq (spaced : Spaced ts cs) (ordinary : ∀ t ∈ ts, Ordinary t) : tokens cs = ts := by
  unfold tokens
  induction spaced with
  | @ending gap space =>
      have nothing := scan_stripComments_gap space []
      rwa [List.append_nil, stripComments, scan] at nothing
  | remark space remark =>
      rw [scan_stripComments_gap space, stripComments, scan]
  | @token t ts gap cs space apart rest ih =>
      have plain := ordinary t (by simp)
      have others : ∀ u ∈ ts, Ordinary u := fun u member => ordinary u (by simp [member])
      have noSlash := plain.not_mem_text (c := '/') (by decide) (by decide)
      rw [scan_stripComments_gap space, stripComments_append noSlash,
        plain.whole.scan_append ?_, ih others]
      intro c first
      rcases head?_stripComments first with rfl | first
      · exact goesOn_blank t
      · exact plain.goesOn_eq_false (fun word => apart word c first)
          (rest.head?_not_mem others c first)

end Spaced

end Variability.Guard
