import Variability.Directive
import Variability.Proofs.Guard.Rendering

/-!
Guards read off their normal form again. The normal form of a guard has the tokens of the guard
itself, so it is read as the same formula. It can still be read without a carriage return at its
end, because that belongs to quoted text at most, and reading a guard never fails on account of
what is quoted.
-/

namespace Variability

namespace Guard

open Text (isBlank dropReturn)

open Token

theorem mem_stripComments {inside : Bool} {cs : List Char} {c : Char}
    (member : c ∈ stripComments inside cs) : c = ' ' ∨ c ∈ cs := by
  fun_induction stripComments inside cs <;> simp_all <;> tauto

theorem mem_render {ts : List Token} {c : Char} (member : c ∈ render ts) :
    c = ' ' ∨ ∃ t ∈ ts, c ∈ t.text := by
  fun_induction render ts with
  | case1 => cases member
  | case2 t => exact .inr ⟨t, by simp, member⟩
  | case3 t u ts ih =>
      rw [List.append_assoc, List.mem_append, List.mem_append] at member
      rcases member with first | blank | later
      · exact .inr ⟨t, by simp, first⟩
      · split at blank
        · cases blank
        · exact .inl (List.mem_singleton.mp blank)
      · rcases ih later with blank | ⟨v, listed, inside⟩
        · exact .inl blank
        · exact .inr ⟨v, by simp [listed], inside⟩

/-- Tokens of text that comments are taken out of. -/
structure Spelled (ts : List Token) : Prop where
  scanned : Scanned ts
  commentless : ∀ t ∈ ts, Commentless t.text

namespace Spelled

variable {ts : List Token} (spelled : Spelled ts)
include spelled

theorem commentless_render : Commentless (render ts) :=
  Token.commentless_render spelled.scanned.text_ne_nil spelled.commentless

theorem tokens_render : tokens (render ts) = ts := by
  rw [tokens, stripComments_eq_self spelled.commentless_render, scan_render spelled.scanned]

theorem parse_render {f : Formula} (parsed : parseTokens ts = .ok f) :
    Guard.parse (render ts) = .ok ⟨String.ofList (render ts), f⟩ := by
  rw [Guard.parse, spelled.tokens_render, parsed]

end Spelled

theorem spelled_tokens (cs : List Char) : Spelled (tokens cs) where
  scanned := scanned_scan _
  commentless := by
    intro t member
    obtain ⟨before, after, split⟩ := text_infix_of_mem_scan member
    have whole := commentless_stripComments false cs
    rw [← split] at whole
    exact whole.left_of_append.right_of_append

/-- A guard is read off its label again. -/
theorem parse_label_of_parse {cs : List Char} {g : Guard} (parsed : Guard.parse cs = .ok g) :
    Guard.parse g.label.toList = .ok g := by
  rw [Guard.parse] at parsed
  split at parsed
  · cases parsed
  · next f readAs =>
    cases parsed
    rw [String.toList_ofList, (spelled_tokens cs).parse_render readAs]

/-- Tokens of one line that comments are taken out of. -/
structure Inline (ts : List Token) : Prop where
  scanned : Scanned ts
  commentless : ∀ t ∈ ts, Commentless t.text
  line : ∀ t ∈ ts, '\n' ∉ t.text

namespace Inline

variable {ts : List Token} (inline : Inline ts)
include inline

theorem spelled : Spelled ts :=
  ⟨inline.scanned, inline.commentless⟩

theorem newline_not_mem_render : '\n' ∉ render ts := by
  intro newline
  rcases mem_render newline with blank | ⟨t, listed, inside⟩
  · cases blank
  · exact inline.line t listed inside

theorem render_ne_nil {f : Formula} (parsed : parseTokens ts = .ok f) : render ts ≠ [] := by
  cases ts with
  | nil => cases parsed
  | cons t ts =>
      have written := inline.scanned.text_ne_nil t (by simp)
      have begins := head?_render written ts
      intro nothing
      rw [nothing, List.head?_nil, eq_comm, List.head?_eq_none_iff] at begins
      exact written begins

end Inline

theorem inline_tokens {cs : List Char} (line : '\n' ∉ cs) : Inline (tokens cs) where
  scanned := (spelled_tokens cs).scanned
  commentless := (spelled_tokens cs).commentless
  line := by
    intro t member newline
    rcases mem_stripComments ((text_infix_of_mem_scan member).subset newline) with blank | inside
    · cases blank
    · exact line inside

/-- A guard whose label is one line and is read as the guard itself. -/
structure Normal (g : Guard) : Prop where
  line : '\n' ∉ g.label.toList
  commentless : Commentless g.label.toList
  written : g.label ≠ ""
  parse : Guard.parse g.label.toList = .ok g

theorem Inline.normal {ts : List Token} (inline : Inline ts) {f : Formula}
    (parsed : parseTokens ts = .ok f) : Normal ⟨String.ofList (render ts), f⟩ where
  line := by simpa using inline.newline_not_mem_render
  commentless := by simpa using inline.spelled.commentless_render
  written := by simpa using inline.render_ne_nil parsed
  parse := by rw [String.toList_ofList, inline.spelled.parse_render parsed]

theorem normal_of_parse {cs : List Char} (line : '\n' ∉ cs) {g : Guard}
    (parsed : Guard.parse cs = .ok g) : Normal g := by
  rw [Guard.parse] at parsed
  split at parsed
  · cases parsed
  · next readAs =>
    cases parsed
    exact (inline_tokens line).normal readAs

theorem ne_nil_of_parse {cs : List Char} {g : Guard} (parsed : Guard.parse cs = .ok g) :
    cs ≠ [] := by
  rintro rfl
  simp [Guard.parse, tokens, parseTokens, stripComments, scan] at parsed

/-- The tokens of `defined(X)`. -/
def definedTokens (name : List Char) : List Token :=
  [.identifier "defined".toList, .leftParen, .identifier name, .rightParen]

theorem render_definedTokens (name : List Char) :
    render (definedTokens name) = "defined(".toList ++ name ++ [')'] := by
  simp [definedTokens, render, glued, text]

theorem commentless_of_not_mem {cs : List Char} (absent : '/' ∉ cs) : Commentless cs := by
  induction cs with
  | nil => exact .nil
  | cons c cs ih =>
      rw [List.mem_cons, not_or] at absent
      exact (ih absent.2).cons fun d _ slash => absurd slash.symm absent.1

theorem not_mem_of_isIdentifier {name : List Char} (identifier : isIdentifier name) {c : Char}
    (other : isNumberChar c = false) : c ∉ name := by
  intro member
  cases name with
  | nil => cases member
  | cons d ds =>
      rw [isIdentifier, Bool.and_eq_true, List.all_eq_true] at identifier
      simp only [isNumberChar, Char.isAlphanum, Bool.or_eq_false_iff] at other
      rcases List.mem_cons.mp member with rfl | later
      · have start := identifier.1
        simp [isNameStart, other] at start
      · have inside := identifier.2 c later
        simp [isNameChar, Char.isAlphanum, other] at inside

theorem inline_definedTokens {name : List Char} (identifier : isIdentifier name) :
    Inline (definedTokens name) := by
  have texts {c : Char} (other : isNumberChar c = false) (plain : c ∉ ['(', ')']) :
      ∀ t ∈ definedTokens name, c ∉ t.text := by
    have keyword : c ∉ "defined".toList := not_mem_of_isIdentifier (by decide) other
    have absent : c ∉ name := not_mem_of_isIdentifier identifier other
    simp only [List.mem_cons, List.not_mem_nil, or_false, not_or] at plain
    intro t member
    simp only [definedTokens, List.mem_cons, List.not_mem_nil, or_false] at member
    rcases member with rfl | rfl | rfl | rfl
    · exact keyword
    · simp [text, plain.1]
    · exact absent
    · simp [text, plain.2]
  refine ⟨?_, fun t member => ?_, texts (by decide) (by decide)⟩
  · have opening : Whole (ofChar '(') := .symbol (by decide)
    have closing : Whole (ofChar ')') := .symbol (by decide)
    exact .cons (.of_isIdentifier (by decide)) <| .cons opening <|
      .cons (.of_isIdentifier identifier) <| .cons closing .nil
  · exact commentless_of_not_mem (texts (by decide) (by decide) t member)

theorem Inline.negated {ts : List Token} (inline : Inline ts) : Inline (.negation :: ts) := by
  have denied : Whole (ofChar '!') := .symbol (by decide)
  refine ⟨.cons denied inline.scanned, ?_, ?_⟩
  · simpa [text, commentless_of_not_mem] using inline.commentless
  · simpa [text] using inline.line

theorem normal_of_macroGuard {defined : Bool} {rest : List Char} {g : Guard}
    (asked : Directive.macroGuard defined rest = .ok g) : Normal g := by
  rw [Directive.macroGuard] at asked
  generalize (Text.words (stripComments false rest)).headD [] = name at asked
  simp only at asked
  split at asked
  · next identifier =>
    have inline := inline_definedTokens identifier
    rw [← render_definedTokens] at asked
    cases defined with
    | true =>
        cases asked
        exact inline.normal rfl
    | false =>
        cases asked
        exact inline.negated.normal rfl
  · cases asked

/-! Tokens that differ in what is quoted at most. -/

inductive Alike : Token → Token → Prop where
  | same (t : Token) : Alike t t
  | other (text textToo : List Char) : Alike (.other text) (.other textToo)

/-- Both readings fail, or neither does and what they leave is alike. -/
inductive Agree {α : Type} : Parsed α → Parsed α → Prop where
  | error (e e' : GuardError) : Agree (.error e) (.error e')
  | ok (a a' : α) {rest rest' : List Token} (alike : List.Forall₂ Alike rest rest') :
      Agree (.ok (a, rest)) (.ok (a', rest'))

variable {ts us : List Token}

theorem alike_refl (ts : List Token) : List.Forall₂ Alike ts ts :=
  List.forall₂_same.mpr fun t _ => .same t

theorem splitOperand?_alike (alike : List.Forall₂ Alike ts us) (depth : Nat) :
    Option.Rel (fun split split' => List.Forall₂ Alike split.2 split'.2)
      (splitOperand? depth ts) (splitOperand? depth us) := by
  induction alike generalizing depth with
  | nil =>
      cases depth with
      | zero => exact .some .nil
      | succ depth => exact .none
  | @cons t u ts us first rest ih =>
      have goOn (depth : Nat) : Option.Rel (fun split split' => List.Forall₂ Alike split.2 split'.2)
          ((splitOperand? depth ts).map fun split => (t :: split.1, split.2))
          ((splitOperand? depth us).map fun split => (u :: split.1, split.2)) := by
        have split := ih depth
        generalize splitOperand? depth ts = first at split
        generalize splitOperand? depth us = second at split
        cases split with
        | none => exact .none
        | some alike => exact .some alike
      cases first with
      | other => cases depth <;> exact goOn _
      | same =>
          cases t with
          | leftParen => cases depth <;> exact goOn _
          | identifier | number | negation | other => cases depth <;> exact goOn _
          | rightParen | conjunction | disjunction =>
              cases depth with
              | zero => exact .some (.cons (.same _) rest)
              | succ depth => exact goOn _

theorem parseAtom_alike (alike : List.Forall₂ Alike ts us) :
    Agree (parseAtom ts) (parseAtom us) := by
  have split := splitOperand?_alike alike 0
  unfold parseAtom
  generalize splitOperand? 0 ts = first at split
  generalize splitOperand? 0 us = second at split
  cases split with
  | none => exact .error _ _
  | some rest => exact .ok _ _ rest

theorem orAtom_alike (alike : List.Forall₂ Alike ts us) {f g : Formula} {rest rest' : List Token}
    (behind : List.Forall₂ Alike rest rest') :
    Agree (orAtom ts (f, rest)) (orAtom us (g, rest')) := by
  cases behind with
  | nil => exact .ok _ _ .nil
  | @cons t _ _ _ first more =>
      cases first with
      | other => exact parseAtom_alike alike
      | same =>
          cases t with
          | other => exact parseAtom_alike alike
          | _ => exact .ok _ _ (.cons (.same _) more)

theorem parseDefined_alike (alike : List.Forall₂ Alike ts us) :
    Agree (parseDefined ts) (parseDefined us) := by
  cases alike with
  | nil => exact .error _ _
  | @cons t _ _ _ first more =>
      cases first with
      | other => exact .error _ _
      | same =>
          cases t with
          | leftParen =>
              cases more with
              | nil => exact .error _ _
              | @cons u _ _ _ second more =>
                  cases second with
                  | other => exact .error _ _
                  | same =>
                      cases u with
                      | identifier name =>
                          cases more with
                          | nil => exact .error _ _
                          | @cons v _ _ _ third more =>
                              cases third with
                              | other => exact .error _ _
                              | same =>
                                  cases v with
                                  | rightParen => exact .ok _ _ more
                                  | _ => exact .error _ _
                      | _ => exact .error _ _
          | identifier name => exact .ok _ _ more
          | _ => exact .error _ _

section Step

variable {fuel : Nat}

theorem parseDisjuncts_alike
    (conjuncts : Agree (parseConjuncts fuel ts) (parseConjuncts fuel us))
    (disjuncts : ∀ {ts us}, List.Forall₂ Alike ts us →
      Agree (parseDisjuncts fuel ts) (parseDisjuncts fuel us)) :
    Agree (parseDisjuncts (fuel + 1) ts) (parseDisjuncts (fuel + 1) us) := by
  unfold parseDisjuncts
  generalize parseConjuncts fuel ts = read at conjuncts
  generalize parseConjuncts fuel us = readToo at conjuncts
  cases conjuncts with
  | error => exact .error _ _
  | ok fs gs rest =>
      cases rest with
      | nil => exact .ok _ _ .nil
      | @cons t _ vs ws first more =>
          cases first with
          | other => exact .ok _ _ (.cons (.other _ _) more)
          | same =>
              cases t with
              | disjunction =>
                  have behind := disjuncts more
                  simp only
                  generalize parseDisjuncts fuel vs = next at behind
                  generalize parseDisjuncts fuel ws = nextToo at behind
                  cases behind with
                  | error => exact .error _ _
                  | ok _ _ last => exact .ok _ _ last
              | _ => exact .ok _ _ (.cons (.same _) more)

theorem parseConjuncts_alike (unary : Agree (parseUnary fuel ts) (parseUnary fuel us))
    (conjuncts : ∀ {ts us}, List.Forall₂ Alike ts us →
      Agree (parseConjuncts fuel ts) (parseConjuncts fuel us)) :
    Agree (parseConjuncts (fuel + 1) ts) (parseConjuncts (fuel + 1) us) := by
  unfold parseConjuncts
  generalize parseUnary fuel ts = read at unary
  generalize parseUnary fuel us = readToo at unary
  cases unary with
  | error => exact .error _ _
  | ok f g rest =>
      cases rest with
      | nil => exact .ok _ _ .nil
      | @cons t _ vs ws first more =>
          cases first with
          | other => exact .ok _ _ (.cons (.other _ _) more)
          | same =>
              cases t with
              | conjunction =>
                  have behind := conjuncts more
                  simp only
                  generalize parseConjuncts fuel vs = next at behind
                  generalize parseConjuncts fuel ws = nextToo at behind
                  cases behind with
                  | error => exact .error _ _
                  | ok _ _ last => exact .ok _ _ last
              | _ => exact .ok _ _ (.cons (.same _) more)

theorem parseUnary_alike (alike : List.Forall₂ Alike ts us)
    (unary : ∀ {ts us}, List.Forall₂ Alike ts us →
      Agree (parseUnary fuel ts) (parseUnary fuel us))
    (primary : Agree (parsePrimary fuel ts) (parsePrimary fuel us)) :
    Agree (parseUnary (fuel + 1) ts) (parseUnary (fuel + 1) us) := by
  cases alike with
  | nil => exact primary
  | @cons t _ vs ws first more =>
      cases first with
      | other => exact primary
      | same =>
          cases t with
          | negation =>
              have behind := unary more
              unfold parseUnary
              generalize parseUnary fuel vs = next at behind
              generalize parseUnary fuel ws = nextToo at behind
              cases behind with
              | error => exact .error _ _
              | ok _ _ last => exact .ok _ _ last
          | _ => exact primary

theorem parsePrimary_alike (alike : List.Forall₂ Alike ts us)
    (disjuncts : ∀ {ts us}, List.Forall₂ Alike ts us →
      Agree (parseDisjuncts fuel ts) (parseDisjuncts fuel us)) :
    Agree (parsePrimary (fuel + 1) ts) (parsePrimary (fuel + 1) us) := by
  cases alike with
  | nil => exact .error _ _
  | @cons t _ vs ws first more =>
      have whole := List.Forall₂.cons first more
      cases first with
      | other => exact parseAtom_alike whole
      | same =>
          unfold parsePrimary
          cases t with
          | leftParen =>
              have inside := disjuncts more
              simp only
              generalize parseDisjuncts fuel vs = read at inside
              generalize parseDisjuncts fuel ws = readToo at inside
              cases inside with
              | error => exact .error _ _
              | ok fs gs rest =>
                  cases rest with
                  | nil => exact .error _ _
                  | @cons u _ _ _ second last =>
                      cases second with
                      | other => exact .error _ _
                      | same =>
                          cases u with
                          | rightParen => exact orAtom_alike whole last
                          | _ => exact .error _ _
          | identifier name =>
              simp only
              split
              · have asked := parseDefined_alike more
                generalize parseDefined vs = read at asked
                generalize parseDefined ws = readToo at asked
                cases asked with
                | error => exact .error _ _
                | ok _ _ last => exact orAtom_alike whole last
              · cases more with
                | nil => exact orAtom_alike whole .nil
                | @cons u _ _ _ second last =>
                    cases second with
                    | other => exact orAtom_alike whole (.cons (.other _ _) last)
                    | same =>
                        cases u with
                        | leftParen => exact parseAtom_alike whole
                        | _ => exact orAtom_alike whole (.cons (.same _) last)
          | number literal =>
              simp only
              cases integerValue? literal with
              | none => exact parseAtom_alike whole
              | some value => exact orAtom_alike whole more
          | other => exact parseAtom_alike whole
          | _ => exact .error _ _

end Step

/-- Reading tokens succeeds whatever is quoted in them. -/
theorem parse_alike (fuel : Nat) :
    (∀ {ts us}, List.Forall₂ Alike ts us →
        Agree (parseDisjuncts fuel ts) (parseDisjuncts fuel us)) ∧
      (∀ {ts us}, List.Forall₂ Alike ts us →
        Agree (parseConjuncts fuel ts) (parseConjuncts fuel us)) ∧
      (∀ {ts us}, List.Forall₂ Alike ts us → Agree (parseUnary fuel ts) (parseUnary fuel us)) ∧
      (∀ {ts us}, List.Forall₂ Alike ts us →
        Agree (parsePrimary fuel ts) (parsePrimary fuel us)) := by
  induction fuel with
  | zero =>
      exact ⟨fun _ => .error _ _, fun _ => .error _ _, fun _ => .error _ _, fun _ => .error _ _⟩
  | succ fuel ih =>
      obtain ⟨disjuncts, conjuncts, unary, primary⟩ := ih
      exact ⟨fun alike => parseDisjuncts_alike (conjuncts alike) disjuncts,
        fun alike => parseConjuncts_alike (unary alike) conjuncts,
        fun alike => parseUnary_alike alike unary (primary alike),
        fun alike => parsePrimary_alike alike disjuncts⟩

theorem exists_parseTokens_of_alike (alike : List.Forall₂ Alike ts us) {f : Formula}
    (parsed : parseTokens ts = .ok f) : ∃ g, parseTokens us = .ok g := by
  have sameLength := alike.length_eq
  have read := (parse_alike (4 * ts.length + 4)).1 alike
  cases alike with
  | nil => cases parsed
  | cons first rest =>
      unfold parseTokens at parsed ⊢
      rw [List.isEmpty_cons, if_neg Bool.false_ne_true] at parsed ⊢
      rw [← sameLength]
      generalize parseDisjuncts _ _ = left at read parsed
      generalize parseDisjuncts _ _ = right at read
      cases read with
      | error => cases parsed
      | ok fs gs last =>
          cases last with
          | nil => exact ⟨_, rfl⟩
          | cons => split at parsed <;> simp_all

/-! A blank at the end of the text. -/

theorem isBlank_eq_false_of_isNumberChar {c : Char} (inside : isNumberChar c) :
    isBlank c = false := by
  simp only [isNumberChar, Char.isAlphanum, Bool.or_eq_true, beq_iff_eq] at inside
  rcases inside with ((alpha | digit) | rfl) | rfl
  · exact isBlank_eq_false_of_isNameStart (by simp [isNameStart, alpha])
  · exact Text.isBlank_eq_false_of_isDigit digit
  · rfl
  · rfl

theorem scan_quote_append_blank {b c : Char} (blank : isBlank b) (quote : isQuote c)
    {cs : List Char}
    (behind : List.Forall₂ Alike (scan ((quoted c cs).2 ++ [b])) (scan (quoted c cs).2)) :
    List.Forall₂ Alike (scan (c :: (cs ++ [b]))) (scan (c :: cs)) := by
  rw [scan_quote quote, scan_quote quote]
  rcases quoted_cases c cs with closed | ⟨all, further⟩
  · have split : quoted c (cs ++ [b]) = ((quoted c cs).1, (quoted c cs).2 ++ [b]) := by
      rw [← closed, ← List.append_assoc, quoted_append]
    rw [split]
    exact .cons (.same _) behind
  · have other : b ≠ c := by
      rintro rfl
      rw [isBlank_eq_false_of_isQuote quote] at blank
      cases blank
    have plain : b ≠ '\\' := by
      rintro rfl
      cases blank
    rw [further b other plain, all]
    exact .cons (.other _ _) (alike_refl _)

theorem scan_append_blank {b : Char} (blank : isBlank b) (cs : List Char) :
    List.Forall₂ Alike (scan (cs ++ [b])) (scan cs) := by
  have noWord : isNumberChar b = false := by
    rw [Bool.eq_false_iff]
    intro inside
    rw [isBlank_eq_false_of_isNumberChar inside] at blank
    cases blank
  have noNumber : ∀ c ∈ [b].head?, isNumberChar c = false := by simpa using noWord
  have noName : ∀ c ∈ [b].head?, isNameChar c = false := by
    simpa using isNameChar_eq_false noWord
  have noPair (c : Char) : ofPair? c b = none := by
    rw [Option.eq_none_iff_forall_ne_some]
    intro t pair
    have second := mem_of_ofPair? pair
    simp only [List.mem_cons, List.not_mem_nil, or_false] at second
    rcases second with rfl | rfl | rfl | rfl | rfl <;> cases blank
  have nothing : scan [b] = [] := by rw [scan_blank blank, scan]
  fun_induction scan cs with
  | case1 =>
      rw [List.nil_append, nothing]
      exact .nil
  | case2 c cs visible ih => rwa [List.cons_append, scan_blank visible]
  | case3 c cs _ start ih =>
      obtain ⟨taken, dropped⟩ := span_append noName cs
      rw [List.cons_append, scan_nameStart start, taken, dropped]
      exact .cons (.same _) ih
  | case4 c cs _ _ digit ih =>
      obtain ⟨taken, dropped⟩ := span_append noNumber cs
      rw [List.cons_append, scan_digit digit, taken, dropped]
      exact .cons (.same _) ih
  | case5 c cs _ _ _ quote ih =>
      have quote : isQuote c := quote
      rw [List.cons_append, ← scan_quote quote]
      exact scan_quote_append_blank blank quote ih
  | case6 c _ _ _ _ =>
      have symbol : isSymbol c := by simp_all [isSymbol, isQuote]
      rw [List.singleton_append, scan_symbol symbol (by simp [noPair]), nothing]
      exact alike_refl _
  | case7 c _ _ _ _ d ds t pair ih =>
      rw [List.cons_append, List.cons_append, scan_pair pair]
      exact .cons (.same _) ih
  | case8 c _ _ _ _ d ds alone ih =>
      have symbol : isSymbol c := by simp_all [isSymbol, isQuote]
      rw [List.cons_append, scan_symbol symbol (by simp [alone])]
      exact .cons (.same _) ih

theorem exists_parse_dropReturn {cs : List Char} (commentless : Commentless cs) {g : Guard}
    (parsed : Guard.parse cs = .ok g) : ∃ h, Guard.parse (dropReturn cs) = .ok h := by
  unfold dropReturn
  split
  · next last =>
    have split : cs = cs.dropLast ++ ['\r'] := by
      rw [List.dropLast_append_getLast? _ last]
    have kept : tokens cs = scan (cs.dropLast ++ ['\r']) := by
      rw [tokens, stripComments_eq_self commentless, ← split]
    have shorter : tokens cs.dropLast = scan cs.dropLast := by
      rw [tokens, stripComments_eq_self commentless.dropLast]
    have alike : List.Forall₂ Alike (tokens cs) (tokens cs.dropLast) := by
      rw [kept, shorter]
      exact scan_append_blank (by decide) _
    rw [Guard.parse] at parsed
    split at parsed
    · cases parsed
    · next f readAs =>
      obtain ⟨h, readToo⟩ := exists_parseTokens_of_alike alike readAs
      exact ⟨_, by rw [Guard.parse, readToo]⟩
  · exact ⟨g, parsed⟩

end Guard

end Variability
