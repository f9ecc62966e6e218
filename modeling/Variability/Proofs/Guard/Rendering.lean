import Mathlib.Data.List.Chain
import Mathlib.Data.List.TakeWhile
import Variability.Guard.Token
import Variability.Proofs.Text.Written

/-!
Normal forms are scanned as the tokens they were made of. Every token that scanning makes ends
where the next one, a blank or the end of the text begins; only quoted text that is never closed
takes in all that follows it, and nothing follows it.
-/

namespace Variability

theorem isNameStart_range {c : Char} (start : isNameStart c) :
    (65 ≤ c.toNat ∧ c.toNat ≤ 90) ∨ (97 ≤ c.toNat ∧ c.toNat ≤ 122) ∨ c = '_' := by
  rcases Bool.or_eq_true_iff.mp start with alpha | underscore
  · rcases Bool.or_eq_true_iff.mp alpha with upper | lower
    · exact .inl (of_decide_eq_true upper)
    · obtain ⟨low, high⟩ := Bool.and_eq_true_iff.mp lower
      exact .inr (.inl ⟨of_decide_eq_true low, of_decide_eq_true high⟩)
  · exact .inr (.inr (beq_iff_eq.mp underscore))

theorem isNameChar_of_isNameStart {c : Char} (start : isNameStart c) : isNameChar c := by
  simp only [isNameStart, Bool.or_eq_true] at start
  simpa [isNameChar, Char.isAlphanum, or_right_comm] using Or.inl start

theorem isBlank_eq_false_of_isNameStart {c : Char} (start : isNameStart c) :
    Text.isBlank c = false := by
  rcases isNameStart_range start with upper | lower | rfl
  · simp [Text.isBlank, Text.blankRanges]
    omega
  · simp [Text.isBlank, Text.blankRanges]
    omega
  · rfl

theorem isNameStart_eq_false_of_isDigit {c : Char} (digit : c.isDigit) : isNameStart c = false := by
  rw [Bool.eq_false_iff]
  intro start
  simp only [Char.isDigit, Bool.and_eq_true, decide_eq_true_eq] at digit
  have high : c.toNat ≤ 57 := digit.2
  rcases isNameStart_range start with upper | lower | rfl
  · omega
  · omega
  · exact absurd high (by decide)

namespace Guard

open Text (isBlank)

namespace Token

def isQuote (c : Char) : Bool :=
  c = '\'' || c = '"'

/-- Characters that are no part of a name, a number or quoted text. -/
def isSymbol (c : Char) : Bool :=
  !isBlank c && !isNameStart c && !c.isDigit && !isQuote c

theorem eq_of_isQuote {q : Char} (quote : isQuote q) : q = '\'' ∨ q = '"' := by
  simpa [isQuote] using quote

theorem isBlank_eq_false_of_isQuote {q : Char} (quote : isQuote q) : isBlank q = false := by
  rcases eq_of_isQuote quote with rfl | rfl <;> rfl

/-- The second character of a pair. -/
theorem mem_of_ofPair? {c d : Char} {t : Token} (pair : ofPair? c d = some t) :
    d ∈ ['&', '|', '=', '<', '>'] := by
  unfold ofPair? at pair
  split at pair <;> simp_all

theorem text_of_ofPair? {c d : Char} {t : Token} (pair : ofPair? c d = some t) :
    t.text = [c, d] := by
  unfold ofPair? at pair
  split at pair <;> cases pair <;> rfl

theorem isSymbol_of_ofPair? {c d : Char} {t : Token} (pair : ofPair? c d = some t) :
    isSymbol c := by
  unfold ofPair? at pair
  split at pair <;> cases pair <;> rfl

theorem text_ofChar (c : Char) : (ofChar c).text = [c] := by
  unfold ofChar
  split <;> rfl

/-! What scanning does at each kind of character. -/

theorem scan_blank {c : Char} (blank : isBlank c) (cs : List Char) :
    scan (c :: cs) = scan cs := by
  rw [scan.eq_def]
  simp [blank]

theorem scan_nameStart {c : Char} (start : isNameStart c) (cs : List Char) :
    scan (c :: cs) =
      identifier (c :: cs.takeWhile isNameChar) :: scan (cs.dropWhile isNameChar) := by
  rw [scan.eq_def]
  simp [isBlank_eq_false_of_isNameStart start, start]

theorem scan_digit {c : Char} (digit : c.isDigit) (cs : List Char) :
    scan (c :: cs) =
      number (c :: cs.takeWhile isNumberChar) :: scan (cs.dropWhile isNumberChar) := by
  rw [scan.eq_def]
  simp [Text.isBlank_eq_false_of_isDigit digit, isNameStart_eq_false_of_isDigit digit, digit]

theorem scan_quote {q : Char} (quote : isQuote q) (cs : List Char) :
    scan (q :: cs) = other (q :: (quoted q cs).1) :: scan (quoted q cs).2 := by
  rw [scan.eq_def]
  rcases eq_of_isQuote quote with rfl | rfl <;> rfl

theorem scan_symbol {c : Char} (symbol : isSymbol c) {cs : List Char}
    (alone : ∀ d ∈ cs.head?, ofPair? c d = none) : scan (c :: cs) = ofChar c :: scan cs := by
  simp only [isSymbol, isQuote, Bool.and_eq_true, Bool.not_eq_true'] at symbol
  obtain ⟨⟨⟨visible, noName⟩, noDigit⟩, noQuote⟩ := symbol
  rw [scan.eq_def]
  cases cs with
  | nil => simp_all [scan]
  | cons d ds => simp_all

theorem scan_pair {c d : Char} {t : Token} (pair : ofPair? c d = some t) (cs : List Char) :
    scan (c :: d :: cs) = t :: scan cs := by
  have symbol := isSymbol_of_ofPair? pair
  simp only [isSymbol, isQuote, Bool.and_eq_true, Bool.not_eq_true'] at symbol
  obtain ⟨⟨⟨visible, noName⟩, noDigit⟩, noQuote⟩ := symbol
  rw [scan.eq_def]
  simp_all

/-! Quoted text. -/

theorem quoted_cons {q c : Char} (plain : c ≠ '\\') (cs : List Char) :
    quoted q (c :: cs) =
      if c = q then ([c], cs) else (c :: (quoted q cs).1, (quoted q cs).2) := by
  rw [quoted.eq_def]
  split <;> simp_all

theorem quoted_append (q : Char) (cs : List Char) : (quoted q cs).1 ++ (quoted q cs).2 = cs := by
  fun_induction quoted q cs with
  | case1 | case2 | case4 => rfl
  | case3 c cs ih | case5 c cs _ _ _ ih => simp [ih]

/-- Quoted text is closed, whatever follows it, or takes in everything. -/
theorem quoted_cases (q : Char) (cs : List Char) :
    (∀ rest, quoted q ((quoted q cs).1 ++ rest) = ((quoted q cs).1, rest)) ∨
      (quoted q cs = (cs, []) ∧
        ∀ b, b ≠ q → b ≠ '\\' → quoted q (cs ++ [b]) = (cs ++ [b], [])) := by
  fun_induction quoted q cs with
  | case1 =>
      refine .inr ⟨rfl, fun b other plain => ?_⟩
      rw [List.nil_append, quoted_cons plain, if_neg other]
      rfl
  | case2 => exact .inr ⟨rfl, fun b _ _ => rfl⟩
  | case3 c cs ih =>
      rcases ih with closed | ⟨all, further⟩
      · refine .inl fun rest => ?_
        rw [List.cons_append, List.cons_append, quoted, closed]
      · refine .inr ⟨by rw [all], fun b other plain => ?_⟩
        rw [List.cons_append, List.cons_append, quoted, further b other plain]
  | case4 cs notLast notEscape =>
      have plain : q ≠ '\\' := by
        cases cs <;> simp_all
      refine .inl fun rest => ?_
      rw [List.singleton_append, quoted_cons plain, if_pos rfl]
  | case5 c cs notLast notEscape other ih =>
      have plain : c ≠ '\\' := by
        cases cs <;> simp_all
      rcases ih with closed | ⟨all, further⟩
      · refine .inl fun rest => ?_
        rw [List.cons_append, quoted_cons plain, if_neg other, closed]
      · refine .inr ⟨by rw [all], fun b otherToo plainToo => ?_⟩
        rw [List.cons_append, quoted_cons plain, if_neg other, further b otherToo plainToo]

/-! Tokens as scanning makes them. -/

/-- A token that ends where it ends, whatever follows. -/
inductive Whole : Token → Prop where
  | identifier {c : Char} {cs : List Char} (start : isNameStart c)
      (rest : ∀ d ∈ cs, isNameChar d) : Whole (.identifier (c :: cs))
  | number {c : Char} {cs : List Char} (digit : c.isDigit)
      (rest : ∀ d ∈ cs, isNumberChar d) : Whole (.number (c :: cs))
  | pair {c d : Char} {t : Token} (pair : ofPair? c d = some t) : Whole t
  | symbol {c : Char} (symbol : isSymbol c) : Whole (ofChar c)
  | quoted {q : Char} {body : List Char} (quote : isQuote q)
      (closed : ∀ rest, Token.quoted q (body ++ rest) = (body, rest)) : Whole (.other (q :: body))

theorem Whole.of_isIdentifier {name : List Char} (identifier : isIdentifier name) :
    Whole (.identifier name) := by
  cases name with
  | nil => cases identifier
  | cons c cs =>
      rw [isIdentifier, Bool.and_eq_true, List.all_eq_true] at identifier
      exact .identifier identifier.1 identifier.2

/-- Only the last token may be quoted text that is never closed. -/
inductive Scanned : List Token → Prop where
  | nil : Scanned []
  | unclosed {q : Char} {body : List Char} (quote : isQuote q)
      (all : quoted q body = (body, [])) : Scanned [.other (q :: body)]
  | cons {t : Token} {ts : List Token} (whole : Whole t) (rest : Scanned ts) : Scanned (t :: ts)

theorem scanned_scan (cs : List Char) : Scanned (scan cs) := by
  fun_induction scan cs with
  | case1 => exact .nil
  | case2 c cs blank ih => exact ih
  | case3 c cs visible start ih =>
      exact .cons (.identifier start fun d member => List.mem_takeWhile_imp member) ih
  | case4 c cs visible other digit ih =>
      exact .cons (.number digit fun d member => List.mem_takeWhile_imp member) ih
  | case5 c cs visible other otherToo quote ih =>
      have quote : isQuote c := by simpa [isQuote] using quote
      rcases quoted_cases c cs with closed | ⟨all, -⟩
      · exact .cons (.quoted quote closed) ih
      · rw [all, scan]
        exact .unclosed quote all
  | case6 c =>
      exact .cons (.symbol (by simp_all [isSymbol, isQuote])) .nil
  | case7 c _ _ _ _ d ds t pair ih => exact .cons (.pair pair) ih
  | case8 c _ _ _ _ d ds _ ih =>
      exact .cons (.symbol (by simp_all [isSymbol, isQuote])) ih

/-- The characters that a token would go on with. -/
def goesOn : Token → Char → Bool
  | identifier _, c => isNameChar c
  | number _, c => isNumberChar c
  | negation, c => c = '='
  | other [d], c => (ofPair? d c).isSome
  | _, _ => false

theorem goesOn_ofChar (c d : Char) : (ofChar c).goesOn d = (ofPair? c d).isSome := by
  unfold ofChar
  split
  · simp [goesOn, ofPair?]
  · simp [goesOn, ofPair?]
  · by_cases equals : d = '='
    · subst equals
      rfl
    · simp [goesOn, ofPair?, equals]
  · rfl

theorem span_append {test : Char → Bool} {rest : List Char}
    (stops : ∀ c ∈ rest.head?, test c = false) (cs : List Char) :
    (cs ++ rest).takeWhile test = cs.takeWhile test ∧
      (cs ++ rest).dropWhile test = cs.dropWhile test ++ rest := by
  induction cs with
  | nil => cases rest <;> simp_all
  | cons c cs ih =>
      by_cases inside : test c
      · simp [inside, ih]
      · simp [inside]

theorem takeWhile_append_of_stop {test : Char → Bool} {cs rest : List Char}
    (all : ∀ c ∈ cs, test c) (stops : ∀ c ∈ rest.head?, test c = false) :
    (cs ++ rest).takeWhile test = cs ∧ (cs ++ rest).dropWhile test = rest := by
  obtain ⟨taken, dropped⟩ := span_append stops cs
  rw [taken, dropped, List.takeWhile_eq_self_iff.mpr all, List.dropWhile_eq_nil_iff.mpr all,
    List.nil_append]
  exact ⟨rfl, rfl⟩

theorem Whole.scan_append {t : Token} (whole : Whole t) {rest : List Char}
    (stops : ∀ c ∈ rest.head?, t.goesOn c = false) :
    scan (t.text ++ rest) = t :: scan rest := by
  cases whole with
  | @identifier c cs start all =>
      obtain ⟨taken, dropped⟩ := takeWhile_append_of_stop all stops
      change scan (c :: (cs ++ rest)) = _
      rw [scan_nameStart start, taken, dropped]
  | @number c cs digit all =>
      obtain ⟨taken, dropped⟩ := takeWhile_append_of_stop all stops
      change scan (c :: (cs ++ rest)) = _
      rw [scan_digit digit, taken, dropped]
  | @pair c d _ pair =>
      rw [text_of_ofPair? pair]
      exact scan_pair pair rest
  | @symbol c symbol =>
      rw [text_ofChar]
      refine scan_symbol symbol fun d first => ?_
      have stop : (ofChar c).goesOn d = false := stops d first
      rwa [goesOn_ofChar, Option.isSome_eq_false_iff, Option.isNone_iff_eq_none] at stop
  | @quoted q body quote closed =>
      change scan (q :: (body ++ rest)) = _
      rw [scan_quote quote, closed]

/-! Rendered tokens. -/

theorem isNameChar_eq_false {c : Char} (noWord : isNumberChar c = false) :
    isNameChar c = false := by
  simp only [isNumberChar, Bool.or_eq_false_iff] at noWord
  simp [isNameChar, noWord.1.1, noWord.2]

theorem goesOn_eq_false {c : Char} (noWord : isNumberChar c = false)
    (noPair : c ∉ ['&', '|', '=', '<', '>']) (t : Token) : t.goesOn c = false := by
  have noName := isNameChar_eq_false noWord
  have alone (d : Char) : (ofPair? d c).isSome = false := by
    rw [Option.isSome_eq_false_iff, Option.isNone_iff_eq_none, Option.eq_none_iff_forall_ne_some]
    exact fun t pair => noPair (mem_of_ofPair? pair)
  unfold goesOn
  split
  · exact noName
  · exact noWord
  · simp_all
  · exact alone _
  · rfl

theorem goesOn_blank (t : Token) : t.goesOn ' ' = false :=
  goesOn_eq_false (by decide) (by decide) t

/-- The cases in which no blank stands between two tokens. -/
theorem glued_cases {t u : Token} (glue : glued t u) :
    t = leftParen ∨ u = rightParen ∨ u = other [','] ∨
      (t = negation ∧ ∀ text, u ≠ other text) ∨ (u = leftParen ∧ ∃ name, t = identifier name) := by
  unfold glued at glue
  split at glue <;> simp_all

theorem Whole.text_ne_nil {t : Token} (whole : Whole t) : t.text ≠ [] := by
  cases whole with
  | pair pair => simp [text_of_ofPair? pair]
  | symbol => simp [text_ofChar]
  | identifier | number | quoted => simp [text]

theorem Whole.head_ne_equals {t : Token} (whole : Whole t) (known : ∀ text, t ≠ other text) :
    t.text.head? ≠ some '=' := by
  intro equals
  cases whole with
  | identifier start =>
      cases Option.some.inj equals
      cases start
  | number digit =>
      cases Option.some.inj equals
      cases digit
  | pair pair =>
      rw [text_of_ofPair? pair] at equals
      cases Option.some.inj equals
      unfold ofPair? at pair
      split at pair <;> cases pair <;> simp_all
  | symbol =>
      rw [text_ofChar] at equals
      cases Option.some.inj equals
      exact known ['='] rfl
  | quoted => exact known _ rfl

theorem Scanned.text_ne_nil {ts : List Token} (scanned : Scanned ts) : ∀ t ∈ ts, t.text ≠ [] := by
  induction scanned with
  | nil => simp
  | unclosed => simp [text]
  | cons whole rest ih =>
      intro t member
      rcases List.mem_cons.mp member with rfl | later
      · exact whole.text_ne_nil
      · exact ih t later

theorem head?_render {t : Token} (written : t.text ≠ []) (ts : List Token) :
    (render (t :: ts)).head? = t.text.head? := by
  cases ts with
  | nil => rfl
  | cons u us =>
      rw [render, List.append_assoc, List.head?_append_of_ne_nil _ written]

/-- A token ends before one that stands next to it. -/
theorem stops_of_glued {t u : Token} {us : List Token} (scanned : Scanned (u :: us))
    (glue : glued t u) : ∀ c ∈ (render (u :: us)).head?, t.goesOn c = false := by
  intro c first
  rw [head?_render (scanned.text_ne_nil u (by simp))] at first
  rcases glued_cases glue with rfl | rfl | rfl | ⟨rfl, known⟩ | ⟨rfl, -⟩
  · rfl
  · cases Option.some.inj first
    exact goesOn_eq_false (by decide) (by decide) t
  · cases Option.some.inj first
    exact goesOn_eq_false (by decide) (by decide) t
  · have other : c ≠ '=' := by
      rintro rfl
      cases scanned with
      | unclosed => exact known _ rfl
      | cons whole => exact whole.head_ne_equals known first
    simp [goesOn, other]
  · cases Option.some.inj first
    exact goesOn_eq_false (by decide) (by decide) t

theorem scan_render {ts : List Token} (scanned : Scanned ts) : scan (render ts) = ts := by
  induction scanned with
  | nil => rw [render, scan]
  | @unclosed q body quote all =>
      rw [render, text, scan_quote quote, all, scan]
  | @cons t ts whole rest ih =>
      cases ts with
      | nil =>
          have alone : scan (t.text ++ []) = t :: scan [] := whole.scan_append (by simp)
          rwa [List.append_nil, scan] at alone
      | cons u us =>
          rw [render, List.append_assoc]
          split
          · next glue =>
            rw [List.nil_append, whole.scan_append (stops_of_glued rest glue), ih]
          · have stops : ∀ c ∈ (' ' :: render (u :: us)).head?, t.goesOn c = false := by
              rintro c ⟨⟩
              exact t.goesOn_blank
            rw [List.singleton_append, whole.scan_append stops, scan_blank (by decide), ih]

/-! Comments. Text without the start of a comment stays as it is when comments are taken out. -/

def Commentless (cs : List Char) : Prop :=
  cs.IsChain fun c d => c = '/' → d ≠ '/' ∧ d ≠ '*'

private theorem infix_of_step {t u : Token} {cs rest : List Char} (split : t.text ++ rest = cs)
    (later : u ∈ scan rest → u.text <:+: rest) (member : u ∈ t :: scan rest) :
    u.text <:+: cs := by
  subst split
  rcases List.mem_cons.mp member with rfl | behind
  · exact (List.prefix_append _ _).isInfix
  · exact (later behind).trans (List.suffix_append _ _).isInfix

theorem text_infix_of_mem_scan {cs : List Char} {t : Token} (member : t ∈ scan cs) :
    t.text <:+: cs := by
  fun_induction scan cs with
  | case1 => cases member
  | case2 c cs _ ih => exact (ih member).trans (List.suffix_cons c cs).isInfix
  | case3 c cs _ _ ih | case4 c cs _ _ _ ih =>
      exact infix_of_step (congrArg (c :: ·) List.takeWhile_append_dropWhile) ih member
  | case5 c cs _ _ _ _ ih =>
      exact infix_of_step (congrArg (c :: ·) (quoted_append c cs)) ih member
  | case6 c =>
      obtain rfl := List.mem_singleton.mp member
      simp [text_ofChar]
  | case7 c _ _ _ _ d ds t pair ih =>
      exact infix_of_step (by rw [text_of_ofPair? pair]; rfl) ih member
  | case8 c _ _ _ _ d ds _ ih =>
      exact infix_of_step (by rw [text_ofChar]; rfl) ih member

theorem commentless_render {ts : List Token} (written : ∀ t ∈ ts, t.text ≠ [])
    (each : ∀ t ∈ ts, Commentless t.text) : Commentless (render ts) := by
  fun_induction render ts with
  | case1 => exact .nil
  | case2 t => exact each t (by simp)
  | case3 t u ts ih =>
      have first := each t (by simp)
      have rest := ih (fun v member => written v (by simp [member]))
        fun v member => each v (by simp [member])
      have begins : (render (u :: ts)).head? = u.text.head? :=
        head?_render (written u (by simp)) ts
      rw [List.append_assoc]
      split
      · next glue =>
        rw [List.nil_append]
        refine first.append rest ?_
        rintro x last y next rfl
        rw [begins] at next
        rcases glued_cases glue with rfl | rfl | rfl | ⟨rfl, -⟩ | ⟨rfl, -⟩
        · simp [text] at last
        · cases Option.some.inj next
          decide
        · cases Option.some.inj next
          decide
        · simp [text] at last
        · cases Option.some.inj next
          decide
      · refine first.append (rest.cons (by simp)) ?_
        rintro x - y next -
        cases Option.some.inj next
        decide

end Token

open Token

theorem stripComments_eq_self {cs : List Char} (commentless : Commentless cs) :
    stripComments false cs = cs := by
  induction cs with
  | nil => rfl
  | cons c cs ih =>
      obtain ⟨first, rest⟩ := List.isChain_cons.mp commentless
      have kept := ih rest
      unfold stripComments
      split <;> simp_all

theorem commentless_stripComments (inside : Bool) (cs : List Char) :
    Commentless (stripComments inside cs) := by
  fun_induction stripComments inside cs with
  | case1 => exact .nil
  | case2 => exact .nil
  | case3 cs ih => exact ih.cons (by simp)
  | case4 c cs noLine noBlock ih =>
      refine ih.cons fun d next slash => ?_
      subst slash
      cases cs with
      | nil => cases next
      | cons e es =>
          have noSlash : e ≠ '/' := fun same => noLine es rfl (by rw [same])
          have noStar : e ≠ '*' := fun same => noBlock es rfl (by rw [same])
          have kept : stripComments false (e :: es) = e :: stripComments false es := by
            rw [stripComments]
            · exact fun tail same => absurd same noSlash
            · exact fun tail same => absurd same noSlash
          rw [kept] at next
          cases Option.some.inj next
          exact ⟨noSlash, noStar⟩
  | case5 cs ih => exact ih
  | case6 c cs _ ih => exact ih

end Guard

end Variability
