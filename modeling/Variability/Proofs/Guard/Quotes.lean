import Variability.Proofs.Guard.Rendering

/-!
Quotes that are never closed. Quoted text that no quote closes takes in whatever is written behind
it. Text in which every quote is closed is scanned as the same tokens, whatever follows behind a
blank or a closing parenthesis.
-/

namespace Variability.Guard

open Text (isBlank)
open Token

/-- The quote that is open behind a text, if one is open before it. A backslash takes the next
character of quoted text with it, and quoted text ends at the next quote of its own kind. -/
def openQuote? : (before : Option Char) → List Char → Option Char
  | before, [] => before
  | none, c :: cs => openQuote? (if isQuote c then some c else none) cs
  | some q, '\\' :: [] => some q
  | some q, '\\' :: _ :: cs => openQuote? (some q) cs
  | some q, c :: cs => openQuote? (if c = q then none else some q) cs

/-- Text in which every quote is closed. -/
def Closed (cs : List Char) : Prop :=
  openQuote? none cs = none

instance (cs : List Char) : Decidable (Closed cs) :=
  inferInstanceAs (Decidable (openQuote? none cs = none))

theorem openQuote?_none_cons (c : Char) (cs : List Char) :
    openQuote? none (c :: cs) = openQuote? (if isQuote c then some c else none) cs := by
  rw [openQuote?]

theorem openQuote?_some_cons {q c : Char} (plain : c ≠ '\\') (cs : List Char) :
    openQuote? (some q) (c :: cs) = openQuote? (if c = q then none else some q) cs := by
  rw [openQuote?.eq_def]
  split <;> simp_all

theorem openQuote?_append {before : Option Char} {cs : List Char}
    (closed : openQuote? before cs = none) (ds : List Char) :
    openQuote? before (cs ++ ds) = openQuote? none ds := by
  fun_induction openQuote? before cs with
  | case1 before =>
      subst closed
      rfl
  | case2 c cs ih =>
      rw [List.cons_append, openQuote?_none_cons]
      exact ih closed
  | case3 => cases closed
  | case4 q c cs ih => exact ih closed
  | case5 q c cs notLast notEscape ih =>
      have plain : c ≠ '\\' := by
        cases cs <;> simp_all
      rw [List.cons_append, openQuote?_some_cons plain]
      exact ih closed

namespace Closed

variable {cs : List Char} (closed : Closed cs)
include closed

theorem append {ds : List Char} (closedToo : Closed ds) : Closed (cs ++ ds) :=
  (openQuote?_append closed ds).trans closedToo

theorem of_append {ds : List Char} (whole : Closed (cs ++ ds)) : Closed ds :=
  (openQuote?_append closed ds).symm.trans whole

end Closed

theorem closed_of_quoteless {cs : List Char} (quoteless : ∀ c ∈ cs, isQuote c = false) :
    Closed cs := by
  induction cs with
  | nil => rfl
  | cons c cs ih =>
      have noQuote := quoteless c (by simp)
      rw [Closed, openQuote?_none_cons, noQuote]
      exact ih fun d member => quoteless d (by simp [member])

/-- Quoted text that is closed, whatever follows it, leaves no quote open. -/
theorem openQuote?_of_quoted {q : Char} {body : List Char}
    (closed : ∀ rest, quoted q (body ++ rest) = (body, rest)) :
    openQuote? (some q) body = none := by
  fun_induction quoted q body with
  | case1 =>
      have unread := closed [q]
      rw [List.nil_append] at unread
      by_cases escape : q = '\\'
      · subst escape
        simp [quoted] at unread
      · simp [quoted_cons escape] at unread
  | case2 =>
      have unread := closed ['\\']
      simp [quoted] at unread
  | case3 c cs ih =>
      refine ih fun rest => ?_
      have whole := closed rest
      rw [List.cons_append, List.cons_append, quoted] at whole
      obtain ⟨same, behind⟩ := Prod.mk.inj whole
      exact Prod.ext (List.cons.inj (List.cons.inj same).2).2 behind
  | case4 cs notLast notEscape =>
      have plain : q ≠ '\\' := by
        cases cs <;> simp_all
      have whole := closed []
      rw [List.append_nil, quoted_cons plain, if_pos rfl] at whole
      obtain ⟨same, -⟩ := Prod.mk.inj whole
      rw [← same, openQuote?_some_cons plain, if_pos rfl, openQuote?]
  | case5 c cs notLast notEscape other ih =>
      have plain : c ≠ '\\' := by
        cases cs <;> simp_all
      rw [openQuote?_some_cons plain, if_neg other]
      refine ih fun rest => ?_
      have whole := closed rest
      rw [List.cons_append, quoted_cons plain, if_neg other] at whole
      obtain ⟨same, behind⟩ := Prod.mk.inj whole
      exact Prod.ext (List.cons.inj same).2 behind

/-- Quoted text is closed, whatever follows it, or its quote is still open at the end. -/
theorem quoted_closed_or_open (q : Char) (cs : List Char) :
    (∀ rest, quoted q ((quoted q cs).1 ++ rest) = ((quoted q cs).1, rest)) ∨
      (quoted q cs = (cs, []) ∧ openQuote? (some q) cs = some q) := by
  fun_induction quoted q cs with
  | case1 => exact .inr ⟨rfl, rfl⟩
  | case2 => exact .inr ⟨rfl, rfl⟩
  | case3 c cs ih =>
      rcases ih with closed | ⟨all, isOpen⟩
      · refine .inl fun rest => ?_
        rw [List.cons_append, List.cons_append, quoted, closed]
      · exact .inr ⟨by rw [all], isOpen⟩
  | case4 cs notLast notEscape =>
      have plain : q ≠ '\\' := by
        cases cs <;> simp_all
      refine .inl fun rest => ?_
      rw [List.singleton_append, quoted_cons plain, if_pos rfl]
  | case5 c cs notLast notEscape other ih =>
      have plain : c ≠ '\\' := by
        cases cs <;> simp_all
      rcases ih with closed | ⟨all, isOpen⟩
      · refine .inl fun rest => ?_
        rw [List.cons_append, quoted_cons plain, if_neg other, closed]
      · refine .inr ⟨by rw [all], ?_⟩
        rw [openQuote?_some_cons plain, if_neg other, isOpen]

namespace Token

theorem isQuote_eq_false_of_isNumberChar {c : Char} (inside : isNumberChar c) :
    isQuote c = false := by
  rw [Bool.eq_false_iff]
  intro quote
  rcases eq_of_isQuote quote with rfl | rfl <;> cases inside

theorem isQuote_eq_false_of_isNameChar {c : Char} (inside : isNameChar c) : isQuote c = false := by
  rw [Bool.eq_false_iff]
  intro quote
  rcases eq_of_isQuote quote with rfl | rfl <;> cases inside

theorem isQuote_eq_false_of_isSymbol {c : Char} (symbol : isSymbol c) : isQuote c = false := by
  simp only [isSymbol, Bool.and_eq_true, Bool.not_eq_true'] at symbol
  exact symbol.2

/-- A token that ends of itself closes its quotes. -/
theorem Whole.closed {t : Token} (whole : Whole t) : Closed t.text := by
  cases whole with
  | @identifier c cs start rest =>
      refine closed_of_quoteless (List.forall_mem_cons.mpr ⟨?_, fun d member => ?_⟩)
      · exact isQuote_eq_false_of_isNameChar (isNameChar_of_isNameStart start)
      · exact isQuote_eq_false_of_isNameChar (rest d member)
  | @number c cs digit rest =>
      refine closed_of_quoteless (List.forall_mem_cons.mpr ⟨?_, fun d member => ?_⟩)
      · exact isQuote_eq_false_of_isNumberChar (by simp [isNumberChar, Char.isAlphanum, digit])
      · exact isQuote_eq_false_of_isNumberChar (rest d member)
  | @pair c d t pair =>
      rw [text_of_ofPair? pair]
      refine closed_of_quoteless (List.forall_mem_cons.mpr ⟨?_, fun e member => ?_⟩)
      · exact isQuote_eq_false_of_isSymbol (isSymbol_of_ofPair? pair)
      · obtain rfl := List.mem_singleton.mp member
        have noQuote : ∀ d ∈ ['&', '|', '=', '<', '>'], isQuote d = false := by simp [isQuote]
        exact noQuote e (mem_of_ofPair? pair)
  | @symbol c symbol =>
      rw [text_ofChar]
      exact closed_of_quoteless (by simpa using isQuote_eq_false_of_isSymbol symbol)
  | @quoted q body quote closed =>
      rw [text, Closed, openQuote?_none_cons, if_pos quote]
      exact openQuote?_of_quoted closed

theorem goesOn_quoted {q : Char} (quote : isQuote q) (body : List Char) (c : Char) :
    (other (q :: body)).goesOn c = false := by
  rcases eq_of_isQuote quote with rfl | rfl <;> cases body <;> rfl

end Token

/-- How a text is scanned: blanks are skipped, each token ends where it cannot go on, and a quote
that is never closed takes in the rest. -/
inductive Scans : List Char → List Token → Prop where
  | nothing : Scans [] []
  | blank {c : Char} {cs : List Char} {ts : List Token} (blank : isBlank c) (rest : Scans cs ts) :
      Scans (c :: cs) ts
  | token {t : Token} {cs : List Char} {ts : List Token} (whole : Whole t)
      (stops : ∀ c ∈ cs.head?, t.goesOn c = false) (rest : Scans cs ts) :
      Scans (t.text ++ cs) (t :: ts)
  | unclosed {q : Char} {body : List Char} (quote : isQuote q)
      (isOpen : openQuote? (some q) body = some q) : Scans (q :: body) [.other (q :: body)]

private theorem head?_dropWhile {test : Char → Bool} (cs : List Char) :
    ∀ c ∈ (cs.dropWhile test).head?, test c = false := by
  intro c first
  have stopped := List.head?_dropWhile_not test cs
  rw [first] at stopped
  exact stopped

theorem scans_scan (cs : List Char) : Scans cs (scan cs) := by
  fun_induction scan cs with
  | case1 => exact .nothing
  | case2 c cs blank ih => exact .blank blank ih
  | case3 c cs visible start ih =>
      have split : c :: cs = (identifier (c :: cs.takeWhile isNameChar)).text ++
        cs.dropWhile isNameChar := congrArg (c :: ·) List.takeWhile_append_dropWhile.symm
      rw [split]
      exact .token (.identifier start fun d member => List.mem_takeWhile_imp member)
        (head?_dropWhile cs) ih
  | case4 c cs visible other digit ih =>
      have split : c :: cs = (number (c :: cs.takeWhile isNumberChar)).text ++
        cs.dropWhile isNumberChar := congrArg (c :: ·) List.takeWhile_append_dropWhile.symm
      rw [split]
      exact .token (.number digit fun d member => List.mem_takeWhile_imp member)
        (head?_dropWhile cs) ih
  | case5 c cs visible other otherToo quote ih =>
      have quote : isQuote c := by simpa [isQuote] using quote
      rcases quoted_closed_or_open c cs with closed | ⟨all, isOpen⟩
      · have split : c :: cs = (Token.other (c :: (quoted c cs).1)).text ++ (quoted c cs).2 :=
          congrArg (c :: ·) (quoted_append c cs).symm
        rw [split]
        exact .token (.quoted quote closed) (fun d _ => goesOn_quoted quote _ d) ih
      · rw [all, scan]
        exact .unclosed quote isOpen
  | case6 c =>
      have symbol : isSymbol c := by simp_all [isSymbol, isQuote]
      have alone := Scans.token (.symbol symbol) (by simp) .nothing
      rwa [text_ofChar] at alone
  | case7 c _ _ _ _ d ds t pair ih =>
      have stops : ∀ e ∈ ds.head?, t.goesOn e = false := by
        unfold ofPair? at pair
        split at pair <;> cases pair <;> exact fun _ _ => rfl
      have paired := Scans.token (.pair pair) stops ih
      rwa [text_of_ofPair? pair] at paired
  | case8 c _ _ _ _ d ds alone ih =>
      have symbol : isSymbol c := by simp_all [isSymbol, isQuote]
      have stops : ∀ e ∈ (d :: ds).head?, (ofChar c).goesOn e = false := by
        rintro e ⟨⟩
        simp [goesOn_ofChar, alone]
      have single := Scans.token (.symbol symbol) stops ih
      rwa [text_ofChar] at single

/-- Text behind which no token can go on: nothing, or a blank or a closing parenthesis first. -/
def Parted (rest : List Char) : Prop :=
  ∀ c ∈ rest.head?, c = ' ' ∨ c = ')'

theorem Parted.stops {rest : List Char} (parted : Parted rest) (t : Token) :
    ∀ c ∈ rest.head?, t.goesOn c = false := by
  intro c first
  rcases parted c first with rfl | rfl
  · exact t.goesOn_blank
  · exact goesOn_eq_false (by decide) (by decide) t

theorem not_closed_of_open {q : Char} {body : List Char} (quote : isQuote q)
    (isOpen : openQuote? (some q) body = some q) : ¬ Closed (q :: body) := by
  rw [Closed, openQuote?_none_cons, if_pos quote, isOpen]
  exact nofun

theorem closed_cons_blank {c : Char} (blank : isBlank c) {cs : List Char} :
    Closed (c :: cs) ↔ Closed cs := by
  have noQuote : isQuote c = false := by
    rw [Bool.eq_false_iff]
    intro quote
    rw [isBlank_eq_false_of_isQuote quote] at blank
    cases blank
  rw [Closed, openQuote?_none_cons, noQuote]
  exact Iff.rfl

/-- Text in which every quote is closed is scanned for itself before what no token goes on with. -/
theorem scan_append_of_stops {cs rest : List Char} (closed : Closed cs)
    (ends : ∀ t : Token, ∀ c ∈ rest.head?, t.goesOn c = false) :
    scan (cs ++ rest) = scan cs ++ scan rest := by
  have scans := scans_scan cs
  generalize scan cs = ts at scans ⊢
  induction scans with
  | nothing => rfl
  | @blank c cs ts blank _ ih =>
      rw [List.cons_append, scan_blank blank, ih ((closed_cons_blank blank).mp closed)]
  | @token t cs ts whole stops _ ih =>
      have stopsToo : ∀ c ∈ (cs ++ rest).head?, t.goesOn c = false := by
        cases cs with
        | nil => exact ends t
        | cons d ds => exact stops
      rw [List.append_assoc, whole.scan_append stopsToo, ih (whole.closed.of_append closed),
        List.cons_append]
  | unclosed quote isOpen => exact absurd closed (not_closed_of_open quote isOpen)

theorem scan_append {cs rest : List Char} (closed : Closed cs) (parted : Parted rest) :
    scan (cs ++ rest) = scan cs ++ scan rest :=
  scan_append_of_stops closed parted.stops

theorem whole_of_closed {cs : List Char} (closed : Closed cs) : ∀ t ∈ scan cs, Whole t := by
  have scans := scans_scan cs
  generalize scan cs = ts at scans ⊢
  induction scans with
  | nothing => exact nofun
  | blank blank _ ih => exact ih ((closed_cons_blank blank).mp closed)
  | token whole _ _ ih =>
      exact List.forall_mem_cons.mpr ⟨whole, ih (whole.closed.of_append closed)⟩
  | unclosed quote isOpen => exact absurd closed (not_closed_of_open quote isOpen)

/-- A quote that is never closed starts the last token, and the text ends with that token. -/
theorem exists_unclosed {cs : List Char} (notClosed : ¬ Closed cs) :
    ∃ ts q body, scan cs = ts ++ [.other (q :: body)] ∧ isQuote q ∧ ¬ Closed (q :: body) ∧
      q :: body <:+ cs := by
  have scans := scans_scan cs
  generalize scan cs = ts at scans ⊢
  induction scans with
  | nothing => exact absurd rfl notClosed
  | @blank c cs _ blank _ ih =>
      obtain ⟨ts, q, body, rfl, quote, unclosed, ends⟩ :=
        ih fun closed => notClosed ((closed_cons_blank blank).mpr closed)
      exact ⟨ts, q, body, rfl, quote, unclosed, ends.trans (List.suffix_cons c cs)⟩
  | @token t cs _ whole _ _ ih =>
      obtain ⟨ts, q, body, rfl, quote, unclosed, ends⟩ :=
        ih fun closed => notClosed (whole.closed.append closed)
      exact ⟨t :: ts, q, body, rfl, quote, unclosed, ends.trans (List.suffix_append _ cs)⟩
  | @unclosed q body quote isOpen =>
      exact ⟨[], q, body, rfl, quote, not_closed_of_open quote isOpen, List.suffix_refl _⟩

theorem closed_of_whole {cs : List Char} (whole : ∀ t ∈ scan cs, Whole t) : Closed cs := by
  by_contra notClosed
  obtain ⟨ts, q, body, split, -, unclosed, -⟩ := exists_unclosed notClosed
  exact unclosed (whole (.other (q :: body)) (by simp [split])).closed

end Variability.Guard
