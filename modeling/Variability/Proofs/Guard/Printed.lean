import Variability.Proofs.Guard.Features
import Variability.Proofs.Guard.Quotes

/-!
Printed formulas as guards. A folded formula whose features are as guards have them is read off
its printed text again, as long as no feature is the keyword of guards and no feature leaves a quote
open.
-/

namespace Variability.Guard

open Token

open Formula (Folded parenthesize printOperands occurrencesAll)

/-- What the operands of a conjunction and of a disjunction are joined by. -/
inductive Joins : (mark : List Char) → Token → Prop where
  | conjunction : Joins " && ".toList .conjunction
  | disjunction : Joins " || ".toList .disjunction

/-- What is true of the smallest printed formulas and kept by the ways to put them together is
true of all. -/
theorem print_induction {P : List Char → Prop} {f : Formula} (folded : Folded f)
    (constant : ∀ c ∈ ['0', '1'], P [c])
    (feature : ∀ x ∈ f.occurrences, P (Formula.var x).print)
    (group : ∀ cs, P cs → P ('(' :: (cs ++ [')'])))
    (negation : ∀ cs, P cs → P ('!' :: cs))
    (join : ∀ mark t, Joins mark t → ∀ cs ds, P cs → P ds → P (cs ++ mark ++ ds)) :
    P f.print := by
  have operand {cs : List Char} (needed : Bool) (holds : P cs) : P (parenthesize needed cs) := by
    cases needed with
    | false => exact holds
    | true => exact group cs holds
  have operands {fs : List Formula} (level : Nat) {mark : List Char} {t : Token}
      (joins : Joins mark t) (some : fs ≠ []) (each : ∀ f ∈ fs, P f.print) :
      P (printOperands level mark fs) := by
    induction fs with
    | nil => exact absurd rfl some
    | cons f fs ih =>
        cases fs with
        | nil => exact operand _ (each f (by simp))
        | cons g fs =>
            exact join mark t joins _ _ (operand _ (each f (by simp)))
              (ih (by simp) fun h member => each h (by simp [member]))
  induction folded with
  | tt | ff => exact constant _ (by decide)
  | var x => exact feature x (by simp [Formula.occurrences])
  | not _ _ ih => exact negation _ (operand _ (ih feature))
  | and _ _ several ih =>
      exact operands 2 .conjunction (List.ne_nil_of_length_pos (by omega)) fun f member =>
        ih f member fun x occurs => feature x (Formula.mem_occurrencesAll_of_mem member occurs)
  | or _ _ several ih =>
      exact operands 1 .disjunction (List.ne_nil_of_length_pos (by omega)) fun f member =>
        ih f member fun x occurs => feature x (Formula.mem_occurrencesAll_of_mem member occurs)

/-! The text of a printed formula. -/

section Text

variable {f : Formula} (folded : Folded f)
include folded

/-- No operand starts with a character that makes another operator of a negation before it. -/
theorem starts_print : ∃ c cs, f.print = c :: cs ∧ c ≠ '=' := by
  refine print_induction (P := fun cs => ∃ d ds, cs = d :: ds ∧ d ≠ '=') folded ?_ ?_ ?_ ?_ ?_
  · intro c digit
    refine ⟨c, [], rfl, ?_⟩
    rintro rfl
    revert digit
    decide
  · intro x _
    rw [Formula.print]
    cases named : isIdentifier x.toList with
    | false => exact ⟨'(', _, rfl, by decide⟩
    | true =>
        cases split : x.toList with
        | nil => simp [split, isIdentifier] at named
        | cons c cs =>
            refine ⟨c, cs, rfl, ?_⟩
            rintro rfl
            rw [split, isIdentifier, Bool.and_eq_true] at named
            exact Bool.false_ne_true named.1
  · exact fun cs _ => ⟨'(', _, rfl, by decide⟩
  · exact fun cs _ => ⟨'!', _, rfl, by decide⟩
  · rintro mark t - cs ds ⟨c, cs, rfl, plain⟩ -
    exact ⟨c, _, rfl, plain⟩

theorem commentless_print (features : ∀ x ∈ f.occurrences, Feature x) : Commentless f.print := by
  have inside {cs : List Char} (commentless : Commentless cs) :
      Commentless ('(' :: (cs ++ [')'])) := by
    refine (commentless.append (.singleton _) ?_).cons (by simp)
    rintro c - d ⟨⟩ -
    decide
  refine print_induction folded ?_ ?_ (fun cs => inside) ?_ ?_
  · exact fun c _ => .singleton c
  · intro x occurs
    rw [Formula.print]
    cases features x occurs with
    | name identifier =>
        rw [identifier]
        exact commentless_of_not_mem (not_mem_of_isIdentifier identifier (by decide))
    | operand spelled =>
        rw [String.toList_ofList]
        cases isIdentifier _ with
        | true => exact spelled.commentless_render
        | false => exact inside spelled.commentless_render
  · exact fun cs commentless => commentless.cons (by simp)
  · rintro mark t joins cs ds left right
    rw [List.append_assoc]
    cases joins with
    | conjunction =>
        change Commentless (cs ++ ' ' :: '&' :: '&' :: ' ' :: ds)
        refine left.append ((((right.cons ?_).cons ?_).cons ?_).cons ?_) ?_ <;> simp
    | disjunction =>
        change Commentless (cs ++ ' ' :: '|' :: '|' :: ' ' :: ds)
        refine left.append ((((right.cons ?_).cons ?_).cons ?_).cons ?_) ?_ <;> simp

theorem closed_print (closed : ∀ x ∈ f.occurrences, Closed x.toList) : Closed f.print := by
  have inside {cs : List Char} (closed : Closed cs) : Closed ('(' :: (cs ++ [')'])) :=
    closed.append (show Closed [')'] from rfl)
  refine print_induction folded ?_ ?_ (fun cs => inside) (fun cs closed => closed) ?_
  · intro c digit
    rcases List.mem_pair.mp digit with rfl | rfl <;> rfl
  · intro x occurs
    rw [Formula.print]
    cases isIdentifier _ with
    | true => exact closed x occurs
    | false => exact inside (closed x occurs)
  · rintro mark t joins cs ds left right
    refine (left.append ?_).append right
    cases joins <;> decide

end Text

/-! The tokens of a printed formula. -/

/-- The tokens of text that stands in parentheses if it needs them. -/
def enclose (needed : Bool) (ts : List Token) : List Token :=
  if needed then .leftParen :: (ts ++ [.rightParen]) else ts

theorem scan_parenthesize {cs : List Char} (closed : Closed cs) (needed : Bool) :
    scan (parenthesize needed cs) = enclose needed (scan cs) := by
  cases needed with
  | false => rfl
  | true =>
      have opening : scan ('(' :: (cs ++ [')'])) = .leftParen :: scan (cs ++ [')']) :=
        scan_symbol (by decide) fun d _ => rfl
      have closing : scan [')'] = [.rightParen] := by
        rw [scan_symbol (by decide) (by simp), scan]
        rfl
      rw [parenthesize, if_pos rfl, opening, scan_append closed (by simp [Parted]), closing]
      rfl

theorem scan_joined {cs : List Char} (closed : Closed cs) {mark : List Char} {t : Token}
    (joins : Joins mark t) (ds : List Char) :
    scan (cs ++ mark ++ ds) = scan cs ++ t :: scan ds := by
  have behind : scan (mark ++ ds) = t :: scan ds := by
    cases joins with
    | conjunction =>
        change scan (' ' :: '&' :: '&' :: ' ' :: ds) = _
        rw [scan_blank (by decide), scan_pair rfl, scan_blank (by decide)]
    | disjunction =>
        change scan (' ' :: '|' :: '|' :: ' ' :: ds) = _
        rw [scan_blank (by decide), scan_pair rfl, scan_blank (by decide)]
  have parted : Parted (mark ++ ds) := by
    cases joins <;> simp [Parted]
  rw [List.append_assoc, scan_append closed parted, behind]

theorem closed_parenthesize {cs : List Char} (closed : Closed cs) (needed : Bool) :
    Closed (parenthesize needed cs) := by
  cases needed with
  | false => exact closed
  | true => exact closed.append (show Closed [')'] from rfl)

theorem scan_not {f : Formula} (folded : Folded f) (closed : Closed f.print) :
    scan (Formula.not f).print = .negation :: enclose (f.precedence ≤ 2) (scan f.print) := by
  have starts : ∀ c ∈ (parenthesize (f.precedence ≤ 2) f.print).head?, ofPair? '!' c = none := by
    obtain ⟨c, cs, split, plain⟩ := starts_print folded
    rw [split]
    generalize decide (f.precedence ≤ 2) = needed
    cases needed with
    | false =>
        rintro d ⟨⟩
        simp [ofPair?, plain]
    | true =>
        rintro d ⟨⟩
        rfl
  rw [Formula.print, scan_symbol (by decide) starts, scan_parenthesize closed]
  rfl

theorem scan_printOperands {level : Nat} {mark : List Char} {t : Token} (joins : Joins mark t)
    {f g : Formula} {fs : List Formula} (closed : Closed f.print) :
    scan (printOperands level mark (f :: g :: fs)) =
      enclose (f.precedence ≤ level) (scan f.print) ++
        t :: scan (printOperands level mark (g :: fs)) := by
  rw [printOperands, scan_joined (closed_parenthesize closed _) joins, scan_parenthesize closed]

theorem scan_printOperands_last {level : Nat} {mark : List Char} {f : Formula}
    (closed : Closed f.print) :
    scan (printOperands level mark [f]) = enclose (f.precedence ≤ level) (scan f.print) := by
  rw [printOperands, scan_parenthesize closed]

/-! Reading a printed formula. -/

/-- A printed formula is read as itself, in every role that it can have without parentheses. -/
structure ReadsBack (f : Formula) : Prop where
  closed : Closed f.print
  unary : f.precedence = 3 → Reads .unary (scan f.print) f
  conjuncts : 2 ≤ f.precedence → ∃ fs, Reads .conjuncts (scan f.print) fs ∧ Formula.conj fs = f
  disjuncts : ∃ fs, Reads .disjuncts (scan f.print) fs ∧ Formula.disj fs = f

namespace ReadsBack

variable {f : Formula}

theorem of_disjuncts (closed : Closed f.print) (loose : f.precedence = 1)
    (reads : ∃ fs, Reads .disjuncts (scan f.print) fs ∧ Formula.disj fs = f) : ReadsBack f :=
  ⟨closed, by omega, by omega, reads⟩

theorem of_conjuncts (folded : Folded f) (closed : Closed f.print) (loose : f.precedence = 2)
    (reads : ∃ fs, Reads .conjuncts (scan f.print) fs ∧ Formula.conj fs = f) : ReadsBack f := by
  refine ⟨closed, by omega, fun _ => reads, ?_⟩
  obtain ⟨fs, reads, same⟩ := reads
  exact ⟨_, .lastDisjunct reads, by rw [same]; exact folded.disj_singleton⟩

theorem of_unary (folded : Folded f) (closed : Closed f.print)
    (reads : Reads .unary (scan f.print) f) : ReadsBack f := by
  refine ⟨closed, fun _ => reads, fun _ => ⟨[f], .lastConjunct reads, folded.conj_singleton⟩, ?_⟩
  exact ⟨_, .lastDisjunct (.lastConjunct reads), by
    rw [folded.conj_singleton]; exact folded.disj_singleton⟩

theorem group (back : ReadsBack f) :
    Reads .unary (.leftParen :: (scan f.print ++ [.rightParen])) f := by
  obtain ⟨fs, reads, same⟩ := back.disjuncts
  have group := Reads.primary (.group reads)
  rwa [same] at group

theorem operand (back : ReadsBack f) :
    Reads .unary (enclose (f.precedence ≤ 2) (scan f.print)) f := by
  by_cases loose : f.precedence ≤ 2
  · simpa [enclose, loose] using back.group
  · have tight : f.precedence = 3 := by
      cases f <;> simp_all [Formula.precedence]
    simpa [enclose, loose] using back.unary tight

theorem disjunct (folded : Folded f) (back : ReadsBack f) :
    ∃ fs, Reads .conjuncts (enclose (f.precedence ≤ 1) (scan f.print)) fs ∧
      Formula.conj fs = f := by
  by_cases loose : f.precedence ≤ 1
  · exact ⟨[f], by simpa [enclose, loose] using .lastConjunct back.group, folded.conj_singleton⟩
  · simpa [enclose, loose] using back.conjuncts (by omega)

end ReadsBack

/-- Features that can be read off their printed text. -/
def Legible (x : String) : Prop :=
  x ≠ "defined" ∧ Closed x.toList

theorem scan_of_isIdentifier {name : List Char} (identifier : isIdentifier name) :
    scan name = [.identifier name] :=
  scan_render (.cons (.of_isIdentifier identifier) .nil)

theorem reads_var {x : String} (feature : Feature x) (legible : Legible x) :
    Reads .unary (scan (Formula.var x).print) (.var x) := by
  rw [Formula.print, scan_parenthesize legible.2]
  cases named : isIdentifier x.toList with
  | true =>
      have plain : x.toList ≠ "defined".toList := fun same => legible.1 (String.toList_inj.mp same)
      have reads := Reads.primary (.name plain)
      rwa [String.ofList_toList, ← scan_of_isIdentifier named] at reads
  | false =>
      cases feature with
      | name identifier => exact absurd (named.symm.trans identifier) Bool.false_ne_true
      | @operand ts spelled reads =>
          rw [String.toList_ofList, scan_render spelled.scanned]
          exact .primary (.group (.lastDisjunct (.lastConjunct (.primary reads))))

theorem reads_conjuncts {fs : List Formula} (some : fs ≠ []) (back : ∀ f ∈ fs, ReadsBack f) :
    Reads .conjuncts (scan (printOperands 2 " && ".toList fs)) fs := by
  induction fs with
  | nil => exact absurd rfl some
  | cons f fs ih =>
      have first := back f (by simp)
      cases fs with
      | nil =>
          rw [scan_printOperands_last first.closed]
          exact .lastConjunct first.operand
      | cons g fs =>
          rw [scan_printOperands .conjunction first.closed]
          exact .conjunct first.operand (ih (by simp) fun h member => back h (by simp [member]))

theorem reads_disjuncts {fs : List Formula} (some : fs ≠ []) (folded : ∀ f ∈ fs, Folded f)
    (back : ∀ f ∈ fs, ReadsBack f) :
    Reads .disjuncts (scan (printOperands 1 " || ".toList fs)) fs := by
  induction fs with
  | nil => exact absurd rfl some
  | cons f fs ih =>
      have first := back f (by simp)
      obtain ⟨gs, reads, same⟩ := first.disjunct (folded f (by simp))
      cases fs with
      | nil =>
          have last := Reads.lastDisjunct reads
          rwa [same, ← scan_printOperands_last first.closed] at last
      | cons g fs =>
          have further := ih (by simp) (fun h member => folded h (by simp [member]))
            fun h member => back h (by simp [member])
          have whole := Reads.disjunct reads further
          rwa [same, ← scan_printOperands .disjunction first.closed] at whole

theorem scan_numeral {c : Char} (digit : c.isDigit) : scan [c] = [.number [c]] := by
  rw [scan_digit digit]
  simp [scan]

/-- Folded formulas with legible features are read as themselves when they are printed. -/
theorem readsBack {f : Formula} (folded : Folded f) (features : ∀ x ∈ f.occurrences, Feature x)
    (legible : ∀ x ∈ f.occurrences, Legible x) : ReadsBack f := by
  have closed {f : Formula} (folded : Folded f) (legible : ∀ x ∈ f.occurrences, Legible x) :
      Closed f.print :=
    closed_print folded fun x occurs => (legible x occurs).2
  induction folded with
  | tt =>
      refine .of_unary .tt (closed .tt legible) (.primary ?_)
      have one : integerValue? ['1'] = some 1 := rfl
      rw [Formula.print, scan_numeral rfl]
      exact .number one
  | ff =>
      refine .of_unary .ff (closed .ff legible) (.primary ?_)
      have zero : integerValue? ['0'] = some 0 := rfl
      rw [Formula.print, scan_numeral rfl]
      exact .number zero
  | var x =>
      have occurs : x ∈ (Formula.var x).occurrences := by simp [Formula.occurrences]
      exact .of_unary (.var x) (closed (.var x) legible)
        (reads_var (features x occurs) (legible x occurs))
  | not operand kept ih =>
      have inside := ih features legible
      refine .of_unary (.not operand kept) (closed (.not operand kept) legible) ?_
      rw [scan_not operand inside.closed, ← kept]
      exact .negation inside.operand
  | and operands kept several ih =>
      have back := fun f member => ih f member
        (fun x occurs => features x (Formula.mem_occurrencesAll_of_mem member occurs))
        fun x occurs => legible x (Formula.mem_occurrencesAll_of_mem member occurs)
      have filled := List.ne_nil_of_length_pos (Nat.zero_lt_of_lt several)
      refine .of_conjuncts (.and operands kept several)
        (closed (.and operands kept several) legible) rfl
        ⟨_, reads_conjuncts filled back, Formula.conj_of_kept kept several⟩
  | or operands kept several ih =>
      have back := fun f member => ih f member
        (fun x occurs => features x (Formula.mem_occurrencesAll_of_mem member occurs))
        fun x occurs => legible x (Formula.mem_occurrencesAll_of_mem member occurs)
      have filled := List.ne_nil_of_length_pos (Nat.zero_lt_of_lt several)
      exact .of_disjuncts (closed (.or operands kept several) legible) rfl
        ⟨_, reads_disjuncts filled operands back, Formula.disj_of_kept kept several⟩

theorem tokens_print {f : Formula} (folded : Folded f)
    (features : ∀ x ∈ f.occurrences, Feature x) : tokens f.print = scan f.print := by
  rw [tokens, stripComments_eq_self (commentless_print folded features)]

theorem parse_print_of_legible {f : Formula} (folded : Folded f)
    (features : ∀ x ∈ f.occurrences, Feature x) (legible : ∀ x ∈ f.occurrences, Legible x) :
    ∃ g, Guard.parse f.print = .ok g ∧ g.formula = f := by
  obtain ⟨fs, reads, same⟩ := (readsBack folded features legible).disjuncts
  have read : parseTokens (tokens f.print) = .ok f := by
    rw [tokens_print folded features]
    exact parseTokens_eq_ok_iff.mpr ⟨fs, reads, same.symm⟩
  exact ⟨_, by rw [Guard.parse, read], rfl⟩

end Variability.Guard
