import Mathlib.Algebra.Ring.Nat
import Variability.Proofs.Guard.Printed

/-!
Which formulas are read off their printed text. The keyword of guards is printed as a name and not
read as one, and a quote that a feature leaves open takes in the parenthesis behind the feature;
whatever else is printed is read back.
-/

namespace Variability.Guard

open Token

open Formula (Folded parenthesize printOperands occurrencesAll)

/-! Keywords. A guard spends one on each time it asks for a feature, and a printed formula has only
those that stand inside its features. -/

def keyword : Token :=
  .identifier "defined".toList

/-- How often the keyword stands in the texts of features. -/
def keywordsIn (xs : List String) : Nat :=
  (xs.map fun x => (scan x.toList).count keyword).sum

theorem keywordsIn_append (xs ys : List String) :
    keywordsIn (xs ++ ys) = keywordsIn xs + keywordsIn ys := by
  simp [keywordsIn]

theorem keywordsIn_singleton (x : String) : keywordsIn [x] = (scan x.toList).count keyword := by
  simp [keywordsIn]

private theorem keywordsIn_name {name : List Char} (named : isIdentifier name) :
    keywordsIn [String.ofList name] = [Token.identifier name].count keyword ∧
      [String.ofList name].count "defined" = [Token.identifier name].count keyword := by
  rw [keywordsIn_singleton, String.toList_ofList, scan_of_isIdentifier named]
  refine ⟨rfl, ?_⟩
  by_cases same : name = "defined".toList
  · subst same
    decide
  · have noKeyword : Token.identifier name ≠ keyword := fun asked => same (identifier.inj asked)
    have noName : String.ofList name ≠ "defined" := fun asked => same (by simp [← asked])
    rw [List.count_cons_of_ne noKeyword, List.count_cons_of_ne noName]
    rfl

theorem Stand.keywordsIn_le {ts : List Token} {xs : List String} (stand : Stand ts xs)
    (scanned : Scanned ts) : keywordsIn xs + xs.count "defined" ≤ ts.count keyword := by
  induction stand with
  | nowhere => simp [keywordsIn]
  | @join ts us xs ys t _ _ first further =>
      obtain ⟨before, behind⟩ := scanned.split
      have left := first (.of_whole before)
      have right := further behind
      have more : us.count keyword ≤ (t :: us).count keyword := List.count_le_count_cons
      rw [keywordsIn_append, List.count_append, List.count_append]
      omega
  | @name name plain =>
      obtain ⟨inside, listed⟩ := keywordsIn_name (scanned.isIdentifier (List.mem_singleton_self _))
      have noKeyword : Token.identifier name ≠ keyword := fun asked => plain (identifier.inj asked)
      rw [inside, listed, List.count_cons_of_ne noKeyword]
      rfl
  | defined name | definedGroup name =>
      have named : isIdentifier name := scanned.isIdentifier (by simp [definedTokens])
      obtain ⟨inside, listed⟩ := keywordsIn_name named
      have once : [Token.identifier name].count keyword ≤ 1 := List.count_le_length
      rw [inside, listed]
      simp [definedTokens, keyword, List.count_cons] at once ⊢
      omega
  | @operand ts _ other =>
      have noName : String.ofList (render ts) ≠ "defined" := by
        intro asked
        have same : render ts = "defined".toList := by simp [← asked]
        have scan := scan_render scanned
        rw [same, scan_of_isIdentifier (by decide)] at scan
        exact other scan.symm
      rw [keywordsIn_singleton, String.toList_ofList, scan_render scanned,
        List.count_cons_of_ne noName]
      rfl

theorem count_enclose (needed : Bool) (ts : List Token) :
    (enclose needed ts).count keyword = ts.count keyword := by
  cases needed with
  | false => rfl
  | true => simp [enclose, keyword]

theorem count_scan_printOperands {level : Nat} {mark : List Char} {t : Token} (joins : Joins mark t)
    {fs : List Formula} (closed : ∀ f ∈ fs, Closed f.print)
    (each : ∀ f ∈ fs, (scan f.print).count keyword = keywordsIn f.occurrences) :
    (scan (printOperands level mark fs)).count keyword = keywordsIn (occurrencesAll fs) := by
  have noKeyword : t ≠ keyword := by
    cases joins <;> exact nofun
  induction fs with
  | nil => simp [printOperands, scan, occurrencesAll, keywordsIn]
  | cons f fs ih =>
      have first := each f (by simp)
      have firstClosed := closed f (by simp)
      cases fs with
      | nil =>
          rw [scan_printOperands_last firstClosed, count_enclose, first, occurrencesAll,
            occurrencesAll, List.append_nil]
      | cons g fs =>
          have further := ih (fun h member => closed h (by simp [member]))
            fun h member => each h (by simp [member])
          rw [occurrencesAll, keywordsIn_append, scan_printOperands joins firstClosed,
            List.count_append, count_enclose, first, List.count_cons_of_ne noKeyword, further]

theorem count_scan_print {f : Formula} (folded : Folded f)
    (closed : ∀ x ∈ f.occurrences, Closed x.toList) :
    (scan f.print).count keyword = keywordsIn f.occurrences := by
  induction folded with
  | tt | ff =>
      rw [Formula.print, scan_numeral rfl]
      rfl
  | var x =>
      rw [Formula.print, scan_parenthesize (closed x (by simp [Formula.occurrences])),
        count_enclose, Formula.occurrences, keywordsIn_singleton]
  | not operand _ ih =>
      have noKeyword : Token.negation ≠ keyword := by decide
      rw [scan_not operand (closed_print operand closed), List.count_cons_of_ne noKeyword,
        count_enclose, ih closed]
      rfl
  | @and fs operands _ _ ih =>
      have inside : ∀ f ∈ fs, ∀ x ∈ f.occurrences, Closed x.toList := fun f member x occurs =>
        closed x (Formula.mem_occurrencesAll_of_mem member occurs)
      exact count_scan_printOperands .conjunction
        (fun f member => closed_print (operands f member) (inside f member))
        fun f member => ih f member (inside f member)
  | @or fs operands _ _ ih =>
      have inside : ∀ f ∈ fs, ∀ x ∈ f.occurrences, Closed x.toList := fun f member x occurs =>
        closed x (Formula.mem_occurrencesAll_of_mem member occurs)
      exact count_scan_printOperands .disjunction
        (fun f member => closed_print (operands f member) (inside f member))
        fun f member => ih f member (inside f member)

/-! Quotes. A feature that leaves a quote open ends the guard that it is read off, and does not end
the formula that it is printed in. -/

theorem Stand.last_of_not_closed {ts : List Token} {xs : List String} (stand : Stand ts xs)
    (scanned : Scanned ts) {x : String} (member : x ∈ xs) (notClosed : ¬ Closed x.toList) :
    xs.getLast? = some x ∧ scan x.toList <:+ ts := by
  induction stand with
  | nowhere => cases member
  | @join ts us xs ys t _ _ first further =>
      obtain ⟨before, behind⟩ := scanned.split
      rcases List.mem_append.mp member with left | right
      · obtain ⟨-, inside⟩ := first (.of_whole before) left
        exact absurd (closed_of_whole fun u part => before u (inside.subset part)) notClosed
      · obtain ⟨last, inside⟩ := further behind right
        refine ⟨by rw [List.getLast?_append, last, Option.some_or], inside.trans ?_⟩
        exact (List.suffix_cons t us).trans (List.suffix_append ts _)
  | @name name | defined name | definedGroup name =>
      obtain rfl := List.mem_singleton.mp member
      have named : isIdentifier name := scanned.isIdentifier (by simp [definedTokens])
      refine absurd ?_ notClosed
      rw [String.toList_ofList]
      exact (Whole.of_isIdentifier named).closed
  | operand =>
      obtain rfl := List.mem_singleton.mp member
      rw [String.toList_ofList, scan_render scanned]
      exact ⟨rfl, List.suffix_refl _⟩

/-- Text that ends with some part and closing parentheses behind it. -/
def EndsInside (part cs : List Char) : Prop :=
  ∃ before n, cs = before ++ part ++ List.replicate (n + 1) ')'

namespace EndsInside

variable {part cs : List Char} (ends : EndsInside part cs)
include ends

theorem behind (ds : List Char) : EndsInside part (ds ++ cs) := by
  obtain ⟨before, n, rfl⟩ := ends
  exact ⟨ds ++ before, n, by simp⟩

theorem of_suffix {inner : List Char} (suffix : inner <:+ part) : EndsInside inner cs := by
  obtain ⟨before, n, rfl⟩ := ends
  obtain ⟨front, rfl⟩ := suffix
  exact ⟨before ++ front, n, by simp⟩

theorem parenthesize (needed : Bool) : EndsInside part (parenthesize needed cs) := by
  cases needed with
  | false => exact ends
  | true =>
      obtain ⟨before, n, rfl⟩ := ends
      refine ⟨'(' :: before, n + 1, ?_⟩
      rw [Formula.parenthesize, if_pos rfl, List.replicate_succ' (n := n + 1)]
      simp only [List.append_assoc, List.cons_append]

end EndsInside

theorem ends_printOperands {x : String} {level : Nat} {mark : List Char} {fs : List Formula}
    (filled : ∀ f ∈ fs, f.occurrences ≠ [])
    (each : ∀ f ∈ fs, f.occurrences.getLast? = some x → EndsInside x.toList f.print)
    (last : (occurrencesAll fs).getLast? = some x) :
    EndsInside x.toList (printOperands level mark fs) := by
  induction fs with
  | nil => cases last
  | cons f fs ih =>
      cases fs with
      | nil =>
          rw [occurrencesAll, occurrencesAll, List.append_nil] at last
          exact (each f (by simp) last).parenthesize _
      | cons g fs =>
          have more : occurrencesAll (g :: fs) ≠ [] :=
            List.append_ne_nil_of_left_ne_nil (filled g (by simp)) _
          rw [occurrencesAll, List.getLast?_append_of_ne_nil _ more] at last
          exact (ih (fun h member => filled h (by simp [member]))
            (fun h member => each h (by simp [member])) last).behind _

/-- The last feature of a formula, when it is no name, is printed with a parenthesis behind it. -/
theorem ends_print {f : Formula} (folded : Folded f) {x : String}
    (other : isIdentifier x.toList = false) (last : f.occurrences.getLast? = some x) :
    EndsInside x.toList f.print := by
  induction folded with
  | tt | ff => cases last
  | var y =>
      obtain rfl : y = x := by simpa [Formula.occurrences] using last
      rw [Formula.print, other]
      exact ⟨['('], 0, rfl⟩
  | not _ _ ih => exact ((ih last).parenthesize _).behind ['!']
  | and operands kept _ ih =>
      exact ends_printOperands
        (fun f member => (operands f member).occurrences_ne_nil
          (Formula.not_constant_of_conjuncts (kept f member)))
        (fun f member => ih f member) last
  | or operands kept _ ih =>
      exact ends_printOperands
        (fun f member => (operands f member).occurrences_ne_nil
          (Formula.not_constant_of_disjuncts (kept f member)))
        (fun f member => ih f member) last

/-- Text does not end both with a part and with parentheses behind that part, unless the part
starts with a parenthesis itself. -/
theorem eq_of_endsInside {c : Char} {part cs : List Char} (ends : c :: part <:+ cs)
    (inside : EndsInside (c :: part) cs) : c = ')' := by
  obtain ⟨before, n, same⟩ := inside
  obtain ⟨front, rfl⟩ := ends
  rw [List.append_assoc, List.append_eq_append_iff] at same
  rcases same with ⟨shift, rfl, same⟩ | ⟨shift, rfl, same⟩
  · have lengths := congrArg List.length same
    simp only [List.length_append, List.length_cons, List.length_replicate] at lengths
    omega
  · have lengths := congrArg List.length same
    have counts := congrArg (List.countP (· ≠ ')')) same
    have parentheses : (List.replicate (n + 1) ')').countP (· ≠ ')') = 0 :=
      List.countP_eq_zero.mpr fun d member => by simp [List.eq_of_mem_replicate member]
    simp only [List.length_append, List.length_cons, List.length_replicate] at lengths
    rw [List.countP_append, List.countP_append, parentheses] at counts
    cases shift with
    | nil =>
        rw [List.length_nil] at lengths
        omega
    | cons d shift =>
        obtain rfl := (List.cons.inj same).1
        have only := List.countP_eq_zero.mp (by omega : (c :: shift).countP (· ≠ ')') = 0)
        simpa using only c (by simp)

section

variable {f : Formula} (assembled : Assembled f) {g : Guard} (parsed : Guard.parse f.print = .ok g)
  (same : g.formula = f)
include assembled parsed same

theorem parseTokens_scan_print : parseTokens (scan f.print) = .ok f := by
  rw [Guard.parse, tokens_print assembled.folded assembled.features] at parsed
  split at parsed
  · cases parsed
  · next h readAs =>
    cases parsed
    exact readAs.trans (congrArg _ same)

/-- A formula that is read off its printed text leaves no quote open. -/
theorem closed_of_parse_print : ∀ x ∈ f.occurrences, Closed x.toList := by
  intro x occurs
  by_contra notClosed
  have other : isIdentifier x.toList = false := by
    rw [Bool.eq_false_iff]
    exact fun named => notClosed (Whole.of_isIdentifier named).closed
  have stand := stand_of_parseTokens (parseTokens_scan_print assembled parsed same)
  obtain ⟨last, inside⟩ := stand.last_of_not_closed (scanned_scan _) occurs notClosed
  -- the feature and the printed formula end with the same token, which takes in all that follows
  obtain ⟨vs, q, body, splitFeature, quote, unclosed, endsFeature⟩ := exists_unclosed notClosed
  have notClosedAll : ¬ Closed f.print := by
    intro closed
    have part : Token.other (q :: body) ∈ scan x.toList := by simp [splitFeature]
    exact unclosed (whole_of_closed closed _ (inside.subset part)).closed
  obtain ⟨us, p, text, splitAll, -, -, endsAll⟩ := exists_unclosed notClosedAll
  obtain ⟨ws, joined⟩ := inside
  rw [splitFeature, splitAll, ← List.append_assoc] at joined
  obtain ⟨rfl, rfl⟩ : q = p ∧ body = text := by simpa using List.append_inj_right' joined rfl
  have shifted := (ends_print assembled.folded other last).of_suffix endsFeature
  obtain rfl := eq_of_endsInside endsAll shifted
  cases quote

/-- A formula that is read off its printed text has no feature that is the keyword. -/
theorem not_keyword_of_parse_print : "defined" ∉ f.occurrences := by
  have closed := closed_of_parse_print assembled parsed same
  have stand := stand_of_parseTokens (parseTokens_scan_print assembled parsed same)
  have spent := stand.keywordsIn_le (scanned_scan _)
  rw [count_scan_print assembled.folded closed] at spent
  exact List.count_eq_zero.mp (by omega)

end

/-- Formulas that are put together from guards are read off their printed text exactly when all
their features are legible. -/
theorem parse_print_iff {f : Formula} (assembled : Assembled f) :
    (∃ g, Guard.parse f.print = .ok g ∧ g.formula = f) ↔ ∀ x ∈ f.occurrences, Legible x := by
  constructor
  · rintro ⟨g, parsed, same⟩ x occurs
    refine ⟨?_, closed_of_parse_print assembled parsed same x occurs⟩
    rintro rfl
    exact not_keyword_of_parse_print assembled parsed same occurs
  · exact parse_print_of_legible assembled.folded assembled.features

end Variability.Guard
