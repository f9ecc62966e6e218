import Variability.Proofs.Formula.Folded
import Variability.Proofs.Guard.Parsing
import Variability.Proofs.Guard.Reparse

/-!
The features of guards. A guard is read as a folded formula, and each of its features is a name or
the normal form of an operand without boolean meaning. They stand in the tokens of the guard in the
order in which they occur in the formula.
-/

namespace Variability.Guard

open Token

open Formula (Folded occurrencesAll)

/-- A feature as guards have it: a name, or the normal form of an operand without boolean
meaning. -/
inductive Feature : String → Prop where
  | name {x : String} (identifier : isIdentifier x.toList) : Feature x
  | operand {ts : List Token} (spelled : Spelled ts) (reads : Reads .primary ts (atom ts)) :
      Feature (String.ofList (render ts))

/-- Formulas that are put together from guards. -/
structure Assembled (f : Formula) : Prop where
  folded : Folded f
  features : ∀ x ∈ f.occurrences, Feature x

namespace Assembled

theorem tt : Assembled .tt :=
  ⟨.tt, by simp [Formula.occurrences]⟩

theorem neg {f : Formula} (assembled : Assembled f) : Assembled f.neg :=
  ⟨assembled.folded.neg, by simpa [Formula.occurrences_neg] using assembled.features⟩

theorem conj {fs : List Formula} (assembled : ∀ f ∈ fs, Assembled f) : Assembled (.conj fs) := by
  refine ⟨.conj fun f member => (assembled f member).folded, fun x occurs => ?_⟩
  rcases Formula.occurrences_conj fs with all | none
  · rw [all, Formula.occurrencesAll_eq_flatMap] at occurs
    obtain ⟨f, member, inside⟩ := List.mem_flatMap.mp occurs
    exact (assembled f member).features x inside
  · rw [none] at occurs
    cases occurs

end Assembled

/-! Where the features of a guard stand. -/

/-- Features that stand in tokens, from left to right. A constant that a formula is folded to has
none. -/
inductive Stand : List Token → List String → Prop where
  | nowhere (ts : List Token) : Stand ts []
  | join {ts us : List Token} {xs ys : List String} (t : Token) (left : Stand ts xs)
      (right : Stand us ys) : Stand (ts ++ t :: us) (xs ++ ys)
  | name {name : List Char} (plain : name ≠ "defined".toList) :
      Stand [.identifier name] [String.ofList name]
  | defined (name : List Char) :
      Stand [.identifier "defined".toList, .identifier name] [String.ofList name]
  | definedGroup (name : List Char) : Stand (definedTokens name) [String.ofList name]
  | operand {ts : List Token} (reads : Reads .primary ts (atom ts))
      (other : ts ≠ [.identifier "defined".toList]) : Stand ts [String.ofList (render ts)]

namespace Stand

variable {ts : List Token} {xs : List String}

theorem behind (t : Token) (stand : Stand ts xs) : Stand (t :: ts) xs :=
  .join t (.nowhere []) stand

theorem before (t : Token) (stand : Stand ts xs) : Stand (ts ++ [t]) xs := by
  have joined := Stand.join t stand (.nowhere [])
  rwa [List.append_nil] at joined

theorem conj {fs : List Formula} (stand : Stand ts (occurrencesAll fs)) :
    Stand ts (Formula.conj fs).occurrences := by
  rcases Formula.occurrences_conj fs with all | none
  · rwa [all]
  · rw [none]
    exact .nowhere ts

theorem disj {fs : List Formula} (stand : Stand ts (occurrencesAll fs)) :
    Stand ts (Formula.disj fs).occurrences := by
  rcases Formula.occurrences_disj fs with all | none
  · rwa [all]
  · rw [none]
    exact .nowhere ts

end Stand

/-- The formulas that a run of tokens is read as. -/
def Role.formulas : (role : Role) → role.Result → List Formula
  | .disjuncts, fs | .conjuncts, fs => fs
  | .unary, f | .primary, f => [f]

namespace Reads

variable {role : Role} {ts : List Token} {result : role.Result}

theorem folded (reads : Reads role ts result) : ∀ f ∈ role.formulas result, Folded f := by
  induction reads with
  | lastDisjunct _ ih => simpa [Role.formulas] using Folded.conj ih
  | disjunct _ _ first further =>
      exact List.forall_mem_cons.mpr ⟨.conj first, further⟩
  | lastConjunct _ ih | primary _ ih => exact ih
  | conjunct _ _ first further =>
      exact List.forall_mem_cons.mpr ⟨first _ (by simp [Role.formulas]), further⟩
  | negation _ ih => simpa [Role.formulas] using (ih _ (by simp [Role.formulas])).neg
  | group _ ih => simpa [Role.formulas] using Folded.disj ih
  | defined | definedGroup | name | atom | operation =>
      simpa [Role.formulas, Guard.atom] using Folded.var _
  | @number literal value known =>
      by_cases zero : value = 0
      · simpa [Role.formulas, zero] using Folded.ff
      · simpa [Role.formulas, zero] using Folded.tt

theorem stand (reads : Reads role ts result) :
    Stand ts (occurrencesAll (role.formulas result)) := by
  induction reads with
  | lastDisjunct _ ih => simpa [Role.formulas, occurrencesAll] using ih.conj
  | disjunct _ _ first further => exact .join _ first.conj further
  | lastConjunct _ ih | primary _ ih => exact ih
  | conjunct _ _ first further =>
      simpa [Role.formulas, occurrencesAll] using Stand.join .conjunction first further
  | negation _ ih =>
      simpa [Role.formulas, occurrencesAll, Formula.occurrences_neg] using ih.behind _
  | group _ ih => simpa [Role.formulas, occurrencesAll] using (ih.disj.before _).behind _
  | defined name => exact .defined name
  | definedGroup name => exact .definedGroup name
  | name plain => exact .name plain
  | @number literal value known =>
      by_cases zero : value = 0
      · simpa [Role.formulas, occurrencesAll, Formula.occurrences, zero] using Stand.nowhere _
      · simpa [Role.formulas, occurrencesAll, Formula.occurrences, zero] using Stand.nowhere _
  | atom opens whole =>
      refine .operand (.atom opens whole) ?_
      rintro rfl
      cases opens
  | operation operand whole =>
      refine .operand (.operation operand whole) fun same => operand.ne_nil ?_
      have length := congrArg List.length same
      rw [List.length_append, List.length_cons, List.length_singleton] at length
      exact List.length_eq_zero_iff.mp (by omega)

end Reads

/-! Features of scanned tokens. -/

namespace Token

theorem Whole.isIdentifier {name : List Char} (whole : Whole (.identifier name)) :
    isIdentifier name := by
  generalize same : Token.identifier name = t at whole
  cases whole with
  | identifier start rest =>
      cases same
      simpa [Variability.isIdentifier, start] using rest
  | number | quoted => cases same
  | pair pair =>
      unfold ofPair? at pair
      split at pair <;> cases pair <;> cases same
  | symbol =>
      unfold ofChar at same
      split at same <;> cases same

namespace Scanned

theorem of_whole {ts : List Token} (whole : ∀ t ∈ ts, Whole t) : Scanned ts := by
  induction ts with
  | nil => exact .nil
  | cons t ts ih => exact .cons (whole t (by simp)) (ih fun u member => whole u (by simp [member]))

/-- Tokens that others follow end of themselves. -/
theorem split {ts us : List Token} {t : Token} (scanned : Scanned (ts ++ t :: us)) :
    (∀ u ∈ ts, Whole u) ∧ Scanned us := by
  induction ts with
  | nil =>
      cases scanned with
      | unclosed => exact ⟨nofun, .nil⟩
      | cons _ rest => exact ⟨nofun, rest⟩
  | cons u ts ih =>
      generalize same : u :: ts ++ t :: us = all at scanned
      cases scanned with
      | nil => cases same
      | unclosed => simp at same
      | cons whole rest =>
          obtain ⟨rfl, rfl⟩ := List.cons.inj same
          obtain ⟨others, behind⟩ := ih rest
          exact ⟨List.forall_mem_cons.mpr ⟨whole, others⟩, behind⟩

theorem isIdentifier {ts : List Token} (scanned : Scanned ts) {name : List Char}
    (member : .identifier name ∈ ts) : isIdentifier name := by
  induction scanned with
  | nil => cases member
  | unclosed => simp at member
  | cons whole _ ih =>
      rcases List.mem_cons.mp member with rfl | later
      · exact whole.isIdentifier
      · exact ih later

end Scanned

end Token

theorem Spelled.split {ts us : List Token} {t : Token} (spelled : Spelled (ts ++ t :: us)) :
    Spelled ts ∧ Spelled us := by
  obtain ⟨whole, behind⟩ := spelled.scanned.split
  exact ⟨⟨.of_whole whole, fun u member => spelled.commentless u (by simp [member])⟩,
    ⟨behind, fun u member => spelled.commentless u (by simp [member])⟩⟩

theorem Stand.features {ts : List Token} {xs : List String} (stand : Stand ts xs)
    (spelled : Spelled ts) : ∀ x ∈ xs, Feature x := by
  induction stand with
  | nowhere => exact nofun
  | join t _ _ first further =>
      obtain ⟨before, behind⟩ := spelled.split
      exact List.forall_mem_append.mpr ⟨first before, further behind⟩
  | operand reads => simpa using Feature.operand spelled reads
  | @name name | defined name | definedGroup name =>
      have identifier : isIdentifier name := spelled.scanned.isIdentifier (by simp [definedTokens])
      simpa using Feature.name (by simpa using identifier)

theorem stand_of_parseTokens {ts : List Token} {f : Formula} (read : parseTokens ts = .ok f) :
    Stand ts f.occurrences := by
  obtain ⟨fs, reads, rfl⟩ := parseTokens_eq_ok_iff.mp read
  exact reads.stand.disj

theorem folded_of_parseTokens {ts : List Token} {f : Formula} (read : parseTokens ts = .ok f) :
    Folded f := by
  obtain ⟨fs, reads, rfl⟩ := parseTokens_eq_ok_iff.mp read
  exact .disj reads.folded

theorem assembled_of_parse {cs : List Char} {g : Guard} (parsed : Guard.parse cs = .ok g) :
    Assembled g.formula := by
  rw [Guard.parse] at parsed
  split at parsed
  · cases parsed
  · next f readAs =>
    cases parsed
    exact ⟨folded_of_parseTokens readAs,
      (stand_of_parseTokens readAs).features (spelled_tokens cs)⟩

end Variability.Guard
