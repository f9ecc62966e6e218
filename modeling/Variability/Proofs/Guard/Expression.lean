import Variability.Proofs.Formula.Meaning
import Variability.Proofs.Guard.Literal
import Variability.Proofs.Guard.Parsing
import Variability.Proofs.Guard.Spacing

/-!
Boolean expressions of C. However such an expression is written, with whatever gaps between its
tokens, the guard that is read off it is true exactly where the expression is.
-/

namespace Variability.Guard

open Token

/-- A name that can be asked for. -/
structure Name where
  text : List Char
  identifier : isIdentifier text
  noKeyword : text ≠ "defined".toList

/-- How tightly the operators of an expression hold its operands together. -/
inductive Level where
  | primary
  | unary
  | conjunction
  | disjunction

/-- Boolean expressions by the grammar of C: operands of `&&` and `||` are taken from the left, and
`!` binds most tightly. -/
inductive Expression : Level → Type where
  | number (literal : Literal) : Expression .primary
  | name (x : Name) : Expression .primary
  | defined (x : Name) : Expression .primary
  | definedGroup (x : Name) : Expression .primary
  | group (e : Expression .disjunction) : Expression .primary
  | primary (e : Expression .primary) : Expression .unary
  | not (e : Expression .unary) : Expression .unary
  | unary (e : Expression .unary) : Expression .conjunction
  | and (e : Expression .conjunction) (f : Expression .unary) : Expression .conjunction
  | conjunction (e : Expression .conjunction) : Expression .disjunction
  | or (e : Expression .disjunction) (f : Expression .conjunction) : Expression .disjunction

namespace Expression

variable {level : Level}

def tokens {level : Level} : Expression level → List Token
  | number literal => [.number literal.text]
  | name x => [.identifier x.text]
  | defined x => [.identifier "defined".toList, .identifier x.text]
  | definedGroup x =>
    [.identifier "defined".toList, .leftParen, .identifier x.text, .rightParen]
  | group e => .leftParen :: (e.tokens ++ [.rightParen])
  | not e => .negation :: e.tokens
  | and e f => e.tokens ++ .conjunction :: f.tokens
  | or e f => e.tokens ++ .disjunction :: f.tokens
  | primary e | unary e | conjunction e => e.tokens

/-- The truth value under an assignment of the names. -/
def holds (env : String → Bool) {level : Level} : Expression level → Bool
  | number literal => literal.value ≠ 0
  | name x | defined x | definedGroup x => env (String.ofList x.text)
  | not e => !e.holds env
  | and e f => e.holds env && f.holds env
  | or e f => e.holds env || f.holds env
  | group e | primary e | unary e | conjunction e => e.holds env

theorem ordinary_tokens (e : Expression level) : ∀ t ∈ e.tokens, Ordinary t := by
  have keyword : Ordinary (.identifier "defined".toList) := .identifier (by decide)
  induction e with
  | number literal =>
      obtain ⟨c, cs, split, digit, rest⟩ := literal.text_shape
      simpa [tokens, split] using Ordinary.number digit rest
  | name x => simpa [tokens] using Ordinary.identifier x.identifier
  | defined x => simpa [tokens] using ⟨keyword, Ordinary.identifier x.identifier⟩
  | definedGroup x =>
      simpa [tokens] using
        ⟨keyword, Ordinary.leftParen, Ordinary.identifier x.identifier, Ordinary.rightParen⟩
  | group e ih =>
      intro t member
      rw [tokens, List.mem_cons, List.mem_append, List.mem_singleton] at member
      rcases member with rfl | inside | rfl
      · exact .leftParen
      · exact ih t inside
      · exact .rightParen
  | not e ih => exact List.forall_mem_cons.mpr ⟨.negation, ih⟩
  | and e f ihLeft ihRight =>
      exact List.forall_mem_append.mpr ⟨ihLeft, List.forall_mem_cons.mpr ⟨.conjunction, ihRight⟩⟩
  | or e f ihLeft ihRight =>
      exact List.forall_mem_append.mpr ⟨ihLeft, List.forall_mem_cons.mpr ⟨.disjunction, ihRight⟩⟩
  | primary e ih | unary e ih | conjunction e ih => exact ih

end Expression

/-! Operands are derived from the right and written from the left. -/

theorem Reads.andThen : ∀ {ts us : List Token} {fs : List Formula} {g : Formula},
    Reads .conjuncts ts fs → Reads .unary us g →
      Reads .conjuncts (ts ++ .conjunction :: us) (fs ++ [g])
  | _, _, _, _, .lastConjunct first, last => .conjunct first (.lastConjunct last)
  | _, _, _, _, .conjunct first further, last => by
      rw [List.append_assoc]
      exact .conjunct first (further.andThen last)

theorem Reads.orElse : ∀ {ts us : List Token} {fs gs : List Formula},
    Reads .disjuncts ts fs → Reads .conjuncts us gs →
      Reads .disjuncts (ts ++ .disjunction :: us) (fs ++ [.conj gs])
  | _, _, _, _, .lastDisjunct first, last => .disjunct first (.lastDisjunct last)
  | _, _, _, _, .disjunct first further, last => by
      rw [List.append_assoc]
      exact .disjunct first (further.orElse last)

def Level.role : Level → Role
  | .primary => .primary
  | .unary => .unary
  | .conjunction => .conjuncts
  | .disjunction => .disjuncts

/-- The truth value of what is read. -/
def Role.eval (env : String → Bool) : (role : Role) → role.Result → Bool
  | .disjuncts, fs => fs.any (Formula.eval env)
  | .conjuncts, fs => fs.all (Formula.eval env)
  | .unary, f | .primary, f => Formula.eval env f

theorem Role.eval_andThen (env : String → Bool) (fs : List Formula) (g : Formula) :
    Role.conjuncts.eval env (fs ++ [g]) =
      (Role.conjuncts.eval env fs && Role.unary.eval env g) := by
  simp [Role.eval]

theorem Role.eval_orElse (env : String → Bool) (fs gs : List Formula) :
    Role.disjuncts.eval env (fs ++ [Formula.conj gs]) =
      (Role.disjuncts.eval env fs || Role.conjuncts.eval env gs) := by
  simp [Role.eval]

private theorem eval_var (env : String → Bool) (x : String) :
    Role.primary.eval env (.var x) = env x := by
  simp [Role.eval, Formula.eval]

/-- The tokens of an expression are derived with its truth values. -/
theorem Expression.reads {level : Level} (e : Expression level) :
    ∃ result, Reads level.role e.tokens result ∧
      ∀ env, level.role.eval env result = e.holds env := by
  induction e with
  | number literal =>
      refine ⟨_, .number literal.integerValue?_text, fun env => ?_⟩
      by_cases zero : literal.value = 0
      · simp [Level.role, Role.eval, holds, zero]
      · simp [Level.role, Role.eval, holds, zero]
  | name x => exact ⟨_, .name x.noKeyword, fun env => by rw [holds]; exact eval_var env _⟩
  | defined x => exact ⟨_, .defined x.text, fun env => by rw [holds]; exact eval_var env _⟩
  | definedGroup x =>
      exact ⟨_, .definedGroup x.text, fun env => by rw [holds]; exact eval_var env _⟩
  | group e ih =>
      obtain ⟨fs, reads, same⟩ := ih
      exact ⟨_, .group reads, fun env => (Formula.eval_disj env fs).trans (same env)⟩
  | primary e ih =>
      obtain ⟨f, reads, same⟩ := ih
      exact ⟨f, .primary reads, same⟩
  | not e ih =>
      obtain ⟨f, reads, same⟩ := ih
      exact ⟨_, .negation reads, fun env =>
        (Formula.eval_neg env f).trans (congrArg Bool.not (same env))⟩
  | unary e ih =>
      obtain ⟨f, reads, same⟩ := ih
      exact ⟨[f], .lastConjunct reads, fun env => (Bool.and_true _).trans (same env)⟩
  | and e f ihLeft ihRight =>
      obtain ⟨fs, readsLeft, sameLeft⟩ := ihLeft
      obtain ⟨g, readsRight, sameRight⟩ := ihRight
      refine ⟨_, readsLeft.andThen readsRight, fun env => ?_⟩
      rw [holds, ← sameLeft env, ← sameRight env]
      exact Role.eval_andThen env fs g
  | conjunction e ih =>
      obtain ⟨fs, reads, same⟩ := ih
      refine ⟨_, .lastDisjunct reads, fun env => ?_⟩
      rw [holds, ← same env]
      exact Role.eval_orElse env [] fs
  | or e f ihLeft ihRight =>
      obtain ⟨fs, readsLeft, sameLeft⟩ := ihLeft
      obtain ⟨gs, readsRight, sameRight⟩ := ihRight
      refine ⟨_, readsLeft.orElse readsRight, fun env => ?_⟩
      rw [holds, ← sameLeft env, ← sameRight env]
      exact Role.eval_orElse env fs gs

/-- However a boolean expression is written, it is read as a guard, and the guard is true where
the expression is. -/
theorem parse_of_spaced (e : Expression .disjunction) {cs : List Char}
    (spaced : Spaced e.tokens cs) :
    ∃ g, Guard.parse cs = .ok g ∧ ∀ env, g.formula.eval env = e.holds env := by
  obtain ⟨fs, reads, same⟩ := e.reads
  have read : parseTokens (Guard.tokens cs) = .ok (.disj fs) := by
    rw [spaced.tokens_eq e.ordinary_tokens]
    exact parseTokens_eq_ok_iff.mpr ⟨fs, reads, rfl⟩
  refine ⟨_, by rw [Guard.parse, read], fun env => ?_⟩
  exact (Formula.eval_disj env fs).trans (same env)

theorem parse_of_spaced_negation :
    let x : Name := ⟨['A'], by decide, by decide⟩
    let zero : Literal :=
      ⟨.hexadecimal false, [⟨0, false⟩], ['L'], by decide, by decide, nofun,
        by simp [suffixLetters], by decide⟩
    let e : Expression .disjunction :=
      .or (.conjunction (.unary (.not (.primary (.defined x))))) (.unary (.primary (.number zero)))
    let cs := "!defined/**/A||0x0L//".toList
    Spaced e.tokens cs ∧
      ∃ g, Guard.parse cs = .ok g ∧ ∀ env, g.formula.eval env = e.holds env := by
  intro x zero e cs
  have written : Spaced e.tokens cs :=
    .token .nothing nofun <| .token .nothing (by rintro - _ ⟨⟩; rfl) <|
      .token (@Gap.comment [] [] (by decide) .nothing) (by rintro - _ ⟨⟩; rfl) <|
        .token .nothing nofun <| .token .nothing (by rintro - _ ⟨⟩; rfl) <| .remark .nothing []
  exact ⟨written, parse_of_spaced e written⟩

end Variability.Guard
