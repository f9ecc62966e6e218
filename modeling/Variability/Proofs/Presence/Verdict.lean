import Variability.Proofs.Formula.Oracle
import Variability.Proofs.Presence.Classification

/-!
What a classification says. The pattern of a line is told from its edit, from the branch it is in,
from what its conditions before and after the edit entail and from whether it was moved; the
features are those of the conditions that the pattern is about. None of this depends on the
questions that came before.
-/

namespace Variability

/-- Every assignment that makes the first formula true makes the second true. -/
def Formula.Entails (f g : Formula) : Prop :=
  ∀ env, f.eval env = true → g.eval env = true

theorem Formula.forall_eval_eq_iff_entails {f g : Formula} :
    (∀ env, f.eval env = g.eval env) ↔ f.Entails g ∧ g.Entails f := by
  constructor
  · intro same
    exact ⟨fun env holds => same env ▸ holds, fun env holds => same env ▸ holds⟩
  · rintro ⟨forth, back⟩ env
    rw [Bool.eq_iff_iff]
    exact ⟨forth env, back env⟩

/-- The pattern of a kept line, given its conditions and whether it or a branch around it was
moved. -/
structure KeptAs (before after : Formula) (moved : Prop) (p : EditPattern) : Prop where
  specialization : p = .specialization ↔ after.Entails before ∧ ¬ before.Entails after
  generalization : p = .generalization ↔ before.Entails after ∧ ¬ after.Entails before
  reconfiguration : p = .reconfiguration ↔ ¬ before.Entails after ∧ ¬ after.Entails before
  refactoring : p = .refactoring ↔ (∀ env, before.eval env = after.eval env) ∧ moved
  untouched : p = .untouched ↔ (∀ env, before.eval env = after.eval env) ∧ ¬ moved

theorem keptAs_patternOf {before after : Formula} {r : Relation} {moved : Prop} {unmoved : Bool}
    (first : r.afterImpliesBefore ↔ after.Entails before)
    (second : r.beforeImpliesAfter ↔ before.Entails after) (still : unmoved ↔ ¬ moved) :
    KeptAs before after moved (LineView.patternOf r unmoved) := by
  obtain ⟨a, b⟩ := r
  dsimp only at first second
  constructor <;>
    cases a <;> cases b <;> cases unmoved <;>
      simp_all [LineView.patternOf, Formula.forall_eval_eq_iff_entails]

/-- The features of a match are the conditions in its scope and the names that stand in them. -/
structure PatternMatch.Reports (found : PatternMatch)
    (condition : Side → Except PresenceError Formula) : Prop where
  absent : found.features = none ↔ found.pattern.scope = []
  before : ∀ c ∈ found.features, ∀ f,
    c.before = some f ↔ .before ∈ found.pattern.scope ∧ condition .before = .ok f
  after : ∀ c ∈ found.features, ∀ f,
    c.after = some f ↔ .after ∈ found.pattern.scope ∧ condition .after = .ok f
  literals : ∀ c ∈ found.features, ∀ x,
    x ∈ c.literals ↔ ∃ s ∈ found.pattern.scope, ∃ f, condition s = .ok f ∧ f.Mentions x
  ascending : ∀ c ∈ found.features, c.literals.Pairwise (· < ·)

namespace Oracle

theorem bounded_implies_error {limit : Nat} {f g : Formula} {e : OracleError}
    (failed : (bounded limit).implies f g = .error e) :
    ∃ n, e = .tooManyVariables n limit ∧ (limit < n ∨ 64 ≤ n) := by
  unfold implies at failed
  split at failed
  · cases failed
  · rw [bounded_satisfiable_eq] at failed
    split at failed
    · next exceeds =>
      cases failed
      exact ⟨_, rfl, exceeds⟩
    · cases failed

end Oracle

namespace LineView

variable {v : LineView} {o : Oracle} {limit : Nat}

theorem firstMatch_ok {catalog : List EditPattern} {found : PatternMatch}
    (matched : v.firstMatch o catalog = .ok found) :
    found.nodeId = v.id ∧ v.features found.pattern = .ok found.features := by
  induction catalog with
  | nil => cases matched
  | cons p catalog ih =>
      rw [firstMatch] at matched
      cases accepted : v.accepts o p with
      | error e =>
          rw [accepted] at matched
          cases matched
      | ok accepts =>
          rw [accepted] at matched
          cases accepts with
          | false => exact ih matched
          | true =>
              cases features : v.features p with
              | error e =>
                  simp [features, bind, Except.bind] at matched
              | ok context =>
                  simp only [features, bind, Except.bind, if_true] at matched
                  obtain rfl := Except.ok.inj matched
                  exact ⟨rfl, features⟩

theorem scopedCondition_ok {p : EditPattern} {s : Side} {c : Option Formula}
    (asked : v.scopedCondition p s = .ok c) (f : Formula) :
    c = some f ↔ s ∈ p.scope ∧ v.condition s = .ok f := by
  unfold scopedCondition at asked
  split at asked
  · next inScope =>
    cases condition : v.condition s with
    | error e =>
        rw [condition] at asked
        cases asked
    | ok g =>
        rw [condition] at asked
        obtain rfl : some g = c := Except.ok.inj asked
        simp [inScope]
  · next outside =>
    obtain rfl := Except.ok.inj asked
    simp [outside]

theorem mem_featuresOf_scoped {p : EditPattern} {b a : Option Formula}
    (before : v.scopedCondition p .before = .ok b) (after : v.scopedCondition p .after = .ok a)
    {x : String} : x ∈ Formula.featuresOf (b.toList ++ a.toList) ↔
      ∃ s ∈ p.scope, ∃ f, v.condition s = .ok f ∧ f.Mentions x := by
  rw [Formula.mem_featuresOf]
  simp only [List.mem_append, Option.mem_toList, scopedCondition_ok before,
    scopedCondition_ok after]
  constructor
  · rintro ⟨f, ⟨inScope, condition⟩ | ⟨inScope, condition⟩, mentions⟩
    · exact ⟨_, inScope, f, condition, mentions⟩
    · exact ⟨_, inScope, f, condition, mentions⟩
  · rintro ⟨_ | _, inScope, f, condition, mentions⟩
    · exact ⟨f, .inl ⟨inScope, condition⟩, mentions⟩
    · exact ⟨f, .inr ⟨inScope, condition⟩, mentions⟩

theorem reports_of_features {found : PatternMatch}
    (features : v.features found.pattern = .ok found.features) : found.Reports v.condition := by
  unfold LineView.features at features
  split at features
  · next scope =>
    have nothing := (Except.ok.inj features).symm
    have empty := List.isEmpty_iff.mp scope
    constructor <;> simp [nothing, empty]
  · next scope =>
    have present : found.pattern.scope ≠ [] := by simpa using scope
    cases before : v.scopedCondition found.pattern .before with
    | error e =>
        rw [before] at features
        cases features
    | ok b =>
        cases after : v.scopedCondition found.pattern .after with
        | error e =>
            rw [before, after] at features
            cases features
        | ok a =>
            rw [before, after] at features
            have context := (Except.ok.inj features).symm
            refine ⟨by simp [context, present], ?_, ?_, ?_, ?_⟩ <;> intro c member <;>
              obtain rfl := Option.some.inj (context.symm.trans member)
            · exact scopedCondition_ok before
            · exact scopedCondition_ok after
            · exact fun x => mem_featuresOf_scoped before after
            · exact Formula.ascending_foldr_insertName _

theorem classify_ok {catalog : List EditPattern} {found : PatternMatch}
    (classified : v.classify o catalog = .ok found) :
    found.nodeId = v.id ∧ found.Reports v.condition := by
  unfold classify at classified
  split at classified
  · cases classified
  · obtain ⟨id, features⟩ := firstMatch_ok classified
    exact ⟨id, reports_of_features features⟩

theorem relation_bounded_error {f g : Formula} {e : MatchError}
    (before : v.condition .before = .ok f) (after : v.condition .after = .ok g)
    (failed : v.relation (.bounded limit) = .error e) :
    ∃ n, e = .oracle (.tooManyVariables n limit) ∧ (limit < n ∨ 64 ≤ n) := by
  have gaveUp {f g : Formula} {e' : OracleError}
      (failed : (Oracle.bounded limit).implies f g = .error e') (same : e = .oracle e') :
      ∃ n, e = .oracle (.tooManyVariables n limit) ∧ (limit < n ∨ 64 ≤ n) := by
    obtain ⟨n, rfl, exceeds⟩ := Oracle.bounded_implies_error failed
    exact ⟨n, same, exceeds⟩
  have asked : v.relation (.bounded limit) = (do
      let a ← ((Oracle.bounded limit).implies g f).mapError .oracle
      let b ← ((Oracle.bounded limit).implies f g).mapError .oracle
      return ⟨a, b⟩) := by
    rw [relation, before, after]
    rfl
  rw [asked] at failed
  cases first : (Oracle.bounded limit).implies g f with
  | error e' =>
      rw [first] at failed
      exact gaveUp first (Except.error.inj failed).symm
  | ok a =>
      cases second : (Oracle.bounded limit).implies f g with
      | error e' =>
          rw [first, second] at failed
          exact gaveUp second (Except.error.inj failed).symm
      | ok b =>
          rw [first, second] at failed
          cases failed

theorem classify_kept_cases (limit : Nat) {f g : Formula} (code : v.kind = .code)
    (kept : v.edit = .kept) (before : v.condition .before = .ok f)
    (after : v.condition .after = .ok g) {moved : Prop} (still : v.unmoved ↔ ¬ moved) :
    (∃ found, v.classify (.bounded limit) EditPattern.elementary = .ok found ∧
        KeptAs f g moved found.pattern) ∨
      ∃ n, v.classify (.bounded limit) EditPattern.elementary =
          .error (.oracle (.tooManyVariables n limit)) ∧ (limit < n ∨ 64 ≤ n) := by
  rcases relation_cases before after (.bounded limit) with
    ⟨a, b, first, second, relation⟩ | ⟨e, failed⟩
  · obtain ⟨found, classified, pattern⟩ := classify_kept code kept before after relation
    refine .inl ⟨found, classified, ?_⟩
    rw [pattern]
    exact keptAs_patternOf (Oracle.bounded_implies first) (Oracle.bounded_implies second) still
  · obtain ⟨n, same, exceeds⟩ := relation_bounded_error before after failed
    refine .inr ⟨n, ?_, exceeds⟩
    rw [classify_kept_of_error code kept failed, same]

end LineView

namespace Query

/-- The answer to a question when some things are remembered already. -/
def answerIn {ε α : Type} (q : Query ε α) (m : Memory) : Except ε α :=
  (q.run.run m).1

/-- What is remembered after a question. -/
def memoryAfter {ε α : Type} (q : Query ε α) (m : Memory) : Memory :=
  (q.run.run m).2

variable {ε α : Type} {P : Memory → Prop} {q : Query ε α} {r : Except ε α} {m : Memory}

theorem Answers.answerIn_eq (answers : Answers P q r) (holds : P m) : q.answerIn m = r := by
  obtain ⟨m', -, run⟩ := answers m holds
  rw [answerIn, run]

theorem Answers.holds_memoryAfter (answers : Answers P q r) (holds : P m) :
    P (q.memoryAfter m) := by
  obtain ⟨m', holds', run⟩ := answers m holds
  rwa [memoryAfter, run]

end Query

namespace Analysis

/-- What an analysis can remember, whatever it was asked before. -/
inductive Remembers (a : Analysis) : Memory → Prop
  | blank : a.Remembers (.blank a.tree.size)
  | presence {m : Memory} (s : Side) (i : Nat) :
      a.Remembers m → a.Remembers ((a.presence s i).memoryAfter m)
  | relation {m : Memory} (i : Nat) :
      a.Remembers m → a.Remembers ((a.relation i).memoryAfter m)
  | classify {m : Memory} (catalog : List EditPattern) (i : Nat) :
      a.Remembers m → a.Remembers ((a.classify catalog i).memoryAfter m)

theorem Remembers.agrees {a : Analysis} {m : Memory} (remembers : a.Remembers m) :
    m.Agrees a := by
  induction remembers with
  | blank => exact Memory.agrees_blank a a.tree.size
  | presence s i _ agrees => exact (presence_answers s i).holds_memoryAfter agrees
  | relation i _ agrees => exact (relation_answers i).holds_memoryAfter agrees
  | classify catalog i _ agrees => exact (classify_answers catalog i).holds_memoryAfter agrees

theorem Remembers.classify_eq {a : Analysis} {m : Memory} (remembers : a.Remembers m)
    (catalog : List EditPattern) (i : Nat) :
    (a.classify catalog i).answerIn m = (a.tree.view i).classify a.oracle catalog :=
  (classify_answers catalog i).answerIn_eq remembers.agrees

end Analysis

end Variability
