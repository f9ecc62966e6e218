import Variability.EditPattern
import Variability.Proofs.Formula.Satisfiability
import Variability.Proofs.Presence.Memory

/-!
Classification without memory. What a catalog says about a line depends on a few facts about the
line and on its two presence conditions, not on what was asked before.
-/

namespace Variability

/-- What classification looks at. -/
structure LineView where
  id : Nat
  kind : NodeKind
  edit : Edit
  parentEdit : Side → Option Edit
  unmoved : Bool
  condition : Side → Except PresenceError Formula

def Tree.view (t : Tree) (i : Nat) : LineView where
  id := (t.node i).id
  kind := (t.node i).kind
  edit := (t.node i).edit
  parentEdit s := (t.parent s i).map fun p => (t.node p).edit
  unmoved := t.unmoved i
  condition s := t.presenceCondition s i

@[simp] theorem Tree.view_kind (t : Tree) (i : Nat) : (t.view i).kind = (t.node i).kind := rfl

@[simp] theorem Tree.view_edit (t : Tree) (i : Nat) : (t.view i).edit = (t.node i).edit := rfl

namespace LineView

def relation (v : LineView) (o : Oracle) : Except MatchError Relation :=
  o.relationOf (v.condition .before) (v.condition .after)

def accepts (v : LineView) (o : Oracle) (p : EditPattern) : Except MatchError Bool :=
  if v.edit ≠ p.edit then .ok false
  else
    match p with
    | .addToPC => .ok (v.parentEdit .after ≠ some .added)
    | .addWithMapping => .ok (v.parentEdit .after = some .added)
    | .remFromPC => .ok (v.parentEdit .before ≠ some .removed)
    | .remWithMapping => .ok (v.parentEdit .before = some .removed)
    | .untouched => .ok true
    | .specialization | .generalization | .reconfiguration | .refactoring => do
      let relation ← v.relation o
      return p.acceptsRelation relation v.unmoved

def scopedCondition (v : LineView) (p : EditPattern) (s : Side) :
    Except MatchError (Option Formula) :=
  if s ∈ p.scope then (some <$> v.condition s).mapError .presence else .ok none

def features (v : LineView) (p : EditPattern) : Except MatchError (Option FeatureContext) :=
  if p.scope.isEmpty then .ok none
  else do
    let before ← v.scopedCondition p .before
    let after ← v.scopedCondition p .after
    return some ⟨before, after, Formula.featuresOf (before.toList ++ after.toList)⟩

def firstMatch (v : LineView) (o : Oracle) : List EditPattern → Except MatchError PatternMatch
  | [] => .error (.noMatch v.id)
  | p :: ps => do
    let accepted ← v.accepts o p
    if accepted then
      let features ← v.features p
      return ⟨p, v.id, features⟩
    else
      v.firstMatch o ps

def classify (v : LineView) (o : Oracle) (catalog : List EditPattern) :
    Except MatchError PatternMatch :=
  if v.kind ≠ .code then .error (.notAnArtifact v.id) else v.firstMatch o catalog

theorem features_added {v : LineView} {f : Formula} (condition : v.condition .after = .ok f)
    {p : EditPattern} (scope : p.scope = [.after]) : ∃ features, v.features p = .ok features := by
  unfold features scopedCondition
  rw [scope, condition]
  exact ⟨_, rfl⟩

theorem features_removed {v : LineView} {f : Formula} (condition : v.condition .before = .ok f)
    {p : EditPattern} (scope : p.scope = [.before]) : ∃ features, v.features p = .ok features := by
  unfold features scopedCondition
  rw [scope, condition]
  exact ⟨_, rfl⟩

theorem classify_added {v : LineView} (o : Oracle) {f : Formula} (code : v.kind = .code)
    (added : v.edit = .added) (condition : v.condition .after = .ok f) :
    ∃ found, v.classify o EditPattern.elementary = .ok found ∧
      found.pattern =
        if v.parentEdit .after = some .added then .addWithMapping else .addToPC := by
  obtain ⟨toPC, hToPC⟩ := v.features_added condition (p := .addToPC) rfl
  obtain ⟨withMapping, hWithMapping⟩ := v.features_added condition (p := .addWithMapping) rfl
  by_cases branch : v.parentEdit .after = some .added
  · exact ⟨⟨.addWithMapping, v.id, withMapping⟩, by
      simp [classify, firstMatch, accepts, EditPattern.elementary, EditPattern.edit, code, added,
        branch, hWithMapping, bind, Except.bind, pure, Except.pure], by simp [branch]⟩
  · exact ⟨⟨.addToPC, v.id, toPC⟩, by
      simp [classify, firstMatch, accepts, EditPattern.elementary, EditPattern.edit, code, added,
        branch, hToPC, bind, Except.bind, pure, Except.pure], by simp [branch]⟩

theorem classify_removed {v : LineView} (o : Oracle) {f : Formula} (code : v.kind = .code)
    (removed : v.edit = .removed) (condition : v.condition .before = .ok f) :
    ∃ found, v.classify o EditPattern.elementary = .ok found ∧
      found.pattern =
        if v.parentEdit .before = some .removed then .remWithMapping else .remFromPC := by
  obtain ⟨fromPC, hFromPC⟩ := v.features_removed condition (p := .remFromPC) rfl
  obtain ⟨withMapping, hWithMapping⟩ := v.features_removed condition (p := .remWithMapping) rfl
  by_cases branch : v.parentEdit .before = some .removed
  · exact ⟨⟨.remWithMapping, v.id, withMapping⟩, by
      simp [classify, firstMatch, accepts, EditPattern.elementary, EditPattern.edit, code, removed,
        branch, hWithMapping, bind, Except.bind, pure, Except.pure], by simp [branch]⟩
  · exact ⟨⟨.remFromPC, v.id, fromPC⟩, by
      simp [classify, firstMatch, accepts, EditPattern.elementary, EditPattern.edit, code, removed,
        branch, hFromPC, bind, Except.bind, pure, Except.pure], by simp [branch]⟩

/-- The pattern of kept code whose conditions relate as given. -/
def patternOf (r : Relation) (unmoved : Bool) : EditPattern :=
  match r.afterImpliesBefore, r.beforeImpliesAfter with
  | true, false => .specialization
  | false, true => .generalization
  | false, false => .reconfiguration
  | true, true => if unmoved then .untouched else .refactoring

theorem features_ok {v : LineView} {f g : Formula} (before : v.condition .before = .ok f)
    (after : v.condition .after = .ok g) (p : EditPattern) :
    ∃ features, v.features p = .ok features := by
  unfold features scopedCondition
  rw [before, after]
  cases p <;> exact ⟨_, rfl⟩

theorem classify_kept {v : LineView} {o : Oracle} {f g : Formula} {r : Relation}
    (code : v.kind = .code) (kept : v.edit = .kept) (before : v.condition .before = .ok f)
    (after : v.condition .after = .ok g) (relation : v.relation o = .ok r) :
    ∃ found, v.classify o EditPattern.elementary = .ok found ∧
      found.pattern = patternOf r v.unmoved := by
  obtain ⟨features, hFeatures⟩ := features_ok before after (patternOf r v.unmoved)
  refine ⟨⟨patternOf r v.unmoved, v.id, features⟩, ?_, rfl⟩
  obtain ⟨first, second⟩ := r
  cases first <;> cases second <;> cases moved : v.unmoved <;>
    simp only [patternOf, moved] at hFeatures ⊢ <;>
    simp_all [classify, firstMatch, accepts, EditPattern.elementary, EditPattern.edit,
      EditPattern.acceptsRelation, bind, Except.bind, pure, Except.pure]

theorem classify_kept_of_error {v : LineView} {o : Oracle} {e : MatchError}
    (code : v.kind = .code) (kept : v.edit = .kept) (failed : v.relation o = .error e) :
    v.classify o EditPattern.elementary = .error e := by
  simp [classify, firstMatch, accepts, EditPattern.elementary, EditPattern.edit, code, kept,
    failed, bind, Except.bind]

theorem relation_cases {v : LineView} {f g : Formula} (before : v.condition .before = .ok f)
    (after : v.condition .after = .ok g) (o : Oracle) :
    (∃ a b, o.implies g f = .ok a ∧ o.implies f g = .ok b ∧ v.relation o = .ok ⟨a, b⟩) ∨
      ∃ e, v.relation o = .error (.oracle e) := by
  have asked : v.relation o = (do
      let a ← (o.implies g f).mapError .oracle
      let b ← (o.implies f g).mapError .oracle
      return ⟨a, b⟩) := by
    rw [relation, before, after]
    rfl
  rw [asked]
  cases o.implies g f with
  | error e => exact .inr ⟨e, rfl⟩
  | ok a =>
      cases o.implies f g with
      | error e => exact .inr ⟨e, rfl⟩
      | ok b => exact .inl ⟨a, b, rfl, rfl, rfl⟩

end LineView

/-- Two classifications find the same pattern, or the oracle gives up on one of them. -/
def SamePattern (r q : Except MatchError PatternMatch) : Prop :=
  (∃ found foundToo, r = .ok found ∧ q = .ok foundToo ∧ found.pattern = foundToo.pattern) ∨
    (∃ e, r = .error (.oracle e)) ∨ ∃ e, q = .error (.oracle e)

theorem LineView.samePattern {v w : LineView} (code : v.kind = .code) (codeToo : w.kind = .code)
    (kept : v.edit = .kept) (keptToo : w.edit = .kept) (unmoved : v.unmoved = w.unmoved)
    {f g : Side → Formula} (conditions : ∀ s, v.condition s = .ok (f s))
    (conditionsToo : ∀ s, w.condition s = .ok (g s))
    (same : ∀ s env, (f s).eval env = (g s).eval env) (limit : Nat) :
    SamePattern (v.classify (.bounded limit) EditPattern.elementary)
      (w.classify (.bounded limit) EditPattern.elementary) := by
  rcases relation_cases (conditions .before) (conditions .after) (.bounded limit) with
    ⟨a, b, first, second, relation⟩ | ⟨e, failed⟩
  · rcases relation_cases (conditionsToo .before) (conditionsToo .after) (.bounded limit) with
      ⟨c, d, firstToo, secondToo, relationToo⟩ | ⟨e, failed⟩
    · obtain ⟨found, classified, pattern⟩ :=
        classify_kept code kept (conditions .before) (conditions .after) relation
      obtain ⟨foundToo, classifiedToo, patternToo⟩ :=
        classify_kept codeToo keptToo (conditionsToo .before) (conditionsToo .after) relationToo
      have sameFirst : a = c := by
        rw [Bool.eq_iff_iff, Oracle.bounded_implies first, Oracle.bounded_implies firstToo]
        simp only [same]
      have sameSecond : b = d := by
        rw [Bool.eq_iff_iff, Oracle.bounded_implies second, Oracle.bounded_implies secondToo]
        simp only [same]
      refine .inl ⟨found, foundToo, classified, classifiedToo, ?_⟩
      rw [pattern, patternToo, sameFirst, sameSecond, unmoved]
    · exact .inr (.inr ⟨e, classify_kept_of_error codeToo keptToo failed⟩)
  · exact .inr (.inl ⟨e, classify_kept_of_error code kept failed⟩)

namespace Analysis

open Query

variable {a : Analysis}

theorem relation_answers (i : Nat) :
    Answers (Memory.Agrees a) (a.relation i) ((a.tree.view i).relation a.oracle) := by
  -- a relation that is not known is worked out, and then it is the one to remember
  have worked : Answers (Memory.Agrees a) (do
      let before ← (a.presence .before i).adapt .presence
      let after ← (a.presence .after i).adapt .presence
      let afterImpliesBefore ← (Query.ofExcept (a.oracle.implies after before)).adapt .oracle
      let beforeImpliesAfter ← (Query.ofExcept (a.oracle.implies before after)).adapt .oracle
      let found : Relation := ⟨afterImpliesBefore, beforeImpliesAfter⟩
      modify (·.rememberRelation i found)
      return found) ((a.tree.view i).relation a.oracle) := by
    refine ((presence_answers .before i).adapt _).bind fun before hBefore => ?_
    refine ((presence_answers .after i).adapt _).bind fun after hAfter => ?_
    refine ((answers_ofExcept _).adapt _).bind fun afterImpliesBefore hFirst => ?_
    refine ((answers_ofExcept _).adapt _).bind fun beforeImpliesAfter hSecond => ?_
    intro m agrees
    exact ⟨m.rememberRelation i ⟨afterImpliesBefore, beforeImpliesAfter⟩,
      agrees.rememberRelation (Oracle.relationOf_eq hBefore hAfter hFirst hSecond), rfl⟩
  intro m agrees
  rw [relation, run_get_bind]
  cases known : m.relation? i with
  | some r =>
      refine ⟨m, agrees, ?_⟩
      rw [LineView.relation, Tree.view, agrees.relations i r known]
      rfl
  | none => exact worked m agrees

theorem accepts_answers (p : EditPattern) (i : Nat) :
    Answers (Memory.Agrees a) (a.accepts p i) ((a.tree.view i).accepts a.oracle p) := by
  have kept : Answers (Memory.Agrees a)
      (do return p.acceptsRelation (← a.relation i) (a.tree.unmoved i))
      (do
        let relation ← (a.tree.view i).relation a.oracle
        return p.acceptsRelation relation (a.tree.view i).unmoved) :=
    (relation_answers i).bind fun relation _ => answers_pure _
  unfold accepts LineView.accepts
  rw [Tree.view_edit]
  split
  · exact answers_pure false
  · cases p
    case specialization | generalization | reconfiguration | refactoring => exact kept
    all_goals exact answers_pure _

theorem scopedCondition_answers (p : EditPattern) (s : Side) (i : Nat) :
    Answers (Memory.Agrees a) (a.scopedCondition p.scope s i)
      ((a.tree.view i).scopedCondition p s) := by
  unfold scopedCondition LineView.scopedCondition
  split
  · exact ((presence_answers s i).map some).adapt _
  · exact answers_pure none

theorem features_answers (p : EditPattern) (i : Nat) :
    Answers (Memory.Agrees a) (a.features p i) ((a.tree.view i).features p) := by
  unfold features scopedFeatures LineView.features
  split
  · exact answers_pure none
  · refine (scopedCondition_answers p .before i).bind fun before _ => ?_
    refine (scopedCondition_answers p .after i).bind fun after _ => ?_
    exact answers_pure _

theorem firstMatch_answers (catalog : List EditPattern) (i : Nat) :
    Answers (Memory.Agrees a) (a.firstMatch i catalog)
      ((a.tree.view i).firstMatch a.oracle catalog) := by
  induction catalog with
  | nil => exact answers_throw _
  | cons p catalog ih =>
      refine (accepts_answers p i).bind fun accepted _ => ?_
      cases accepted with
      | true => exact (features_answers p i).bind fun features _ => answers_pure _
      | false => exact ih

theorem classify_answers (catalog : List EditPattern) (i : Nat) :
    Answers (Memory.Agrees a) (a.classify catalog i)
      ((a.tree.view i).classify a.oracle catalog) := by
  unfold classify LineView.classify
  rw [Tree.view_kind]
  split
  · exact answers_throw _
  · exact firstMatch_answers catalog i

theorem classify_runFresh (catalog : List EditPattern) (i : Nat) :
    (a.classify catalog i).runFresh a.tree = (a.tree.view i).classify a.oracle catalog :=
  (classify_answers catalog i).runFresh (Memory.agrees_blank a a.tree.size)

end Analysis

abbrev Tree.analysis (t : Tree) (limit : Nat) : Analysis :=
  ⟨t, .bounded limit⟩

/-- What the elementary catalog says about a node when nothing was asked before. -/
def Analysis.classified (a : Analysis) (i : Nat) : Except MatchError PatternMatch :=
  (a.classify EditPattern.elementary i).runFresh a.tree

theorem Analysis.classified_eq (a : Analysis) (i : Nat) :
    a.classified i = (a.tree.view i).classify a.oracle EditPattern.elementary :=
  classify_runFresh EditPattern.elementary i

end Variability
