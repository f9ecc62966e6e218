import Variability.Proofs.Presence.Verdict
import Variability.Proofs.Tree.Reversal

/-!
Classifications of edits that are taken back. What was added is removed, what became stronger
becomes weaker, and a line can be classified exactly when it could be classified before. The two
edits ask the oracle the same questions, in another order.
-/

namespace Variability

namespace Formula

theorem featuresOf_append_comm (fs gs : List Formula) :
    featuresOf (fs ++ gs) = featuresOf (gs ++ fs) := by
  refine (ascending_foldr_insertName _).eq_of_mem_iff (ascending_foldr_insertName _) fun x => ?_
  change x ∈ featuresOf (fs ++ gs) ↔ x ∈ featuresOf (gs ++ fs)
  simp only [mem_featuresOf, List.mem_append, or_comm]

end Formula

def Relation.reversed (r : Relation) : Relation :=
  ⟨r.beforeImpliesAfter, r.afterImpliesBefore⟩

/-- The pattern of a line when the edit is taken back. -/
def EditPattern.reversed : EditPattern → EditPattern
  | addToPC => remFromPC
  | addWithMapping => remWithMapping
  | remFromPC => addToPC
  | remWithMapping => addWithMapping
  | specialization => generalization
  | generalization => specialization
  | reconfiguration => reconfiguration
  | refactoring => refactoring
  | untouched => untouched

def FeatureContext.reversed (c : FeatureContext) : FeatureContext :=
  ⟨c.after, c.before, c.literals⟩

def PatternMatch.reversed (found : PatternMatch) : PatternMatch where
  pattern := found.pattern.reversed
  nodeId := found.nodeId
  features := found.features.map FeatureContext.reversed

section Outcome

variable {ε α β γ : Type}

private theorem toOption_map (x : Except ε α) (f : α → β) :
    (x.map f).toOption = x.toOption.map f := by
  cases x <;> rfl

private theorem toOption_bind (x : Except ε α) (f : α → Except ε β) :
    (x >>= f).toOption = x.toOption.bind fun a => (f a).toOption := by
  cases x <;> rfl

private theorem toOption_mapM {f : α → Except ε β} {g : α → Except ε γ} {r : β → γ}
    (each : ∀ a, (g a).toOption = (f a).toOption.map r) (as : List α) :
    (as.mapM g).toOption = (as.mapM f).toOption.map (·.map r) := by
  induction as with
  | nil => rfl
  | cons a as ih =>
      rw [List.mapM_cons, List.mapM_cons, toOption_bind, toOption_bind, each, Option.bind_map,
        Option.map_bind]
      refine Option.bind_congr fun b _ => ?_
      rw [Function.comp_apply, Function.comp_apply, toOption_bind, toOption_bind, ih,
        Option.bind_map, Option.map_bind]
      rfl

end Outcome

namespace LineView

def reversed (v : LineView) : LineView where
  id := v.id
  kind := v.kind
  edit := v.edit.opposite
  parentEdit s := (v.parentEdit s.other).map Edit.opposite
  unmoved := v.unmoved
  condition s := (v.condition s.other).mapError PresenceError.reversed

/-- The elementary pattern of a line of code, before its features are looked for. -/
def pattern (v : LineView) (o : Oracle) : Except MatchError EditPattern :=
  match v.edit with
  | .added => .ok (if v.parentEdit .after = some .added then .addWithMapping else .addToPC)
  | .removed => .ok (if v.parentEdit .before = some .removed then .remWithMapping else .remFromPC)
  | .kept => (v.relation o).map (patternOf · v.unmoved)

theorem classify_eq (v : LineView) (o : Oracle) (code : v.kind = .code) :
    v.classify o EditPattern.elementary = (do
      let pattern ← v.pattern o
      let features ← v.features pattern
      return ⟨pattern, v.id, features⟩) := by
  unfold pattern
  cases edit : v.edit with
  | added =>
      by_cases branch : v.parentEdit .after = some .added <;>
        simp [classify, firstMatch, accepts, EditPattern.elementary, EditPattern.edit, code, edit,
          branch, bind, Except.bind, pure, Except.pure]
  | removed =>
      by_cases branch : v.parentEdit .before = some .removed <;>
        simp [classify, firstMatch, accepts, EditPattern.elementary, EditPattern.edit, code, edit,
          branch, bind, Except.bind, pure, Except.pure]
  | kept =>
      cases relation : v.relation o with
      | error e => exact classify_kept_of_error code edit relation
      | ok r =>
          obtain ⟨first, second⟩ := r
          cases first <;> cases second <;> cases moved : v.unmoved <;>
            simp [patternOf, classify, firstMatch, accepts, EditPattern.elementary,
              EditPattern.edit, EditPattern.acceptsRelation, code, edit, relation, moved, bind,
              Except.bind, pure, Except.pure, Except.map]

variable (v : LineView)

theorem relation_reversed (o : Oracle) :
    (v.reversed.relation o).toOption = (v.relation o).toOption.map Relation.reversed := by
  unfold relation Oracle.relationOf reversed
  simp only [Side.before_other, Side.after_other]
  cases v.condition .before with
  | error e => cases v.condition .after <;> rfl
  | ok f =>
      cases v.condition .after with
      | error e => rfl
      | ok g =>
          change (do
              let a ← (o.implies f g).mapError MatchError.oracle
              let b ← (o.implies g f).mapError MatchError.oracle
              return (⟨a, b⟩ : Relation)).toOption = Option.map Relation.reversed (do
                let a ← (o.implies g f).mapError MatchError.oracle
                let b ← (o.implies f g).mapError MatchError.oracle
                return (⟨a, b⟩ : Relation)).toOption
          cases o.implies g f <;> cases o.implies f g <;> rfl

theorem patternOf_reversed (r : Relation) (unmoved : Bool) :
    patternOf r.reversed unmoved = (patternOf r unmoved).reversed := by
  obtain ⟨first, second⟩ := r
  cases first <;> cases second <;> cases unmoved <;> rfl

theorem parentEdit_reversed_eq_iff (s : Side) (e : Edit) :
    v.reversed.parentEdit s = some e ↔ v.parentEdit s.other = some e.opposite := by
  change (v.parentEdit s.other).map Edit.opposite = some e ↔ _
  cases v.parentEdit s.other with
  | none => simp
  | some branch => cases branch <;> cases e <;> simp [Edit.opposite]

theorem pattern_reversed (o : Oracle) :
    (v.reversed.pattern o).toOption = (v.pattern o).toOption.map EditPattern.reversed := by
  unfold pattern
  have opposite : v.reversed.edit = v.edit.opposite := rfl
  rw [opposite]
  cases v.edit with
  | added =>
      simp only [Edit.opposite, parentEdit_reversed_eq_iff, Side.before_other]
      by_cases branch : v.parentEdit .after = some .added
      · rw [if_pos branch, if_pos branch]
        rfl
      · rw [if_neg branch, if_neg branch]
        rfl
  | removed =>
      simp only [Edit.opposite, parentEdit_reversed_eq_iff, Side.after_other]
      by_cases branch : v.parentEdit .before = some .removed
      · rw [if_pos branch, if_pos branch]
        rfl
      · rw [if_neg branch, if_neg branch]
        rfl
  | kept =>
      change ((v.reversed.relation o).map (patternOf · v.unmoved)).toOption =
        (((v.relation o).map (patternOf · v.unmoved)).toOption).map EditPattern.reversed
      rw [toOption_map, toOption_map, relation_reversed, Option.map_map, Option.map_map]
      exact congrArg (Option.map · _) (funext fun r => patternOf_reversed r v.unmoved)

theorem features_reversed (p : EditPattern) :
    (v.reversed.features p.reversed).toOption =
      (v.features p).toOption.map (·.map FeatureContext.reversed) := by
  have swap (f g : Formula) : Formula.featuresOf [f, g] = Formula.featuresOf [g, f] :=
    Formula.featuresOf_append_comm [f] [g]
  unfold features scopedCondition reversed
  simp only [Side.before_other, Side.after_other]
  cases p <;> cases v.condition .before <;> cases v.condition .after <;>
    simp [EditPattern.reversed, EditPattern.scope, FeatureContext.reversed, Except.mapError,
      Except.toOption, bind, Except.bind, pure, Except.pure, Functor.map, Except.map, swap]

theorem toOption_classify {v : LineView} (o : Oracle) (code : v.kind = .code) :
    (v.classify o EditPattern.elementary).toOption = (v.pattern o).toOption.bind fun p =>
      (v.features p).toOption.map (⟨p, v.id, ·⟩) := by
  rw [v.classify_eq o code, toOption_bind]
  exact Option.bind_congr fun p _ => toOption_map _ _

/-- A line can be classified exactly when it can be with the edit taken back, and its pattern is
the one that answers the other. -/
theorem classify_reversed (o : Oracle) :
    (v.reversed.classify o EditPattern.elementary).toOption =
      (v.classify o EditPattern.elementary).toOption.map PatternMatch.reversed := by
  by_cases code : v.kind = .code
  · rw [toOption_classify o code, toOption_classify (v := v.reversed) o code, pattern_reversed,
      Option.bind_map, Option.map_bind]
    refine Option.bind_congr fun p _ => ?_
    rw [Function.comp_apply, Function.comp_apply, features_reversed, Option.map_map, Option.map_map]
    rfl
  · have kind : v.reversed.kind = v.kind := rfl
    rw [classify, classify, kind, if_pos code, if_pos code]
    rfl

end LineView

theorem Tree.view_reversed (t : Tree) (i : Nat) : t.reversed.view i = (t.view i).reversed := by
  have parentEdit (s : Side) :
      (t.reversed.parent s i).map (fun p => (t.reversed.node p).edit) =
        ((t.parent s.other i).map fun p => (t.node p).edit).map Edit.opposite := by
    simp [Function.comp_def]
  rw [view, LineView.reversed, funext parentEdit, funext fun s => t.presenceCondition_reversed s i,
    node_reversed, unmoved_reversed]
  rfl

namespace Analysis

theorem classifyAll_runFresh (a : Analysis) (catalog : List EditPattern) :
    (a.classifyAll catalog).runFresh a.tree =
      a.tree.codeNodes.mapM fun i => (a.tree.view i).classify a.oracle catalog :=
  (Query.Answers.mapM (classify_answers catalog) a.tree.codeNodes).runFresh
    (Memory.agrees_blank a a.tree.size)

/-- The lines of a tree can be classified exactly when they can be with the edit taken back. -/
theorem classifyAll_reversed (t : Tree) (o : Oracle) :
    (((⟨t.reversed, o⟩ : Analysis).classifyAll EditPattern.elementary).runFresh
        t.reversed).toOption =
      (((⟨t, o⟩ : Analysis).classifyAll EditPattern.elementary).runFresh t).toOption.map
        (·.map PatternMatch.reversed) := by
  have fresh := classifyAll_runFresh ⟨t, o⟩ EditPattern.elementary
  have freshToo := classifyAll_runFresh ⟨t.reversed, o⟩ EditPattern.elementary
  rw [fresh, freshToo]
  simp only [t.codeNodes_reversed, t.view_reversed]
  exact toOption_mapM (fun i => (t.view i).classify_reversed o) t.codeNodes

end Analysis

end Variability
