import Variability.Criterion
import Variability.Proofs.Presence.Classification
import Variability.Rule

/-!
Conversations with an analysis. Whatever was asked before and whatever failed, a question gets the
answer that it would get as the first: what is remembered saves work and shows nowhere else. This
is so for every tree, also where parents go round in a circle, and for catalogs of any rules that
learn about conditions and relations by asking for them.
-/

namespace Variability

namespace Query

variable {ε α β : Type} {P : Memory → Prop}

/-- The result is the same from every memory with the property, and the property stays. -/
def Steady (P : Memory → Prop) (q : StateM Memory α) : Prop :=
  ∃ r, ∀ m, P m → ∃ m', P m' ∧ q.run m = (r, m')

theorem Answers.steady {q : Query ε α} {r : Except ε α} (answers : Answers P q r) :
    Steady P q.run :=
  ⟨r, answers⟩

theorem steady_pure (a : α) : Steady P (pure a : StateM Memory α) :=
  ⟨a, fun m holds => ⟨m, holds, rfl⟩⟩

theorem Steady.bind {q : StateM Memory α} {f : α → StateM Memory β} (first : Steady P q)
    (second : ∀ a, Steady P (f a)) : Steady P (q >>= f) := by
  obtain ⟨a, first⟩ := first
  obtain ⟨b, second⟩ := second a
  refine ⟨b, fun m holds => ?_⟩
  obtain ⟨m', holds', run⟩ := first m holds
  obtain ⟨m'', holds'', runRest⟩ := second m' holds'
  refine ⟨m'', holds'', ?_⟩
  rw [StateT.run_bind, run]
  exact runRest

theorem Steady.bindExcept {q : Query ε α} {f : α → Query ε β} (first : Steady P q.run)
    (second : ∀ a, Steady P (f a).run) : Steady P (q >>= f).run := by
  rw [ExceptT.run_bind]
  refine first.bind fun r => ?_
  cases r with
  | error e => exact steady_pure (Except.error e)
  | ok a => exact second a

theorem Steady.mapM {f : α → Query ε β} (each : ∀ a, Steady P (f a).run) (xs : List α) :
    Steady P (xs.mapM f).run := by
  induction xs with
  | nil => exact steady_pure (Except.ok [])
  | cons x xs ih =>
      rw [List.mapM_cons]
      exact (each x).bindExcept fun y => ih.bindExcept fun ys => steady_pure (Except.ok (y :: ys))

theorem Steady.anyM {f : α → StateM Memory Bool} (each : ∀ a, Steady P (f a)) (xs : List α) :
    Steady P (xs.anyM f) := by
  induction xs with
  | nil => exact steady_pure false
  | cons x xs ih =>
      rw [List.anyM]
      refine (each x).bind fun found => ?_
      cases found with
      | true => exact steady_pure true
      | false => exact ih

theorem Steady.result_eq {q : StateM Memory α} (steady : Steady P q) {m m' : Memory} (holds : P m)
    (holds' : P m') : (q.run m).1 = (q.run m').1 := by
  obtain ⟨r, run⟩ := steady
  obtain ⟨_, -, first⟩ := run m holds
  obtain ⟨_, -, second⟩ := run m' holds'
  rw [first, second]

theorem Steady.holds_after {q : StateM Memory α} (steady : Steady P q) {m : Memory} (holds : P m) :
    P (q.run m).2 := by
  obtain ⟨r, run⟩ := steady
  obtain ⟨m', holds', first⟩ := run m holds
  rwa [first]

end Query

def PatternMatch.asRule (found : PatternMatch) : RuleMatch :=
  ⟨found.pattern.name, found.nodeId, found.features⟩

namespace Analysis

open Query

theorem pursue_relation (a : Analysis) {α : Type} (i : Nat) (f : Relation → α) :
    a.pursue (.relation i fun answer => .conclude (answer.map f)) =
      (do return f (← a.relation i)) := by
  apply ExceptT.ext
  rw [pursue, ExceptT.run_bind_lift, ExceptT.run_bind]
  congr 1
  funext answer
  cases answer with
  | error e => rfl
  | ok r => rfl

theorem obeys_rule (a : Analysis) (p : EditPattern) (i : Nat) :
    a.obeys p.rule i = a.accepts p i := by
  unfold obeys accepts
  by_cases other : (a.tree.node i).edit ≠ p.edit
  · rw [if_pos other, if_pos (c := (a.tree.node i).edit ≠ p.rule.edit) other]
  · rw [if_neg other, if_neg (c := (a.tree.node i).edit ≠ p.rule.edit) other]
    cases p
    case specialization | generalization | reconfiguration | refactoring =>
      exact a.pursue_relation i _
    all_goals rfl

theorem firstObeyed_rule (a : Analysis) (catalog : List EditPattern) (i : Nat) :
    a.firstObeyed i (catalog.map EditPattern.rule) =
      PatternMatch.asRule <$> a.firstMatch i catalog := by
  induction catalog with
  | nil => rfl
  | cons p catalog ih =>
      rw [List.map_cons, firstObeyed, firstMatch, obeys_rule, map_bind]
      congr 1
      funext accepted
      cases accepted with
      | true =>
          rw [if_pos rfl, if_pos rfl, map_bind]
          rfl
      | false => exact ih

/-- As a catalog of rules, a catalog of elementary patterns classifies as it does. -/
theorem classifyBy_rule (a : Analysis) (catalog : List EditPattern) (i : Nat) :
    a.classifyBy catalog i = PatternMatch.asRule <$> a.classify catalog i := by
  unfold classifyBy classify
  split
  · rfl
  · exact a.firstObeyed_rule catalog i

variable {a : Analysis}

theorem pursue_steady {α : Type} (inquiry : Inquiry α) :
    Steady (Memory.Agrees a) (a.pursue inquiry).run := by
  induction inquiry with
  | conclude result => exact (answers_ofExcept result).steady
  | condition s i next ih =>
      rw [pursue, ExceptT.run_bind_lift]
      exact (presence_answers s i).steady.bind ih
  | relation i next ih =>
      rw [pursue, ExceptT.run_bind_lift]
      exact (relation_answers i).steady.bind ih

theorem obeys_steady (r : Rule) (i : Nat) : Steady (Memory.Agrees a) (a.obeys r i).run := by
  unfold obeys
  split
  · exact steady_pure (Except.ok false)
  · exact pursue_steady (r.accepts a.tree i)

theorem scopedCondition_steady (scope : List Side) (s : Side) (i : Nat) :
    Steady (Memory.Agrees a) (a.scopedCondition scope s i).run := by
  unfold scopedCondition
  split
  · exact (((presence_answers s i).map some).adapt MatchError.presence).steady
  · exact steady_pure (Except.ok none)

theorem scopedFeatures_steady (scope : List Side) (i : Nat) :
    Steady (Memory.Agrees a) (a.scopedFeatures scope i).run := by
  unfold scopedFeatures
  split
  · exact steady_pure (Except.ok none)
  · refine (scopedCondition_steady scope .before i).bindExcept fun before => ?_
    refine (scopedCondition_steady scope .after i).bindExcept fun after => ?_
    exact steady_pure (Except.ok _)

theorem firstObeyed_steady (catalog : List Rule) (i : Nat) :
    Steady (Memory.Agrees a) (a.firstObeyed i catalog).run := by
  induction catalog with
  | nil => exact steady_pure (Except.error _)
  | cons r catalog ih =>
      refine (obeys_steady r i).bindExcept fun obeyed => ?_
      cases obeyed with
      | true =>
          exact (scopedFeatures_steady r.scope i).bindExcept fun features =>
            steady_pure (Except.ok _)
      | false => exact ih

theorem classifyBy_steady (catalog : Catalog) (i : Nat) :
    Steady (Memory.Agrees a) (a.classifyBy catalog i).run := by
  unfold classifyBy
  split
  · exact steady_pure (Except.error _)
  · exact firstObeyed_steady catalog.rules i

theorem editsVariability_steady (i : Nat) :
    Steady (Memory.Agrees a) (a.editsVariability i) := by
  refine (classify_answers EditPattern.elementary i).steady.bind fun answer => ?_
  cases answer with
  | error e => exact steady_pure false
  | ok found => exact steady_pure (!found.pattern.isNeutral)

theorem meets_steady (c : Criterion) : Steady (Memory.Agrees a) (a.meets c) := by
  cases c with
  | notEmpty => exact steady_pure (!a.tree.isEmpty)
  | moreThanOneArtifact => exact steady_pure (decide (1 < a.tree.codeNodes.length))
  | consistent => exact steady_pure a.tree.firstFlaw?.isNone
  | hasEditsToVariability => exact .anyM editsVariability_steady a.tree.codeNodes

theorem rejection?_steady (filter : List Criterion) :
    Steady (Memory.Agrees a) (a.rejection? filter) := by
  induction filter with
  | nil => exact steady_pure none
  | cons c filter ih =>
      refine (meets_steady c).bind fun met => ?_
      cases met with
      | true => exact ih
      | false => exact steady_pure (some c)

end Analysis

/-- What can be asked of an analysis. -/
inductive Call where
  | condition (s : Side) (i : Nat)
  | relation (i : Nat)
  | classify (catalog : List EditPattern) (i : Nat)
  | classifyBy (catalog : Catalog) (i : Nat)
  | classifyAll (catalog : List EditPattern)
  | classifyAllBy (catalog : Catalog)
  | features (scope : List Side) (i : Nat)
  | meets (c : Criterion)
  | rejection (filter : List Criterion)

abbrev Call.Reply : Call → Type
  | condition .. => Except PresenceError Formula
  | relation .. => Except MatchError Relation
  | classify .. => Except MatchError PatternMatch
  | classifyBy .. => Except MatchError RuleMatch
  | classifyAll .. => Except MatchError (List PatternMatch)
  | classifyAllBy .. => Except MatchError (List RuleMatch)
  | features .. => Except MatchError (Option FeatureContext)
  | meets .. => Bool
  | rejection .. => Option Criterion

namespace Analysis

open Query

def reply (a : Analysis) : (c : Call) → StateM Memory c.Reply
  | .condition s i => (a.presence s i).run
  | .relation i => (a.relation i).run
  | .classify catalog i => (a.classify catalog i).run
  | .classifyBy catalog i => (a.classifyBy catalog i).run
  | .classifyAll catalog => (a.classifyAll catalog).run
  | .classifyAllBy catalog => (a.classifyAllBy catalog).run
  | .features scope i => (a.scopedFeatures scope i).run
  | .meets c => a.meets c
  | .rejection filter => a.rejection? filter

/-- The replies to calls that are made one after the other. -/
def replies (a : Analysis) : List Call → StateM Memory (List (Sigma Call.Reply))
  | [] => return []
  | c :: cs => do
    let first ← a.reply c
    let rest ← replies a cs
    return ⟨c, first⟩ :: rest

/-- The reply to a call that nothing came before. -/
def freshReply (a : Analysis) (c : Call) : c.Reply :=
  ((a.reply c).run (.blank a.tree.size)).1

variable {a : Analysis}

theorem reply_steady (c : Call) : Steady (Memory.Agrees a) (a.reply c) := by
  cases c with
  | condition s i => exact (presence_answers s i).steady
  | relation i => exact (relation_answers i).steady
  | classify catalog i => exact (classify_answers catalog i).steady
  | classifyBy catalog i => exact classifyBy_steady catalog i
  | classifyAll catalog =>
      exact .mapM (fun i => (classify_answers catalog i).steady) a.tree.codeNodes
  | classifyAllBy catalog => exact .mapM (classifyBy_steady catalog) a.tree.codeNodes
  | features scope i => exact scopedFeatures_steady scope i
  | meets c => exact meets_steady c
  | rejection filter => exact rejection?_steady filter

theorem reply_eq_fresh {m : Memory} (agrees : m.Agrees a) (c : Call) :
    ((a.reply c).run m).1 = a.freshReply c :=
  (reply_steady c).result_eq agrees (Memory.agrees_blank a a.tree.size)

theorem replies_of_agrees {m : Memory} (agrees : m.Agrees a) (calls : List Call) :
    ((a.replies calls).run m).1 = calls.map fun c => ⟨c, a.freshReply c⟩ := by
  induction calls generalizing m with
  | nil => rfl
  | cons c calls ih =>
      have first := reply_eq_fresh agrees c
      have rest := ih ((reply_steady c).holds_after agrees)
      rw [List.map_cons, ← first, ← rest]
      rfl

/-- A filter is tried, and then every line of code is classified on what the filter left behind. -/
def classifyAfter {α : Type} (a : Analysis) (filter : List Criterion)
    (classification : Query MatchError (List α)) : Except MatchError (List α) :=
  (classification.run.run ((a.rejection? filter).run (.blank a.tree.size)).2).1

/-- Memory is invisible. In any sequence of calls each gets the reply that it would get as the first
call, and a filter that is tried first changes no classification. -/
theorem replies_fresh (a : Analysis) (calls : List Call) :
    ((a.replies calls).run (.blank a.tree.size)).1 =
        calls.map (fun c => ⟨c, a.freshReply c⟩) ∧
      ∀ filter,
        (∀ catalog, a.classifyAfter filter (a.classifyAll catalog) =
          (a.classifyAll catalog).runFresh a.tree) ∧
        (∀ catalog, a.classifyAfter filter (a.classifyAllBy catalog) =
          (a.classifyAllBy catalog).runFresh a.tree) := by
  have blank := Memory.agrees_blank a a.tree.size
  refine ⟨replies_of_agrees blank calls, fun filter => ?_⟩
  have filtered := (rejection?_steady filter).holds_after blank
  exact ⟨fun catalog => reply_eq_fresh filtered (.classifyAll catalog),
    fun catalog => reply_eq_fresh filtered (.classifyAllBy catalog)⟩

end Analysis

end Variability
