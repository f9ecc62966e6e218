import Variability.Proofs.Patch.Sequel

/-!
Hunks are analysed independently. A patch behind another one is parsed as it is parsed alone, and
what is found out about a line of either does not depend on the other: not what the line is, not
when it is compiled, and not which pattern it belongs to.
-/

namespace Variability

open Variability.Tree (later)

/-- The error of a node that has another number. -/
def PresenceError.renumber (number : Nat → Nat) : PresenceError → PresenceError
  | absentOnSide id side => absentOnSide (number id) side
  | missingCondition id => missingCondition (number id)
  | cycle id side => cycle (number id) side

def PatternMatch.renumber (number : Nat → Nat) (found : PatternMatch) : PatternMatch :=
  { found with nodeId := number found.nodeId }

theorem PatternMatch.renumber_id : renumber (fun i => i) = id := rfl

namespace EditPattern

theorem existsOn_of_mem_scope {p : EditPattern} {s : Side} (member : s ∈ p.scope) :
    p.edit.existsOn s := by
  cases p <;> cases s <;> simp [scope] at member <;> rfl

end EditPattern

namespace LineView

variable {v w : LineView}

theorem edit_of_pattern {o : Oracle} {p : EditPattern} (found : v.pattern o = .ok p) :
    p.edit = v.edit := by
  unfold pattern at found
  cases edit : v.edit with
  | added | removed =>
      rw [edit] at found
      cases found
      split <;> rfl
  | kept =>
      rw [edit] at found
      cases relation : v.relation o with
      | error e => simp [relation, Except.map] at found
      | ok r =>
          simp only [relation, Except.map, Except.ok.injEq] at found
          rw [← found, patternOf]
          split <;> (try split) <;> rfl

/-- Lines that look alike where they exist belong to the same pattern, for the same features. -/
theorem classify_eq_map (o : Oracle) (code : v.kind = .code) (codeToo : w.kind = .code)
    (edit : w.edit = v.edit) (parentEdit : ∀ s, w.parentEdit s = v.parentEdit s)
    (unmoved : w.unmoved = v.unmoved)
    (condition : ∀ s, v.edit.existsOn s → w.condition s = v.condition s) (number : Nat → Nat)
    (id : w.id = number v.id) :
    w.classify o EditPattern.elementary =
      (v.classify o EditPattern.elementary).map (PatternMatch.renumber number) := by
  have pattern : w.pattern o = v.pattern o := by
    unfold LineView.pattern
    rw [edit]
    cases own : v.edit with
    | added | removed => simp only [parentEdit]
    | kept =>
        have conditions (s : Side) : w.condition s = v.condition s :=
          condition s (by rw [own]; rfl)
        simp only [relation, conditions, unmoved]
  rw [v.classify_eq o code, w.classify_eq o codeToo, pattern]
  cases found : v.pattern o with
  | error e => rfl
  | ok p =>
      have sides (s : Side) : w.scopedCondition p s = v.scopedCondition p s := by
        unfold scopedCondition
        split
        · next member =>
          rw [condition s (edit_of_pattern found ▸ EditPattern.existsOn_of_mem_scope member)]
        · rfl
      have features : w.features p = v.features p := by
        unfold LineView.features
        rw [sides, sides]
      change (do
        let features ← w.features p
        return (⟨p, w.id, features⟩ : PatternMatch)) = (do
          let features ← v.features p
          return (⟨p, v.id, features⟩ : PatternMatch)).map (PatternMatch.renumber number)
      rw [features, id]
      cases v.features p <;> rfl

end LineView

private theorem mapM_map_except {ε α β γ : Type} {f : α → Except ε β} {g : α → Except ε γ}
    {r : β → γ} {as : List α} (each : ∀ a ∈ as, g a = (f a).map r) :
    as.mapM g = (as.mapM f).map (·.map r) := by
  induction as with
  | nil => rfl
  | cons a as ih =>
      rw [List.mapM_cons, List.mapM_cons, each a (by simp),
        ih fun b member => each b (by simp [member])]
      cases f a with
      | error e => rfl
      | ok b => cases as.mapM f <;> rfl

namespace Patch

namespace Accepted

variable {es fs : List Entry} {t u : Tree} (accepted : Accepted es t) (acceptedToo : Accepted fs u)
include accepted

theorem presenceCondition_of_absent {s : Side} {i : Nat} (inside : i < t.size)
    (absent : ¬ (t.node i).existsOn s) :
    t.presenceCondition s i = .error (.absentOnSide i s) := by
  have unlinked : t.parent s i = none := by
    cases parent : t.parent s i with
    | none => rfl
    | some p => exact absurd (accepted.linked.child parent) absent
  rw [Tree.presenceCondition, Tree.lineage?_of_parent_none unlinked]
  simp [Tree.conditionAlong, Tree.featureMapping, absent, accepted.overlays.id_eq inside,
    Except.map]

include acceptedToo

theorem id_sequel (lines : Nat) {i : Nat} (inside : i < (t.followedBy u lines).size) :
    ((t.followedBy u lines).node i).id = i :=
  (accepted.sequel acceptedToo lines).overlays.id_eq inside

/-- The nodes of the first tree keep their presence conditions, and the sides where they have
none. -/
theorem condition_first (o : Oracle) (lines : Nat) (s : Side) {i : Nat} (inside : i < t.size) :
    (⟨t.followedBy u lines, o⟩ : Analysis).condition s i =
      (⟨t, o⟩ : Analysis).condition s i := by
  rw [Analysis.condition_eq, Analysis.condition_eq]
  by_cases present : (t.node i).existsOn s
  · exact accepted.presenceCondition_first acceptedToo lines inside present
  · rw [accepted.presenceCondition_of_absent inside present]
    refine (accepted.sequel acceptedToo lines).presenceCondition_of_absent
      ((accepted.meet acceptedToo).lt_size_first inside) ?_
    rwa [Node.existsOn_of_bare_eq (Tree.bare_followedBy_first inside)]

theorem condition_second (o : Oracle) (lines : Nat) (s : Side) {i : Nat} (inside : i < u.size) :
    (⟨t.followedBy u lines, o⟩ : Analysis).condition s (later (t.size - 1) i) =
      ((⟨u, o⟩ : Analysis).condition s i).mapError
        (PresenceError.renumber (later (t.size - 1))) := by
  have meet := accepted.meet acceptedToo
  rw [Analysis.condition_eq, Analysis.condition_eq]
  by_cases present : (u.node i).existsOn s
  · rw [accepted.presenceCondition_second acceptedToo lines inside present]
    obtain ⟨chain, lineage⟩ := acceptedToo.linked.ordered.exists_lineage s i
    obtain ⟨f, condition, -⟩ := acceptedToo.exists_condition o present lineage
    rw [Analysis.condition_eq] at condition
    rw [condition]
    rfl
  · rw [acceptedToo.presenceCondition_of_absent inside present]
    refine (accepted.sequel acceptedToo lines).presenceCondition_of_absent
      (meet.later_lt_size inside) ?_
    rwa [Node.existsOn, meet.kind_second inside, meet.edit_second inside]

theorem unmoved_first (lines : Nat) {i : Nat} (inside : i < t.size) :
    (t.followedBy u lines).unmoved i = t.unmoved i := by
  have meet := accepted.meet acceptedToo
  have whole := accepted.sequel acceptedToo lines
  refine (Tree.unmoved_of_sideEmbeds (meet.sideEmbeds_first lines) whole.linked.ordered
    accepted.linked.ordered ?_ ?_ (Tree.firstPlace?_eq_some_iff.mpr ⟨inside, rfl⟩)).symm
  · intro j i placed
    obtain ⟨inside, rfl⟩ := Tree.firstPlace?_eq_some_iff.mp placed
    exact ⟨meet.lt_size_first inside, inside⟩
  · intro s j i p placed linked
    exact Tree.isSome_firstPlace?_of_lt (whole.linked.ordered s j p linked)
      (Option.isSome_of_eq_some placed)

theorem unmoved_second (lines : Nat) {i : Nat} (inside : i < u.size) :
    (t.followedBy u lines).unmoved (later (t.size - 1) i) = u.unmoved i := by
  have meet := accepted.meet acceptedToo
  have whole := accepted.sequel acceptedToo lines
  refine (Tree.unmoved_of_sideEmbeds (meet.sideEmbeds_second lines) whole.linked.ordered
    acceptedToo.linked.ordered ?_ ?_ (meet.secondPlace?_eq_some_iff.mpr ⟨inside, rfl⟩)).symm
  · intro j i placed
    obtain ⟨inside, rfl⟩ := meet.secondPlace?_eq_some_iff.mp placed
    exact ⟨meet.later_lt_size inside, inside⟩
  · intro s j i p placed linked
    exact meet.isSome_secondPlace?_of_parent (Option.isSome_of_eq_some placed) linked

theorem classify_first (o : Oracle) (lines : Nat) {i : Nat} (inside : i < t.size)
    (code : (t.node i).kind = .code) :
    ((t.followedBy u lines).view i).classify o EditPattern.elementary =
      (t.view i).classify o EditPattern.elementary := by
  have bound : i < (t.followedBy u lines).size :=
    (accepted.meet acceptedToo).lt_size_first inside
  have same := LineView.classify_eq_map (v := t.view i) (w := (t.followedBy u lines).view i) o code
    ((Tree.kind_followedBy_first inside).trans code) (Tree.edit_followedBy_first inside)
    (fun s => ?_) (accepted.unmoved_first acceptedToo lines inside) (fun s present => ?_)
    (fun i => i)
    ((accepted.id_sequel acceptedToo lines bound).trans (accepted.overlays.id_eq inside).symm)
  · rw [same, PatternMatch.renumber_id, Except.map_id, id]
  · simp only [Tree.view, Tree.parent_followedBy_first inside]
    cases parent : t.parent s i with
    | none => rfl
    | some p =>
        have above := Nat.lt_trans (accepted.linked.ordered s i p parent) inside
        rw [Option.map_some, Option.map_some, Tree.edit_followedBy_first above]
  · exact accepted.presenceCondition_first acceptedToo lines inside
      (Bool.or_eq_true_iff.mpr (.inr present))

theorem classify_second (o : Oracle) (lines : Nat) {i : Nat} (inside : i < u.size)
    (code : (u.node i).kind = .code) :
    ((t.followedBy u lines).view (later (t.size - 1) i)).classify o EditPattern.elementary =
      ((u.view i).classify o EditPattern.elementary).map
        (PatternMatch.renumber (later (t.size - 1))) := by
  have meet := accepted.meet acceptedToo
  refine LineView.classify_eq_map (v := u.view i)
    (w := (t.followedBy u lines).view (later (t.size - 1) i)) o code
    ((meet.kind_second inside).trans code) (meet.edit_second inside) (fun s => ?_)
    (accepted.unmoved_second acceptedToo lines inside) (fun s present => ?_) _ ?_
  · simp only [Tree.view, meet.parent_second inside]
    cases parent : u.parent s i with
    | none => rfl
    | some p =>
        have above := Nat.lt_trans (acceptedToo.linked.ordered s i p parent) inside
        rw [Option.map_some, Option.map_some, Option.map_some, meet.edit_second above]
  · exact accepted.presenceCondition_second acceptedToo lines inside
      (Bool.or_eq_true_iff.mpr (.inr present))
  · exact (accepted.id_sequel acceptedToo lines (meet.later_lt_size inside)).trans
      (congrArg _ (acceptedToo.overlays.id_eq inside).symm)

/-- The lines of the first tree are classified as they are alone, then those of the second; the
first that cannot be classified is the same. -/
theorem classifyAll_sequel (o : Oracle) (lines : Nat) :
    ((⟨t.followedBy u lines, o⟩ : Analysis).classifyAll EditPattern.elementary).runFresh
        (t.followedBy u lines) = (do
      let found ← ((⟨t, o⟩ : Analysis).classifyAll EditPattern.elementary).runFresh t
      let foundToo ← ((⟨u, o⟩ : Analysis).classifyAll EditPattern.elementary).runFresh u
      return found ++ foundToo.map (PatternMatch.renumber (later (t.size - 1)))) := by
  have meet := accepted.meet acceptedToo
  have code {t : Tree} {i : Nat} (member : i ∈ t.codeNodes) :
      i < t.size ∧ (t.node i).kind = .code := by
    simpa [Tree.codeNodes, Tree.mem_positions] using member
  have fresh := (⟨t.followedBy u lines, o⟩ : Analysis).classifyAll_runFresh EditPattern.elementary
  have freshFirst := (⟨t, o⟩ : Analysis).classifyAll_runFresh EditPattern.elementary
  have freshSecond := (⟨u, o⟩ : Analysis).classifyAll_runFresh EditPattern.elementary
  have first : t.codeNodes.mapM (fun i =>
      ((t.followedBy u lines).view i).classify o EditPattern.elementary) =
        t.codeNodes.mapM fun i => (t.view i).classify o EditPattern.elementary := by
    rw [mapM_map_except (r := id) fun i member => ?_, List.map_id_fun, Except.map_id, id]
    rw [accepted.classify_first acceptedToo o lines (code member).1 (code member).2, Except.map_id,
      id]
  have second : (u.codeNodes.map (later (t.size - 1))).mapM (fun i =>
      ((t.followedBy u lines).view i).classify o EditPattern.elementary) =
        (u.codeNodes.mapM fun i => (u.view i).classify o EditPattern.elementary).map
          (·.map (PatternMatch.renumber (later (t.size - 1)))) := by
    rw [List.mapM_map]
    exact mapM_map_except fun i member =>
      accepted.classify_second acceptedToo o lines (code member).1 (code member).2
  have notCode : (u.node 0).kind ≠ .code := by
    rw [acceptedToo.overlays.kind_root]
    decide
  simp only at fresh freshFirst freshSecond
  rw [fresh, freshFirst, freshSecond, meet.codeNodes_followedBy lines notCode, List.mapM_append,
    first, second]
  cases t.codeNodes.mapM fun i => (t.view i).classify o EditPattern.elementary with
  | error e => rfl
  | ok found =>
      cases u.codeNodes.mapM fun i => (u.view i).classify o EditPattern.elementary <;> rfl

end Accepted

/-- Balanced hunks are analysed independently. A patch that is parsed, with another one behind it
that is parsed, is parsed to the tree of both under one root. Every node keeps its presence
conditions, and the lines of both are classified as they are alone, up to the first that cannot
be. -/
theorem parse_append {first second path commit : String} (joins : Joins first second)
    {t u : Tree} (parsed : parse first path commit = .ok (.ok t))
    (parsedToo : parse second path commit = .ok (.ok u)) :
    ∃ v, v = t.followedBy u (lineCount first) ∧
      parse (first ++ second) path commit = .ok (.ok v) ∧
      ∀ o : Oracle,
        (∀ s i, i < t.size →
          (⟨v, o⟩ : Analysis).condition s i = (⟨t, o⟩ : Analysis).condition s i) ∧
        (∀ s i, i < u.size →
          (⟨v, o⟩ : Analysis).condition s (later (t.size - 1) i) =
            ((⟨u, o⟩ : Analysis).condition s i).mapError
              (PresenceError.renumber (later (t.size - 1)))) ∧
        ((⟨v, o⟩ : Analysis).classifyAll EditPattern.elementary).runFresh v = (do
          let found ← ((⟨t, o⟩ : Analysis).classifyAll EditPattern.elementary).runFresh t
          let foundToo ← ((⟨u, o⟩ : Analysis).classifyAll EditPattern.elementary).runFresh u
          return found ++ foundToo.map (PatternMatch.renumber (later (t.size - 1)))) := by
  have accepted := accepted_of_parse parsed
  have acceptedToo := accepted_of_parse parsedToo
  exact ⟨_, rfl, joins.parse_eq parsed parsedToo, fun o =>
    ⟨fun s i inside => accepted.condition_first acceptedToo o _ s inside,
      fun s i inside => accepted.condition_second acceptedToo o _ s inside,
      accepted.classifyAll_sequel acceptedToo o _⟩⟩

theorem parse_append_else :
    ∃ t u v, parse "@@ -1,3 +1,4 @@\n #if A\n a\n+b\n #endif\n" "f" "c" = .ok (.ok t) ∧
      parse "@@ -7,4 +8,5 @@\n #if B\n c\n #else\n+d\n #endif\n" "f" "c" = .ok (.ok u) ∧
      parse ("@@ -1,3 +1,4 @@\n #if A\n a\n+b\n #endif\n" ++
        "@@ -7,4 +8,5 @@\n #if B\n c\n #else\n+d\n #endif\n") "f" "c" = .ok (.ok v) ∧
      v.source.hunk = some ⟨1, 10, 1, 12⟩ ∧
      (v.analysis 16).condition .after 3 = .ok (.var "A") ∧
      (v.analysis 16).condition .after 8 = .ok (.not (.var "B")) := by
  have parses : parsesTo "@@ -1,3 +1,4 @@\n #if A\n a\n+b\n #endif\n" "f" "c" (fun t =>
      t.size = 5 && t.source.hunk = some ⟨1, 3, 1, 4⟩ &&
        (t.analysis 16).condition .after 3 = .ok (.var "A")) := by decide +kernel
  have parsesToo : parsesTo "@@ -7,4 +8,5 @@\n #if B\n c\n #else\n+d\n #endif\n" "f" "c" (fun u =>
      u.size = 6 && u.source.hunk = some ⟨7, 4, 8, 5⟩ &&
        (u.analysis 16).condition .after 4 = .ok (.not (.var "B"))) := by decide +kernel
  have joins : Joins "@@ -1,3 +1,4 @@\n #if A\n a\n+b\n #endif\n"
    "@@ -7,4 +8,5 @@\n #if B\n c\n #else\n+d\n #endif\n" := by decide +kernel
  obtain ⟨t, parsed, facts⟩ := exists_of_parsesTo parses
  obtain ⟨u, parsedToo, factsToo⟩ := exists_of_parsesTo parsesToo
  simp only [Bool.and_eq_true, decide_eq_true_eq] at facts factsToo
  obtain ⟨⟨size, hunk⟩, condition⟩ := facts
  obtain ⟨⟨sizeToo, hunkToo⟩, conditionToo⟩ := factsToo
  obtain ⟨v, rfl, parsedBoth, analysed⟩ := parse_append joins parsed parsedToo
  obtain ⟨first, second, -⟩ := analysed (.bounded 16)
  have third := first .after 3 (by omega)
  have fourth := second .after 4 (by omega)
  rw [size, conditionToo] at fourth
  refine ⟨t, u, _, parsed, parsedToo, parsedBoth, ?_, third.trans condition, fourth⟩
  change (t.source.hunk.bind fun r => u.source.hunk.map r.hull) = _
  rw [hunk, hunkToo]
  decide

end Patch

end Variability
