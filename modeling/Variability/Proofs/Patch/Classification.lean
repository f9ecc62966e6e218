import Variability.Proofs.Patch.Preprocessor
import Variability.Proofs.Presence.Verdict

/-!
What the elementary catalog says about the lines of a patch. Every line of code gets the pattern
that its edit, its branch and its two presence conditions call for, whatever the analysis was asked
before, unless an oracle with bounds gives up on the conditions of a kept line.
-/

namespace Variability

/-- The branch that a node is in on a side was edited as told. -/
def Tree.InBranch (t : Tree) (s : Side) (i : Nat) (e : Edit) : Prop :=
  ∃ p, t.parent s i = some p ∧ (t.node p).edit = e

theorem Tree.parentEdit_view_eq_iff {t : Tree} {s : Side} {i : Nat} {e : Edit} :
    (t.view i).parentEdit s = some e ↔ t.InBranch s i e := by
  simp [Tree.view, Tree.InBranch, Option.map_eq_some_iff]

/-- What is said of a line of code is what the tree, its two presence conditions and the branches
around it call for. -/
structure Tree.Verdict (t : Tree) (i : Nat) (found : PatternMatch) : Prop where
  id : found.nodeId = (t.node i).id
  kept : (t.node i).edit = .kept → ∃ before after,
    t.presenceCondition .before i = .ok before ∧ t.presenceCondition .after i = .ok after ∧
      KeptAs before after (t.Moved i) found.pattern
  added : (t.node i).edit = .added →
    (found.pattern = .addWithMapping ↔ t.InBranch .after i .added) ∧
      (found.pattern = .addToPC ↔ ¬ t.InBranch .after i .added)
  removed : (t.node i).edit = .removed →
    (found.pattern = .remWithMapping ↔ t.InBranch .before i .removed) ∧
      (found.pattern = .remFromPC ↔ ¬ t.InBranch .before i .removed)
  features : found.Reports fun s => t.presenceCondition s i

namespace Patch

/-- The elementary catalog finds the pattern that the logic of the presence conditions of a line of
code calls for, with the features that stand in the conditions it is about, or the oracle gives up
on a kept line; and this whatever the analysis has been asked before. -/
theorem classify_verdict {text path commit : String} {t : Tree}
    (parsed : parse text path commit = .ok (.ok t)) (limit : Nat) {i : Nat}
    (inside : i < t.size) (code : (t.node i).kind = .code) {m : Memory}
    (remembers : (t.analysis limit).Remembers m) :
    (∃ found, ((t.analysis limit).classify EditPattern.elementary i).answerIn m = .ok found ∧
        t.Verdict i found) ∨
      (t.node i).edit = .kept ∧ ∃ n, (limit < n ∨ 64 ≤ n) ∧
        ((t.analysis limit).classify EditPattern.elementary i).answerIn m =
          .error (.oracle (.tooManyVariables n limit)) := by
  have accepted := accepted_of_parse parsed
  have ordered := accepted.overlays.parentsFirst
  have exists_condition {s : Side} (present : (t.node i).edit.existsOn s) :
      ∃ f, (t.view i).condition s = .ok f := by
    obtain ⟨chain, lineage⟩ := ordered.exists_lineage s i
    obtain ⟨f, condition, -⟩ := accepted.exists_condition (.bounded limit)
      (by simp [Node.existsOn, present]) lineage
    exact ⟨f, by rw [← condition, Analysis.condition_eq]; rfl⟩
  rw [remembers.classify_eq]
  cases edit : (t.node i).edit with
  | added =>
      obtain ⟨f, condition⟩ := exists_condition (s := .after) (by rw [edit]; rfl)
      obtain ⟨found, classified, pattern⟩ :=
        LineView.classify_added (.bounded limit) code edit condition
      obtain ⟨id, reports⟩ := LineView.classify_ok classified
      refine .inl ⟨found, classified, id, by simp [edit], fun _ => ?_, by simp [edit], reports⟩
      have branch := Tree.parentEdit_view_eq_iff (t := t) (s := .after) (i := i) (e := .added)
      split at pattern
      · next inBranch => simp [pattern, branch.mp inBranch]
      · next outside => simp [pattern, mt branch.mpr outside]
  | removed =>
      obtain ⟨f, condition⟩ := exists_condition (s := .before) (by rw [edit]; rfl)
      obtain ⟨found, classified, pattern⟩ :=
        LineView.classify_removed (.bounded limit) code edit condition
      obtain ⟨id, reports⟩ := LineView.classify_ok classified
      refine .inl ⟨found, classified, id, by simp [edit], by simp [edit], fun _ => ?_, reports⟩
      have branch := Tree.parentEdit_view_eq_iff (t := t) (s := .before) (i := i) (e := .removed)
      split at pattern
      · next inBranch => simp [pattern, branch.mp inBranch]
      · next outside => simp [pattern, mt branch.mpr outside]
  | kept =>
      obtain ⟨f, before⟩ := exists_condition (s := .before) (by rw [edit]; rfl)
      obtain ⟨g, after⟩ := exists_condition (s := .after) (by rw [edit]; rfl)
      rcases LineView.classify_kept_cases limit code edit before after
        (ordered.unmoved_iff inside) with ⟨found, classified, pattern⟩ | ⟨n, failed, exceeds⟩
      · obtain ⟨id, reports⟩ := LineView.classify_ok classified
        exact .inl ⟨found, classified, id, fun _ => ⟨f, g, before, after, pattern⟩,
          by simp [edit], by simp [edit], reports⟩
      · exact .inr ⟨rfl, n, exceeds, failed⟩

theorem classify_verdict_narrowed :
    ∃ t found before after, parse " #if A\n+#if B\n x\n+#endif\n #endif\n" "f" "c" = .ok (.ok t) ∧
      ((t.analysis 16).classify EditPattern.elementary 3).answerIn
        (((t.analysis 16).presence .after 3).memoryAfter (.blank t.size)) = .ok found ∧
      found.pattern = .specialization ∧
      t.presenceCondition .before 3 = .ok before ∧ t.presenceCondition .after 3 = .ok after ∧
      after.Entails before ∧ ¬ before.Entails after := by
  have parses : parsesTo " #if A\n+#if B\n x\n+#endif\n #endif\n" "f" "c" (fun t =>
      decide (3 < t.size) && (t.node 3).kind = .code && (t.node 3).edit = .kept &&
        (((t.analysis 16).classify EditPattern.elementary 3).answerIn
          (((t.analysis 16).presence .after 3).memoryAfter (.blank t.size))).toOption.any
            (·.pattern = .specialization)) := by decide +kernel
  obtain ⟨t, parsed, facts⟩ := exists_of_parsesTo parses
  simp only [Bool.and_eq_true, decide_eq_true_eq] at facts
  obtain ⟨⟨⟨inside, code⟩, kept⟩, specialized⟩ := facts
  rcases classify_verdict parsed 16 inside code (.presence .after 3 .blank) with
    ⟨found, classified, verdict⟩ | ⟨-, n, -, failed⟩
  · have pattern : found.pattern = .specialization := by
      rw [classified] at specialized
      simpa [Except.toOption] using specialized
    obtain ⟨before, after, hBefore, hAfter, keptAs⟩ := verdict.kept kept
    exact ⟨t, found, before, after, parsed, classified, pattern, hBefore, hAfter,
      keptAs.specialization.mp pattern⟩
  · rw [failed] at specialized
    cases specialized

end Patch

end Variability
