import Variability.Proofs.Patch.Dissolution
import Variability.Proofs.Presence.Classification
import Variability.Proofs.Tree.Cut

/-!
Analysis after the cut. What is known about a node that stays is what was known before, except that
dropped branches are not known any more to be false after them.
-/

namespace Variability

namespace Patch

namespace Accepted

variable {t : Tree} {es : List Entry} (accepted : Accepted es t)
include accepted

theorem linked : t.Linked where
  ordered := accepted.overlays.parentsFirst
  mem_children := accepted.overlays.mem_children
  owner := fun parent => (accepted.overlays.parent_owns parent).1
  child := by
    intro s c p parent
    have notRoot : c ≠ 0 := by
      rintro rfl
      rw [accepted.overlays.parent_root] at parent
      cases parent
    rw [accepted.existsOn_iff_linked (Tree.lt_size_of_parent parent) notRoot, parent,
      Option.isSome_some]

theorem rivals_cut {s : Side} {chain : List Nat} (present : ∀ i ∈ chain, (t.node i).existsOn s)
    (opened : ∀ b ∈ t.droppedRivals s chain, (t.node b).kind ≠ .ifBranch) {i j : Nat}
    (member : i ∈ chain) (placed : t.cutPlace? i = some j) :
    t.cutUnedited.rivals s j = (t.rivals s i).filterMap t.cutPlace? := by
  refine accepted.linked.rivals_cut placed (accepted.exists_opening (present i member))
    fun b rival opens => ?_
  cases marked : t.editedMarks.has b with
  | true => rfl
  | false =>
      have dropped := Tree.mem_droppedRivals.mpr ⟨⟨i, member, rival⟩, by simp [marked]⟩
      exact absurd opens (opened b dropped)

theorem ownRivals {s : Side} {chain : List Nat} (present : ∀ i ∈ chain, (t.node i).existsOn s)
    (opened : ∀ b ∈ t.droppedRivals s chain, (t.node b).kind ≠ .ifBranch) :
    t.OwnRivals s chain := by
  intro i member j placed c rival
  rw [accepted.rivals_cut present opened member placed] at rival
  exact List.mem_filterMap.mp rival

theorem exists_conditions_cut (o : Oracle) {s : Side} {i j : Nat}
    (present : (t.node i).existsOn s) (placed : t.cutPlace? i = some j) :
    ∃ chain f g, t.lineage? s i = some chain ∧ (⟨t, o⟩ : Analysis).condition s i = .ok f ∧
      (⟨t.cutUnedited, o⟩ : Analysis).condition s j = .ok g ∧
      (t.OwnRivals s chain → ∀ env, f.eval env =
        (g.eval env && (t.droppedRivals s chain).all (!t.holds env ·))) ∧
      ((∀ b ∈ t.droppedRivals s chain, (t.node b).kind ≠ .ifBranch) → t.OwnRivals s chain) ∧
      (t.droppedRivals s chain = [] → f = g) := by
  have linked := accepted.linked
  obtain ⟨chain, lineage⟩ := linked.ordered.exists_lineage s i
  have presentAll : ∀ k ∈ chain, (t.node k).existsOn s := fun k member =>
    accepted.overlays.existsOn_of_mem_lineage present lineage member
  have lineageCut := linked.lineage?_cut lineage placed
  have stay := linked.isSome_cutPlace?_of_mem_lineage lineage (by rw [placed, Option.isSome_some])
  obtain ⟨f, condition, meaning⟩ := accepted.exists_condition o present lineage
  obtain ⟨g, conditionCut, meaningCut⟩ := Analysis.exists_condition (a := ⟨t.cutUnedited, o⟩)
    (accepted.sound.restrict fun i _ => t.editedMarks.has i).guarded lineageCut
    (Tree.existsOn_cut presentAll)
  refine ⟨chain, f, g, lineage, condition, conditionCut, fun own env => ?_,
    accepted.ownRivals presentAll, fun none => ?_⟩
  · rw [meaning, meaningCut]
    exact linked.all_admits_cut stay own env
  · have same := linked.conditionAlong_cut accepted.guarded presentAll stay
      (fun k member l => accepted.rivals_cut presentAll (by simp [none]) member) none
    rw [Analysis.condition_eq, Tree.presenceCondition, lineage] at condition
    rw [Analysis.condition_eq, Tree.presenceCondition, lineageCut] at conditionCut
    exact Except.ok.inj (condition.symm.trans (same.symm.trans conditionCut))

theorem parentEdit_cut {i j : Nat} (placed : t.cutPlace? i = some j) (s : Side) :
    (t.cutUnedited.view j).parentEdit s = (t.view i).parentEdit s := by
  simp only [Tree.view, t.embeds_cut.parent placed]
  cases parent : t.parent s i with
  | none => rfl
  | some p =>
      obtain ⟨q, placedAbove⟩ := Option.isSome_iff_exists.mp
        (accepted.linked.grounded.isSome_cutPlace?_of_parent placed parent)
      rw [Option.bind_some, placedAbove, Option.map_some, Option.map_some,
        t.embeds_cut.edit placedAbove]

theorem exists_view_conditions_cut {s : Side} {i j : Nat} (placed : t.cutPlace? i = some j)
    (present : (t.node i).existsOn s) :
    ∃ f g, (t.view i).condition s = .ok f ∧ (t.cutUnedited.view j).condition s = .ok g := by
  obtain ⟨-, f, g, -, condition, conditionCut, -⟩ :=
    accepted.exists_conditions_cut (.bounded 0) present placed
  rw [Analysis.condition_eq] at condition
  rw [Analysis.condition_eq] at conditionCut
  exact ⟨f, g, condition, conditionCut⟩

theorem exists_pattern_cut (o : Oracle) {i j : Nat} (placed : t.cutPlace? i = some j)
    (code : (t.node i).kind = .code) (edited : (t.node i).edit ≠ .kept) :
    ∃ found foundToo,
      (t.view i).classify o EditPattern.elementary = .ok found ∧
      (t.cutUnedited.view j).classify o EditPattern.elementary = .ok foundToo ∧
      found.pattern = foundToo.pattern := by
  have codeToo : (t.cutUnedited.view j).kind = .code := (t.embeds_cut.kind placed).trans code
  have editToo : (t.cutUnedited.view j).edit = (t.view i).edit := t.embeds_cut.edit placed
  cases edit : (t.node i).edit with
  | kept => exact absurd edit edited
  | added =>
      obtain ⟨f, g, condition, conditionCut⟩ := accepted.exists_view_conditions_cut placed
        (s := .after) (by simp [Node.existsOn, code, edit, Edit.existsOn])
      obtain ⟨found, classified, pattern⟩ := LineView.classify_added o code edit condition
      obtain ⟨foundToo, classifiedToo, patternToo⟩ :=
        LineView.classify_added o codeToo (editToo.trans edit) conditionCut
      refine ⟨found, foundToo, classified, classifiedToo, ?_⟩
      rw [pattern, patternToo, accepted.parentEdit_cut placed]
  | removed =>
      obtain ⟨f, g, condition, conditionCut⟩ := accepted.exists_view_conditions_cut placed
        (s := .before) (by simp [Node.existsOn, code, edit, Edit.existsOn])
      obtain ⟨found, classified, pattern⟩ := LineView.classify_removed o code edit condition
      obtain ⟨foundToo, classifiedToo, patternToo⟩ :=
        LineView.classify_removed o codeToo (editToo.trans edit) conditionCut
      refine ⟨found, foundToo, classified, classifiedToo, ?_⟩
      rw [pattern, patternToo, accepted.parentEdit_cut placed]

theorem samePattern_cut (limit : Nat) {i j : Nat} (placed : t.cutPlace? i = some j)
    (code : (t.node i).kind = .code) (kept : (t.node i).edit = .kept)
    (same : ∀ s f g, (t.view i).condition s = .ok f →
      (t.cutUnedited.view j).condition s = .ok g → ∀ env, f.eval env = g.eval env) :
    SamePattern ((t.view i).classify (.bounded limit) EditPattern.elementary)
      ((t.cutUnedited.view j).classify (.bounded limit) EditPattern.elementary) := by
  have present (s : Side) : (t.node i).existsOn s := by
    cases s <;> simp [Node.existsOn, code, kept, Edit.existsOn]
  obtain ⟨f, conditions⟩ :=
    Classical.skolem.mp fun s => accepted.exists_view_conditions_cut placed (present s)
  obtain ⟨g, conditions⟩ := Classical.skolem.mp conditions
  exact LineView.samePattern code ((t.embeds_cut.kind placed).trans code) kept
    ((t.embeds_cut.edit placed).trans kept) (accepted.linked.unmoved_cut placed).symm
    (fun s => (conditions s).1) (fun s => (conditions s).2)
    (fun s => same s (f s) (g s) (conditions s).1 (conditions s).2) limit

end Accepted

/-- What the cut changes in the analysis of the code that it keeps. As long as it moves no branch
around a line behind the branches of another conditional, the condition of the line loses the demand
that the dropped branches beside it do not hold and nothing else, so conditions stay equivalent
exactly when that follows from what is left. Code that was added or removed keeps its pattern in any
case, and kept code keeps it where its conditions stay equivalent and the oracle answers. -/
theorem presence_cutUnedited {text path commit : String} {t : Tree}
    (parsed : parse text path commit = .ok (.ok t)) (limit : Nat) {i j : Nat}
    (inside : j < t.cutUnedited.size) (survives : (t.cutUnedited.node j).id = i)
    (code : (t.node i).kind = .code) :
    (t.cutUnedited.node j).bare = (t.node i).bare ∧
      (∀ s, (t.node i).existsOn s → ∃ chain f g, t.lineage? s i = some chain ∧
        (t.analysis limit).condition s i = .ok f ∧
        (t.cutUnedited.analysis limit).condition s j = .ok g ∧
        (t.OwnRivals s chain →
          (∀ env, f.eval env = (g.eval env && (t.droppedRivals s chain).all (!t.holds env ·))) ∧
          ((∀ env, f.eval env = g.eval env) ↔
            ∀ env, g.eval env → ∀ b ∈ t.droppedRivals s chain, ¬ t.holds env b)) ∧
        ((∀ b ∈ t.droppedRivals s chain, (t.node b).kind ≠ .ifBranch) → t.OwnRivals s chain) ∧
        (t.droppedRivals s chain = [] → f = g)) ∧
      ((t.node i).edit ≠ .kept → ∃ found foundToo,
        (t.analysis limit).classified i = .ok found ∧
        (t.cutUnedited.analysis limit).classified j = .ok foundToo ∧
        found.pattern = foundToo.pattern) ∧
      ((t.node i).edit = .kept →
        (∀ s f g, (t.analysis limit).condition s i = .ok f →
          (t.cutUnedited.analysis limit).condition s j = .ok g →
          ∀ env, f.eval env = g.eval env) →
        SamePattern ((t.analysis limit).classified i)
          ((t.cutUnedited.analysis limit).classified j)) := by
  have accepted := accepted_of_parse parsed
  obtain ⟨k, placed⟩ := t.exists_place_restrict (fun i _ => t.editedMarks.has i) inside
  obtain rfl : i = k := by
    rw [← survives, Tree.id_cut placed,
      accepted.overlays.id_eq (Tree.lt_size_of_cutPlace? placed).1]
  refine ⟨Tree.bare_cut placed, ?_, ?_, ?_⟩
  · intro s present
    obtain ⟨chain, f, g, lineage, condition, conditionCut, split, own, same⟩ :=
      accepted.exists_conditions_cut (.bounded limit) present placed
    exact ⟨chain, f, g, lineage, condition, conditionCut,
      fun own => ⟨split own, Tree.forall_eval_eq_iff (split own)⟩, own, same⟩
  · intro edited
    rw [Analysis.classified_eq, Analysis.classified_eq]
    exact accepted.exists_pattern_cut (.bounded limit) placed code edited
  · intro kept same
    rw [Analysis.classified_eq, Analysis.classified_eq]
    simp only [Analysis.condition_eq] at same
    exact accepted.samePattern_cut limit placed code kept same

theorem presence_cutUnedited_else :
    ∃ t f g, parse " #if A\n-a\n #elif B\n b\n #else\n+c\n #endif\n" "f" "c" = .ok (.ok t) ∧
      (t.cutUnedited.node 4).bare = (t.node 6).bare ∧
      (t.analysis 16).condition .after 6 = .ok f ∧
      (t.cutUnedited.analysis 16).condition .after 4 = .ok g ∧
      ∀ env, f.eval env = (g.eval env && !t.holds env 3) := by
  have parses : parsesTo " #if A\n-a\n #elif B\n b\n #else\n+c\n #endif\n" "f" "c" (fun t =>
      decide (4 < t.cutUnedited.size) && (t.cutUnedited.node 4).id = 6 &&
        (t.node 6).kind = .code && (t.node 6).existsOn .after &&
        t.lineage? .after 6 = some [6, 5, 0] && t.droppedRivals .after [6, 5, 0] = [3] &&
        (t.node 3).kind = .elifBranch) := by decide +kernel
  obtain ⟨t, parsed, facts⟩ := exists_of_parsesTo parses
  simp only [Bool.and_eq_true, decide_eq_true_eq] at facts
  obtain ⟨⟨⟨⟨⟨⟨inside, survives⟩, code⟩, present⟩, lineage⟩, dropped⟩, further⟩ := facts
  obtain ⟨bare, conditions, -⟩ := presence_cutUnedited parsed 16 inside survives code
  obtain ⟨chain, f, g, lineage', condition, conditionCut, split, own, -⟩ :=
    conditions .after present
  obtain rfl : [6, 5, 0] = chain := Option.some.inj (lineage.symm.trans lineage')
  rw [dropped] at split own
  refine ⟨t, f, g, parsed, bare, condition, conditionCut, fun env => ?_⟩
  rw [(split (own (by simp [further]))).1 env]
  simp

theorem not_presence_cutUnedited :
    ∃ t f g,
      parse " #if A\n-a\n #elif B\n #elif C\n-#else\n+#endif\n+#if !A && !B && !C\n x\n #endif\n"
        "f" "c" = .ok (.ok t) ∧
      (t.node 8).kind = .code ∧ (t.node 8).existsOn .before ∧
      (t.cutUnedited.node 7).bare = (t.node 8).bare ∧
      (t.analysis 16).condition .before 8 = .ok f ∧
      (t.cutUnedited.analysis 16).condition .before 7 = .ok g ∧
      (∃ env, f.eval env ≠ g.eval env) ∧
      ((t.analysis 16).classified 8).map (·.pattern) = .ok .refactoring ∧
      ((t.cutUnedited.analysis 16).classified 7).map (·.pattern) = .ok .specialization := by
  have parses : parsesTo
      " #if A\n-a\n #elif B\n #elif C\n-#else\n+#endif\n+#if !A && !B && !C\n x\n #endif\n"
      "f" "c" (fun t =>
        (t.node 8).kind = .code && (t.node 8).existsOn .before &&
        (t.cutUnedited.node 7).bare = (t.node 8).bare &&
        (t.analysis 16).condition .before 8 =
          .ok (.and [.not (.var "C"), .not (.var "B"), .not (.var "A")]) &&
        (t.cutUnedited.analysis 16).condition .before 7 =
          .ok (.and [.not (.var "C"), .not (.var "A")]) &&
        ((t.analysis 16).classified 8).map (·.pattern) = .ok .refactoring &&
        ((t.cutUnedited.analysis 16).classified 7).map (·.pattern) = .ok .specialization) := by
    decide +kernel
  obtain ⟨t, parsed, facts⟩ := exists_of_parsesTo parses
  simp only [Bool.and_eq_true, decide_eq_true_eq] at facts
  obtain ⟨⟨⟨⟨⟨⟨code, present⟩, bare⟩, condition⟩, conditionCut⟩, pattern⟩, patternCut⟩ := facts
  exact ⟨t, _, _, parsed, code, present, bare, condition, conditionCut,
    ⟨(· = "B"), by decide⟩, pattern, patternCut⟩

end Patch

end Variability
