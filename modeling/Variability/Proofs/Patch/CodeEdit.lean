import Variability.Proofs.Patch.Preprocessor
import Variability.Proofs.Presence.Conversation
import Variability.Proofs.Presence.Verdict

/-!
Edits of nothing but code. Where a patch keeps every directive, the same branches are open on both
sides in front of each entry, however many lines of code stand on one side only. So what was kept
stands in the same place under the same condition before and after the edit, and every line of code
gets a pattern that leaves variability as it is, without a question to the oracle.
-/

namespace Variability

/-- The pattern of code in a branch that the edit kept in its place. -/
def EditPattern.ofCode : Edit → EditPattern
  | .kept => untouched
  | .added => addToPC
  | .removed => remFromPC

@[simp] theorem EditPattern.isNeutral_ofCode (e : Edit) : (ofCode e).isNeutral := by
  cases e <;> rfl

namespace Tree

def KeepsDirectives (t : Tree) : Prop :=
  ∀ i, (t.node i).kind.isDirective → (t.node i).edit = .kept

theorem conditionAlong_congr {t : Tree} {chain : List Nat}
    (same : ∀ i ∈ chain, t.featureMapping .before i = t.featureMapping .after i) :
    t.conditionAlong .before chain = t.conditionAlong .after chain := by
  induction chain with
  | nil => rfl
  | cons i chain ih =>
      obtain ⟨here, above⟩ := List.forall_mem_cons.mp same
      rw [conditionAlong, conditionAlong, ih above, here]

end Tree

namespace Query

theorem exists_mapM_ok {α β γ ε : Type} {f : α → Except ε β} {seen : β → γ}
    {expected : α → γ} {xs : List α} (each : ∀ x ∈ xs, ∃ y, f x = .ok y ∧ seen y = expected x) :
    ∃ ys, xs.mapM f = .ok ys ∧ ys.map seen = xs.map expected := by
  induction xs with
  | nil => exact ⟨[], rfl, rfl⟩
  | cons x xs ih =>
      obtain ⟨⟨y, here, same⟩, rest⟩ := List.forall_mem_cons.mp each
      obtain ⟨ys, mapped, sameRest⟩ := ih rest
      refine ⟨y :: ys, ?_, by rw [List.map_cons, List.map_cons, same, sameRest]⟩
      rw [List.mapM_cons, here, mapped]
      rfl

theorem anyM_eq_false {α : Type} {P : Memory → Prop} {f : α → StateM Memory Bool} {xs : List α}
    (none : ∀ x ∈ xs, ∀ m, P m → ∃ m', P m' ∧ (f x).run m = (false, m')) {m : Memory}
    (holds : P m) : ((xs.anyM f).run m).1 = false := by
  induction xs generalizing m with
  | nil => rfl
  | cons x xs ih =>
      obtain ⟨here, rest⟩ := List.forall_mem_cons.mp none
      obtain ⟨m', holds', run⟩ := here m holds
      rw [List.anyM, StateT.run_bind, run]
      exact ih rest holds'

end Query

theorem Analysis.editsVariability_of_neutral {a : Analysis} {i : Nat} {found : PatternMatch}
    (classified : (a.tree.view i).classify a.oracle EditPattern.elementary = .ok found)
    (neutral : found.pattern.isNeutral) (m : Memory) (agrees : m.Agrees a) :
    ∃ m', m'.Agrees a ∧ (a.editsVariability i).run m = (false, m') := by
  obtain ⟨m', agrees', run⟩ := classify_answers EditPattern.elementary i m agrees
  refine ⟨m', agrees', ?_⟩
  rw [editsVariability, StateT.run_bind, run, classified]
  change (pure (!found.pattern.isNeutral) : StateM Memory Bool).run m' = _
  rw [neutral]
  rfl

namespace Patch

theorem Overlays.edit_entry {t : Tree} {es : List Entry} (overlays : Overlays t es) {k : Nat}
    {e : Entry} (lookup : es[k]? = some e) : (t.node (k + 1)).edit = e.edit := by
  rw [← Node.bare_edit, overlays.entry lookup]
  rfl

theorem Overlays.edit_root {t : Tree} {es : List Entry} (overlays : Overlays t es) :
    (t.node 0).edit = .kept := by
  rw [← Node.bare_edit, overlays.root]
  rfl

namespace Accepted

variable {t : Tree} {es : List Entry} (accepted : Accepted es t) (keeps : t.KeepsDirectives)
include accepted keeps

theorem kept_or_code {k : Nat} {e : Entry} (lookup : es[k]? = some e) :
    e.edit = .kept ∨ e.kind = .code := by
  have line : e.kind ≠ .root := accepted.line lookup
  rw [← accepted.overlays.edit_entry lookup]
  cases kind : e.kind with
  | root => exact absurd kind line
  | code => exact .inr rfl
  | ifBranch | elifBranch | elseBranch | endif =>
      exact .inl (keeps (k + 1) (by rw [accepted.overlays.kind_entry lookup, kind]; rfl))

/-- The two stacks of open branches agree: code leaves them alone, and what is kept does the same to
both. -/
theorem openBranches_sides {k : Nat} (inside : k ≤ es.length) :
    openBranches .before (es.take k) = openBranches .after (es.take k) := by
  induction k with
  | zero => rfl
  | succ k ih =>
      have ih := ih (Nat.le_of_succ_le inside)
      have lookup : es[k]? = some es[k] := List.getElem?_eq_getElem inside
      generalize es[k] = e at lookup
      rw [openBranches_take_succ lookup, openBranches_take_succ lookup, ih]
      rcases accepted.kept_or_code keeps lookup with kept | code
      · rw [kept]
        rfl
      · simp [Entry.behind, code]

theorem parent_sides {i : Nat} (kept : (t.node i).edit = .kept) :
    t.parent .before i = t.parent .after i := by
  have overlays := accepted.overlays
  rcases Nat.lt_or_ge i t.size with inside | outside
  · by_cases root : i = 0
    · subst root
      rw [overlays.parent_root, overlays.parent_root]
    · obtain ⟨k, e, rfl, lookup⟩ := overlays.lookup inside root
      rw [overlays.edit_entry lookup] at kept
      rw [overlays.parent_entry lookup, overlays.parent_entry lookup, kept,
        accepted.openBranches_sides keeps
          (Nat.le_of_lt (List.getElem?_eq_some_iff.mp lookup).1)]
      rfl
  · rw [Tree.parent_of_size_le outside, Tree.parent_of_size_le outside]

theorem edit_parent {s : Side} {i p : Nat} (linked : t.parent s i = some p) :
    (t.node p).edit = .kept := by
  obtain ⟨-, scope⟩ := accepted.overlays.parent_owns linked
  by_cases root : p = 0
  · rw [root, accepted.overlays.edit_root]
  · have line := accepted.overlays.kind_ne_root (fun e member => (accepted.proper e member).line)
      root
    refine keeps p ?_
    cases kind : (t.node p).kind <;> simp_all [NodeKind.isScope, NodeKind.isDirective]

theorem rivals_sides {i : Nat} (kept : (t.node i).edit = .kept) :
    t.rivals .before i = t.rivals .after i := by
  by_cases further : (t.node i).kind = .elifBranch ∨ (t.node i).kind = .elseBranch
  swap
  · unfold Tree.rivals
    cases kind : (t.node i).kind <;> simp_all
  · induction i using Nat.strongRecOn with
    | ind i ih =>
        obtain ⟨k, e, rfl, lookup⟩ := accepted.exists_directive (i := i)
          (by rcases further with kind | kind <;> rw [kind] <;> decide)
          (by rcases further with kind | kind <;> rw [kind] <;> decide)
        rw [accepted.overlays.edit_entry lookup] at kept
        rw [accepted.overlays.kind_entry lookup] at further
        have inside := Nat.le_of_lt (List.getElem?_eq_some_iff.mp lookup).1
        have present (s : Side) : e.edit.existsOn s := by cases s <;> rw [kept] <;> rfl
        obtain ⟨b, outer, opened, continued, rivals⟩ :=
          accepted.exists_continued lookup (present .before) further
        obtain ⟨c, outer', openedToo, -, rivalsToo⟩ :=
          accepted.exists_continued lookup (present .after) further
        rw [accepted.openBranches_sides keeps inside] at opened
        obtain rfl := (List.cons.inj (opened.symm.trans openedToo)).1
        rw [rivals, rivalsToo]
        congr 1
        rcases continued with opens | follows
        · rw [Tree.rivals, Tree.rivals, opens]
        · have below : b ≤ (es.take k).length :=
            le_of_mem_openBranches (s := .after) (by rw [opened]; exact List.mem_cons_self)
          rw [List.length_take_of_le inside] at below
          exact ih b (Nat.lt_succ_of_le below) (keeps b (by rw [follows]; rfl)) (.inl follows)

theorem featureMapping_sides {i : Nat} (kept : (t.node i).edit = .kept) :
    t.featureMapping .before i = t.featureMapping .after i := by
  have present (s : Side) : (t.node i).existsOn s := by
    cases s <;> simp [Node.existsOn, kept, Edit.existsOn]
  have rivals := accepted.rivals_sides keeps kept
  unfold Tree.rivals at rivals
  simp only [Tree.featureMapping, present, Bool.not_true, Bool.false_eq_true, if_false]
  cases kind : (t.node i).kind <;> simp_all

/-- Kept nodes stand below the same nodes on both sides. -/
theorem lineage?_sides {i : Nat} (kept : (t.node i).edit = .kept) :
    t.lineage? .before i = t.lineage? .after i := by
  have climb (steps : Nat) {i : Nat} (kept : (t.node i).edit = .kept) :
      t.climb? .before steps i = t.climb? .after steps i := by
    induction steps generalizing i with
    | zero => rw [Tree.climb?, Tree.climb?, accepted.parent_sides keeps kept]
    | succ steps ih =>
        rw [Tree.climb?, Tree.climb?, accepted.parent_sides keeps kept]
        cases linked : t.parent .after i with
        | none => rfl
        | some p => simp only [ih (accepted.edit_parent keeps linked)]
  exact climb t.size kept

/-- What was kept has one presence condition. -/
theorem exists_condition_sides {i : Nat} (kept : (t.node i).edit = .kept) :
    ∃ f, ∀ s, t.presenceCondition s i = .ok f := by
  have present (s : Side) : (t.node i).existsOn s := by
    cases s <;> simp [Node.existsOn, kept, Edit.existsOn]
  obtain ⟨chain, lineage⟩ := accepted.overlays.parentsFirst.exists_lineage .after i
  have along : t.conditionAlong .before chain = t.conditionAlong .after chain := by
    refine Tree.conditionAlong_congr fun j member => accepted.featureMapping_sides keeps ?_
    rcases Tree.eq_or_parent_of_mem_lineage lineage member with rfl | ⟨c, linked⟩
    · exact kept
    · exact accepted.edit_parent keeps linked
  have same : t.presenceCondition .before i = t.presenceCondition .after i := by
    rw [Tree.presenceCondition, Tree.presenceCondition, accepted.lineage?_sides keeps kept, lineage]
    exact along
  obtain ⟨f, condition, -⟩ := accepted.exists_condition (.bounded 0) (present .after) lineage
  rw [Analysis.condition_eq] at condition
  exact ⟨f, fun s => by cases s <;> simp only [same, condition]⟩

theorem unmoved_kept {i : Nat} (inside : i < t.size) (kept : (t.node i).edit = .kept) :
    t.unmoved i := by
  rw [accepted.overlays.parentsFirst.unmoved_iff inside]
  rintro ⟨s, j, above, different⟩
  have keptAbove : (t.node j).edit = .kept := by
    rcases Relation.ReflTransGen.cases_tail above with rfl | ⟨c, -, linked⟩
    · exact kept
    · exact accepted.edit_parent keeps linked
  exact different (accepted.parent_sides keeps keptAbove)

/-- The pattern of a line is told from its edit alone. -/
theorem exists_classified {i : Nat} (inside : i < t.size) (code : (t.node i).kind = .code)
    (o : Oracle) :
    ∃ found, (t.view i).classify o EditPattern.elementary = .ok found ∧
      found.nodeId = (t.node i).id ∧ found.pattern = .ofCode (t.node i).edit := by
  have parentEdit {s : Side} {e : Edit} (other : e ≠ .kept) : (t.view i).parentEdit s ≠ some e := by
    intro edited
    obtain ⟨p, linked, edit⟩ := Option.map_eq_some_iff.mp edited
    exact other (edit.symm.trans (accepted.edit_parent keeps linked))
  have condition {s : Side} (present : (t.node i).edit.existsOn s) :
      ∃ f, (t.view i).condition s = .ok f := by
    obtain ⟨chain, lineage⟩ := accepted.overlays.parentsFirst.exists_lineage s i
    obtain ⟨f, condition, -⟩ :=
      accepted.exists_condition o (by simp [Node.existsOn, present]) lineage
    exact ⟨f, by rw [← condition, Analysis.condition_eq]; rfl⟩
  have classified : ∃ found, (t.view i).classify o EditPattern.elementary = .ok found ∧
      found.pattern = .ofCode (t.node i).edit := by
    cases edit : (t.node i).edit with
    | added =>
        obtain ⟨f, condition⟩ := condition (s := .after) (by rw [edit]; rfl)
        obtain ⟨found, classified, pattern⟩ := LineView.classify_added o code edit condition
        rw [if_neg (parentEdit (by decide))] at pattern
        exact ⟨found, classified, pattern⟩
    | removed =>
        obtain ⟨f, condition⟩ := condition (s := .before) (by rw [edit]; rfl)
        obtain ⟨found, classified, pattern⟩ := LineView.classify_removed o code edit condition
        rw [if_neg (parentEdit (by decide))] at pattern
        exact ⟨found, classified, pattern⟩
    | kept =>
        obtain ⟨f, condition⟩ := accepted.exists_condition_sides keeps edit
        have relation : (t.view i).relation o = .ok ⟨true, true⟩ := by
          simp [LineView.relation, Tree.view, condition, Oracle.relationOf, Oracle.implies,
            Except.mapError, bind, Except.bind, pure, Except.pure]
        obtain ⟨found, classified, pattern⟩ :=
          LineView.classify_kept code edit (condition .before) (condition .after) relation
        have still : (t.view i).unmoved = true := accepted.unmoved_kept keeps inside edit
        exact ⟨found, classified, by rw [pattern, still]; rfl⟩
  obtain ⟨found, classified, pattern⟩ := classified
  exact ⟨found, classified, (LineView.classify_ok classified).1, pattern⟩

end Accepted

/-- A patch that edits nothing but code edits no variability. A kept line has the same presence
condition on both sides and is untouched; an added line was added to its branch, and a removed one
removed from it. No oracle is needed for that, and nothing that was asked before matters. -/
theorem classify_code_edit {text path commit : String} {t : Tree}
    (parsed : parse text path commit = .ok (.ok t)) (keeps : t.KeepsDirectives) (o : Oracle)
    {m : Memory} (remembers : (⟨t, o⟩ : Analysis).Remembers m) :
    (∀ i < t.size, (t.node i).kind = .code →
      ((t.node i).edit = .kept → ∃ f, ∀ s, ((⟨t, o⟩ : Analysis).presence s i).answerIn m = .ok f) ∧
      ∃ found,
        ((⟨t, o⟩ : Analysis).classify EditPattern.elementary i).answerIn m = .ok found ∧
        found.nodeId = (t.node i).id ∧ found.pattern = .ofCode (t.node i).edit) ∧
    (∃ found, ((⟨t, o⟩ : Analysis).classifyAll EditPattern.elementary).answerIn m = .ok found ∧
      found.map (fun f => (f.nodeId, f.pattern)) =
        t.codeNodes.map fun i => ((t.node i).id, .ofCode (t.node i).edit)) ∧
    (((⟨t, o⟩ : Analysis).meets .hasEditsToVariability).run m).1 = false := by
  have accepted := accepted_of_parse parsed
  have classified {i : Nat} (inside : i < t.size) (code : (t.node i).kind = .code) :=
    accepted.exists_classified keeps inside code o
  have line {i : Nat} (listed : i ∈ t.codeNodes) : i < t.size ∧ (t.node i).kind = .code := by
    simpa [Tree.codeNodes, Tree.mem_positions] using listed
  refine ⟨fun i inside code => ⟨fun kept => ?_, ?_⟩, ?_, ?_⟩
  · obtain ⟨f, condition⟩ := accepted.exists_condition_sides keeps kept
    refine ⟨f, fun s => ?_⟩
    rw [(Analysis.presence_answers s i).answerIn_eq remembers.agrees]
    exact condition s
  · rw [remembers.classify_eq]
    exact classified inside code
  · have answers : Query.Answers (Memory.Agrees ⟨t, o⟩)
        ((⟨t, o⟩ : Analysis).classifyAll EditPattern.elementary)
        (t.codeNodes.mapM fun i => (t.view i).classify o EditPattern.elementary) :=
      .mapM (Analysis.classify_answers EditPattern.elementary) t.codeNodes
    rw [answers.answerIn_eq remembers.agrees]
    refine Query.exists_mapM_ok fun i listed => ?_
    obtain ⟨inside, code⟩ := line listed
    obtain ⟨found, here, id, pattern⟩ := classified inside code
    exact ⟨found, here, Prod.ext id pattern⟩
  · refine Query.anyM_eq_false (P := Memory.Agrees ⟨t, o⟩) (fun i listed => ?_) remembers.agrees
    obtain ⟨inside, code⟩ := line listed
    obtain ⟨found, here, -, pattern⟩ := classified inside code
    exact Analysis.editsVariability_of_neutral (a := ⟨t, o⟩) here
      (by rw [pattern, EditPattern.isNeutral_ofCode])

theorem classify_code_edit_alternative :
    ∃ t found, parse " #if A\n+x\n #elif B\n-x\n y\n #endif\n" "f" "c" = .ok (.ok t) ∧
      ((t.analysis 0).classifyAll EditPattern.elementary).answerIn (.blank t.size) = .ok found ∧
      found.map (·.pattern) = [.addToPC, .remFromPC, .untouched] ∧
      (((t.analysis 0).meets .hasEditsToVariability).run (.blank t.size)).1 = false := by
  have parses : parsesTo " #if A\n+x\n #elif B\n-x\n y\n #endif\n" "f" "c" (fun t =>
      (List.range t.size).all (fun i => !(t.node i).kind.isDirective || (t.node i).edit = .kept) &&
        t.codeNodes.map (fun i => EditPattern.ofCode (t.node i).edit) =
          [.addToPC, .remFromPC, .untouched]) := by decide +kernel
  obtain ⟨t, parsed, facts⟩ := exists_of_parsesTo parses
  simp only [Bool.and_eq_true, decide_eq_true_eq, List.all_eq_true, List.mem_range,
    Bool.or_eq_true, Bool.not_eq_true'] at facts
  obtain ⟨directives, patterns⟩ := facts
  have keeps : t.KeepsDirectives := by
    intro i directive
    have notCode : (t.node i).kind ≠ .code := fun code => by rw [code] at directive; cases directive
    exact (directives i (Tree.lt_size_of_kind_ne_code notCode)).resolve_left (by simp [directive])
  obtain ⟨-, ⟨found, classified, seen⟩, rejected⟩ :=
    classify_code_edit parsed keeps (.bounded 0) .blank
  refine ⟨t, found, parsed, classified, ?_, rejected⟩
  have seconds := congrArg (List.map Prod.snd) seen
  rw [List.map_map, List.map_map] at seconds
  exact seconds.trans patterns

end Patch

end Variability
