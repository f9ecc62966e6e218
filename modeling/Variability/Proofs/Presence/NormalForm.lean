import Variability.Proofs.Formula.Oracle
import Variability.Proofs.Guard.Features
import Variability.Proofs.Patch.Exchange
import Variability.Proofs.Presence.Conversation

/-!
Normal forms. The folding constructors keep the meaning of any operands, and normal operands stay
normal under them, although only one level is folded at a time. So all formulas that guards, feature
mappings, presence conditions and exclusive choices between them lead to are normal.
-/

namespace Variability

namespace Formula

/-- No constant occurs. No negation is negated, no conjunction stands directly in a conjunction and
no disjunction in a disjunction, and these have two operands or more. -/
inductive Reduced : Formula → Prop where
  | var (x : String) : Reduced (var x)
  | not {f : Formula} (operand : Reduced f) (single : ∀ g, f ≠ not g) : Reduced (not f)
  | and {fs : List Formula} (operands : ∀ f ∈ fs, Reduced f) (flat : ∀ gs, and gs ∉ fs)
      (several : 2 ≤ fs.length) : Reduced (and fs)
  | or {fs : List Formula} (operands : ∀ f ∈ fs, Reduced f) (flat : ∀ gs, or gs ∉ fs)
      (several : 2 ≤ fs.length) : Reduced (or fs)

/-- A constant, or a formula without anything to fold. -/
def Normal (f : Formula) : Prop :=
  f = tt ∨ f = ff ∨ f.Reduced

theorem Normal.reduced {f : Formula} (normal : f.Normal) (proper : f ≠ tt ∧ f ≠ ff) : f.Reduced :=
  (normal.resolve_left proper.1).resolve_left proper.2

theorem Folded.and_not_mem {fs : List Formula} (folded : ∀ f ∈ fs, Folded f)
    (kept : ∀ f ∈ fs, conjuncts [f] = some [f]) (gs : List Formula) : Formula.and gs ∉ fs := by
  intro member
  have spliced : conjuncts [.and gs] = some gs := by simp [conjuncts]
  have alone : gs = [.and gs] := Option.some.inj (spliced.symm.trans (kept _ member))
  cases folded _ member with
  | and _ _ several => exact absurd (congrArg List.length alone) (Nat.ne_of_gt several)

theorem Folded.or_not_mem {fs : List Formula} (folded : ∀ f ∈ fs, Folded f)
    (kept : ∀ f ∈ fs, disjuncts [f] = some [f]) (gs : List Formula) : Formula.or gs ∉ fs := by
  intro member
  have spliced : disjuncts [.or gs] = some gs := by simp [disjuncts]
  have alone : gs = [.or gs] := Option.some.inj (spliced.symm.trans (kept _ member))
  cases folded _ member with
  | or _ _ several => exact absurd (congrArg List.length alone) (Nat.ne_of_gt several)

theorem proper_of_neg_eq_not {f : Formula} (kept : f.neg = not f) :
    (f ≠ tt ∧ f ≠ ff) ∧ ∀ g, f ≠ not g := by
  refine ⟨⟨?_, ?_⟩, ?_⟩
  · rintro rfl
    cases kept
  · rintro rfl
    cases kept
  · rintro g rfl
    have doubled : g = not (not g) := kept
    have size := congrArg sizeOf doubled
    simp only [not.sizeOf_spec] at size
    omega

/-- What folding leaves as it is is normal. -/
theorem Folded.normal {f : Formula} (folded : Folded f) : f.Normal := by
  induction folded with
  | tt => exact .inl rfl
  | ff => exact .inr (.inl rfl)
  | var x => exact .inr (.inr (.var x))
  | @not f _ kept ih =>
      obtain ⟨proper, single⟩ := proper_of_neg_eq_not kept
      exact .inr (.inr (.not (ih.reduced proper) single))
  | @and fs operands kept several ih =>
      have reduced (f : Formula) (member : f ∈ fs) : f.Reduced :=
        (ih f member).reduced (not_constant_of_conjuncts (kept f member))
      exact .inr (.inr (.and reduced (and_not_mem operands kept) several))
  | @or fs operands kept several ih =>
      have reduced (f : Formula) (member : f ∈ fs) : f.Reduced :=
        (ih f member).reduced (not_constant_of_disjuncts (kept f member))
      exact .inr (.inr (.or reduced (or_not_mem operands kept) several))

theorem Folded.xor {f g : Formula} (folded : Folded f) (foldedToo : Folded g) :
    Folded (f.xor g) := by
  have only : Folded (Formula.conj [f, g.neg]) := .conj (by simp [folded, foldedToo.neg])
  have onlyToo : Folded (Formula.conj [f.neg, g]) := .conj (by simp [folded.neg, foldedToo])
  exact .disj (by simp [only, onlyToo])

/-- A guard of some text, or of a line with a directive, reads as this formula. -/
inductive OfGuard : Formula → Prop where
  | text {cs : List Char} {g : Guard} (parsed : Guard.parse cs = .ok g) : OfGuard g.formula
  | line {line : List Char} {kind : NodeKind} {g : Guard}
      (read : Directive.ofLine line = .ok (some ⟨kind, some g⟩)) : OfGuard g.formula

theorem folded_of_macroGuard {defined : Bool} {rest : List Char} {g : Guard}
    (asked : Directive.macroGuard defined rest = .ok g) : Folded g.formula := by
  rw [Directive.macroGuard] at asked
  generalize (Text.words (Guard.stripComments false rest)).headD [] = name at asked
  simp only at asked
  split at asked
  · have feature : Folded (var (String.ofList name)) := .var _
    cases defined with
    | true =>
        cases asked
        exact feature
    | false =>
        cases asked
        exact feature.neg
  · cases asked

theorem OfGuard.folded {f : Formula} (read : OfGuard f) : Folded f := by
  cases read with
  | text parsed => exact (Guard.assembled_of_parse parsed).folded
  | @line line kind g read =>
      rw [Directive.ofLine] at read
      split at read
      · cases read
      · next keyword rest _ =>
        cases keyword with
        | expression kind =>
            cases parsed : Guard.parse rest with
            | error e => simp [Directive.Keyword.read, parsed, Except.map] at read
            | ok guard =>
                rw [Directive.Keyword.read, parsed] at read
                cases read
                exact (Guard.assembled_of_parse parsed).folded
        | macroName kind defined =>
            cases asked : Directive.macroGuard defined rest with
            | error e => simp [Directive.Keyword.read, asked, Except.map] at read
            | ok guard =>
                rw [Directive.Keyword.read, asked] at read
                cases read
                exact folded_of_macroGuard asked
        | bare kind => cases read

end Formula

namespace Tree

open Formula (Folded OfGuard)

/-- Every guard was read from text. -/
def GuardsRead (t : Tree) : Prop :=
  ∀ i f, (t.node i).guard = some f → OfGuard f

variable {t : Tree} {s : Side}

section Folded

variable (guards : ∀ i f, (t.node i).guard = some f → Folded f)
include guards

theorem folded_guard {i : Nat} {f : Formula} (asked : t.guard i = .ok f) : Folded f := by
  rw [guard] at asked
  split at asked
  · cases asked
  · next found =>
    cases asked
    exact guards i f found

theorem folded_negatedGuards {js : List Nat} {fs : List Formula}
    (asked : t.negatedGuards js = .ok fs) : ∀ f ∈ fs, Folded f := by
  induction js generalizing fs with
  | nil =>
      cases asked
      exact List.forall_mem_nil _
  | cons j js ih =>
      rw [negatedGuards] at asked
      split at asked
      · cases asked
      · next g found =>
        split at asked
        · cases asked
        · next gs rest =>
          cases asked
          exact List.forall_mem_cons.mpr ⟨(folded_guard guards found).neg, ih rest⟩

theorem folded_featureMapping {i : Nat} {f : Formula} (asked : t.featureMapping s i = .ok f) :
    Folded f := by
  rw [featureMapping] at asked
  split at asked
  · cases asked
  · split at asked
    · cases asked
      exact .tt
    · cases asked
      exact .tt
    · cases asked
      exact .tt
    · exact folded_guard guards asked
    · split at asked
      · cases asked
      · next g found =>
        cases negated : t.negatedGuards (t.earlierBranches s i) with
        | error e => simp [negated, Except.map] at asked
        | ok gs =>
            rw [negated] at asked
            cases asked
            exact .conj (List.forall_mem_cons.mpr
              ⟨folded_guard guards found, folded_negatedGuards guards negated⟩)
    · cases negated : t.negatedGuards (t.earlierBranches s i) with
      | error e => simp [negated, Except.map] at asked
      | ok gs =>
          rw [negated] at asked
          cases asked
          exact .conj (folded_negatedGuards guards negated)

theorem folded_conditionAlong {chain : List Nat} {f : Formula}
    (asked : t.conditionAlong s chain = .ok f) : Folded f := by
  induction chain generalizing f with
  | nil =>
      cases asked
      exact .tt
  | cons i above ih =>
      rw [conditionAlong] at asked
      split at asked
      · cases asked
      · next inherited found =>
        cases mapped : t.featureMapping s i with
        | error e => simp [mapped, Except.map] at asked
        | ok mapping =>
            rw [mapped] at asked
            cases asked
            have own := folded_featureMapping guards mapped
            exact .conj (by simp [own, ih found])

theorem folded_presenceCondition {i : Nat} {f : Formula} (asked : t.presenceCondition s i = .ok f) :
    Folded f := by
  rw [presenceCondition] at asked
  split at asked
  · cases asked
  · exact folded_conditionAlong guards asked

end Folded

theorem guardsRead_of_parse {text path commit : String}
    (parsed : Patch.parse text path commit = .ok (.ok t)) : t.GuardsRead := by
  intro i f found
  have lettered := LineGraph.lettered_node (Patch.lettered_of_parse parsed) i
  cases guarded : (t.node i).kind.hasGuard with
  | true =>
      obtain ⟨guard, normal, -, same⟩ := lettered.guarded guarded
      obtain rfl := Option.some.inj (same.symm.trans found)
      exact .text normal.parse
  | false =>
      rw [lettered.unguarded guarded] at found
      cases found

end Tree

namespace Formula

/-- The formulas of guards, the answers to questions about a tree whose guards were read, whatever
else is asked in the same conversation, and exclusive choices between such formulas. -/
inductive Produced : Formula → Prop where
  | guard {cs : List Char} {g : Guard} (parsed : Guard.parse cs = .ok g) : Produced g.formula
  | mapping {t : Tree} {s : Side} {i : Nat} {f : Formula} (guards : t.GuardsRead)
      (asked : t.featureMapping s i = .ok f) : Produced f
  | condition {a : Analysis} {calls : List Call} {s : Side} {i : Nat} {f : Formula}
      (guards : a.tree.GuardsRead)
      (replied : ⟨.condition s i, .ok f⟩ ∈ ((a.replies calls).run (.blank a.tree.size)).1) :
      Produced f
  | xor {f g : Formula} (left : Produced f) (right : Produced g) : Produced (f.xor g)

theorem replied_iff {a : Analysis} {calls : List Call} {s : Side} {i : Nat} {f : Formula} :
    ⟨.condition s i, .ok f⟩ ∈ ((a.replies calls).run (.blank a.tree.size)).1 ↔
      .condition s i ∈ calls ∧ a.tree.presenceCondition s i = .ok f := by
  rw [Analysis.replies_of_agrees (Memory.agrees_blank a _), List.mem_map]
  constructor
  · rintro ⟨c, asked, same⟩
    obtain ⟨rfl, same⟩ := Sigma.mk.inj same
    exact ⟨asked, (Analysis.condition_eq s i).symm.trans (eq_of_heq same)⟩
  · rintro ⟨asked, condition⟩
    exact ⟨_, asked, congrArg (Sigma.mk _) ((Analysis.condition_eq s i).trans condition)⟩

theorem Produced.folded {f : Formula} (produced : Produced f) : Folded f := by
  induction produced with
  | guard parsed => exact (OfGuard.text parsed).folded
  | mapping guards asked =>
      exact Tree.folded_featureMapping (fun i f found => (guards i f found).folded) asked
  | condition guards replied =>
      exact Tree.folded_presenceCondition (fun i f found => (guards i f found).folded)
        (replied_iff.mp replied).2
  | xor _ _ left right => exact left.xor right

/-- The folding constructors mean what they say of any operands, folded or not, and every formula
that is produced is normal. -/
theorem constructors_normal :
    (∀ (env : String → Bool) (f g : Formula) (fs : List Formula),
      f.neg.eval env = !f.eval env ∧
      (conj fs).eval env = fs.all (·.eval env) ∧
      (disj fs).eval env = fs.any (·.eval env) ∧
      (f.xor g).eval env = (f.eval env ^^ g.eval env)) ∧
    ∀ f, Produced f → f.Normal := by
  constructor
  · intro env f g fs
    exact ⟨eval_neg env f, eval_conj env fs, eval_disj env fs, eval_xor env⟩
  · intro f produced
    exact produced.folded.normal

/-- The condition of a branch behind a negated conjunction, which is spliced into the conjunction
with its own guard, and another guard. -/
theorem constructors_normal_branch :
    ∃ t f g, Patch.parse " #if !(A && B)\n #elif C\n x\n #endif\n" "f" "c" = .ok (.ok t) ∧
      t.presenceCondition .after 3 = .ok f ∧ Guard.parse "C || !!(0 || D)".toList = .ok g ∧
      Produced (f.xor g.formula) ∧ (f.xor g.formula).Normal := by
  have parses : Patch.parsesTo " #if !(A && B)\n #elif C\n x\n #endif\n" "f" "c"
      (fun t => (t.presenceCondition .after 3).toOption.isSome) := by decide +kernel
  obtain ⟨t, parsed, answered⟩ := Patch.exists_of_parsesTo parses
  cases asked : t.presenceCondition .after 3 with
  | error e =>
      rw [asked] at answered
      cases answered
  | ok f =>
      have guard : Guard.parse "C || !!(0 || D)".toList =
          .ok ⟨"C || !!(0 || D)", or [var "C", var "D"]⟩ := by decide +kernel
      have replied : ⟨.condition .after 3, .ok f⟩ ∈
          (((t.analysis 16).replies [.relation 3, .condition .after 3]).run (.blank t.size)).1 :=
        replied_iff.mpr ⟨by simp, asked⟩
      have produced := Produced.xor (.condition (Tree.guardsRead_of_parse parsed) replied)
        (.guard guard)
      exact ⟨t, f, _, parsed, asked, guard, produced, constructors_normal.2 _ produced⟩

end Formula

end Variability
