import Variability.Proofs.Guard.Legible
import Variability.Proofs.Patch.Flawless
import Variability.Proofs.Patch.Labels
import Variability.Proofs.Patch.Preprocessor

/-!
Guards and presence conditions in print. Presence conditions are put together from the guards of a
patch, so they are read off their printed text under the same condition as the guards themselves.
-/

namespace Variability

namespace Tree

private theorem exists_of_map_ok {ε α β : Type} {x : Except ε α} {f : α → β} {b : β}
    (mapped : x.map f = .ok b) : ∃ a, x = .ok a ∧ f a = b := by
  cases x with
  | error e => cases mapped
  | ok a => exact ⟨a, rfl, Except.ok.inj mapped⟩

section

variable {P : Formula → Prop} {t : Tree} (tt : P .tt) (neg : ∀ f, P f → P f.neg)
  (conj : ∀ fs, (∀ f ∈ fs, P f) → P (.conj fs)) (guards : ∀ i f, (t.node i).guard = some f → P f)
include guards

theorem guard_induction {i : Nat} {f : Formula} (found : t.guard i = .ok f) : P f := by
  unfold guard at found
  split at found
  · cases found
  · next known =>
    cases found
    exact guards i f known

include neg

theorem negatedGuards_induction {js : List Nat} {fs : List Formula}
    (found : t.negatedGuards js = .ok fs) : ∀ f ∈ fs, P f := by
  induction js generalizing fs with
  | nil =>
      cases found
      exact nofun
  | cons j js ih =>
      rw [negatedGuards] at found
      split at found
      · cases found
      · next g first =>
        split at found
        · cases found
        · next gs rest =>
          cases found
          exact List.forall_mem_cons.mpr ⟨neg g (guard_induction guards first), ih rest⟩

include tt conj

theorem featureMapping_induction {s : Side} {i : Nat} {f : Formula}
    (found : t.featureMapping s i = .ok f) : P f := by
  unfold featureMapping at found
  simp only at found
  split at found
  · cases found
  · split at found
    · cases found
      exact tt
    · cases found
      exact tt
    · cases found
      exact tt
    · exact guard_induction guards found
    · split at found
      · cases found
      · next g own =>
        obtain ⟨gs, earlier, rfl⟩ := exists_of_map_ok found
        exact conj _ (List.forall_mem_cons.mpr
          ⟨guard_induction guards own, negatedGuards_induction neg guards earlier⟩)
    · obtain ⟨gs, earlier, rfl⟩ := exists_of_map_ok found
      exact conj _ (negatedGuards_induction neg guards earlier)

theorem conditionAlong_induction {s : Side} {chain : List Nat} {f : Formula}
    (found : t.conditionAlong s chain = .ok f) : P f := by
  induction chain generalizing f with
  | nil =>
      cases found
      exact tt
  | cons i above ih =>
      rw [conditionAlong] at found
      split at found
      · cases found
      · next inherited further =>
        obtain ⟨mapping, own, rfl⟩ := exists_of_map_ok found
        refine conj _ fun g member => ?_
        rcases List.mem_pair.mp member with rfl | rfl
        · exact featureMapping_induction tt neg conj guards own
        · exact ih further

/-- What is true of the guards of a tree, and kept by folding, is true of presence conditions. -/
theorem presenceCondition_induction {s : Side} {i : Nat} {f : Formula}
    (found : t.presenceCondition s i = .ok f) : P f := by
  unfold presenceCondition at found
  split at found
  · cases found
  · exact conditionAlong_induction tt neg conj guards found

end

end Tree

namespace Patch

/-- The presence conditions of a patch are put together from its guards. -/
theorem assembled_of_presenceCondition {text path commit : String} {t : Tree}
    (parsed : parse text path commit = .ok (.ok t)) {s : Side} {i : Nat} {f : Formula}
    (found : t.presenceCondition s i = .ok f) : Guard.Assembled f := by
  have overlays := (accepted_of_parse parsed).overlays
  have labeled : ∀ e ∈ entriesOf text, e.Labeled :=
    read_labeled none 1 (by simp) fun _ => Text.newline_not_mem_of_mem_lines
  refine Tree.presenceCondition_induction .tt (fun f => .neg) (fun fs => .conj) ?_ found
  intro j g guard
  have line : j ≠ 0 := by
    rintro rfl
    rw [show (t.node 0).guard = none from congrArg Node.guard overlays.root] at guard
    cases guard
  have inside : j < t.size := by
    by_contra outside
    rw [Tree.node_of_size_le (Nat.le_of_not_lt outside)] at guard
    cases guard
  obtain ⟨k, e, rfl, lookup⟩ := overlays.lookup inside line
  rw [overlays.guard_entry lookup] at guard
  obtain ⟨h, normal, -, rfl⟩ := (labeled e (List.mem_of_getElem? lookup)).guard g guard
  exact Guard.assembled_of_parse normal.parse

/-- Formulas that are shown: those of guards, and the presence conditions of patches. -/
inductive Shown : Formula → Prop where
  | guard {cs : List Char} {g : Guard} (parsed : Guard.parse cs = .ok g) : Shown g.formula
  | condition {text path commit : String} {t : Tree} {s : Side} {i : Nat} {f : Formula}
      (parsed : parse text path commit = .ok (.ok t)) (found : t.presenceCondition s i = .ok f) :
      Shown f

theorem Shown.assembled {f : Formula} (shown : Shown f) : Guard.Assembled f := by
  cases shown with
  | guard parsed => exact Guard.assembled_of_parse parsed
  | condition parsed found => exact assembled_of_presenceCondition parsed found

/-- A guard or a presence condition is read off its printed text exactly when none of its features
is the keyword of guards or leaves a quote open. -/
theorem display_reads_back_iff {f : Formula} (shown : Shown f) :
    (∃ g, Guard.parse f.display.toList = .ok g ∧ g.formula = f) ↔
      ∀ x ∈ f.occurrences, x ≠ "defined" ∧ Guard.openQuote? none x.toList = none := by
  rw [Formula.display, String.toList_ofList]
  exact Guard.parse_print_iff shown.assembled

theorem display_reads_back_else :
    (∃ g, Guard.parse "!(A == '\"') || B".toList = .ok g ∧
        g.formula = .or [.not (.var "A == '\"'"), .var "B"]) ∧
      ∃ t g, parse " #if A > 0\n x\n #else\n y\n #endif" "f" "c" = .ok (.ok t) ∧
        t.presenceCondition .before 4 = .ok (.not (.var "A > 0")) ∧
          Guard.parse "!(A > 0)".toList = .ok g ∧ g.formula = .not (.var "A > 0") := by
  constructor
  · have parsed : Guard.parse "! A=='\"'||defined B".toList =
        .ok ⟨"!A == '\"' || defined B", .or [.not (.var "A == '\"'"), .var "B"]⟩ := by
      decide +kernel
    exact (display_reads_back_iff (.guard parsed)).mpr (by decide +kernel)
  · have parses : parsesTo " #if A > 0\n x\n #else\n y\n #endif" "f" "c"
        (fun t => t.presenceCondition .before 4 = .ok (.not (.var "A > 0"))) := by decide +kernel
    obtain ⟨t, parsed, found⟩ := exists_of_parsesTo parses
    have found := of_decide_eq_true found
    obtain ⟨g, again, same⟩ :=
      (display_reads_back_iff (.condition parsed found)).mpr (by decide +kernel)
    exact ⟨t, g, parsed, found, again, same⟩

/-- The keyword of guards can be asked for as a macro, and is then printed as a name. -/
theorem not_display_reads_back :
    ¬ ∀ f, Shown f → ∃ g, Guard.parse f.display.toList = .ok g ∧ g.formula = f := by
  intro readsBack
  have asked : Guard.parse "defined(defined)".toList =
      .ok ⟨"defined(defined)", .var "defined"⟩ := by decide +kernel
  have unread : Guard.parse (Formula.var "defined").display.toList =
      .error (.expectedIdentifier "") := by decide +kernel
  obtain ⟨g, parsed, -⟩ := readsBack _ (.guard asked)
  rw [unread] at parsed
  cases parsed

end Patch

end Variability
