import Mathlib.Data.List.Basic
import Variability.Proofs.Formula.Meaning

/-!
Formulas as the folding constructors build them. In such a formula there is nothing left to fold:
constants stand alone, and a conjunction or a disjunction has two operands or more, none of its own
kind. Folding keeps the features in their order, or drops them all for a constant.
-/

namespace Variability.Formula

/-- Formulas whose operands are such that folding keeps each of them as it is. -/
inductive Folded : Formula → Prop where
  | tt : Folded tt
  | ff : Folded ff
  | var (x : String) : Folded (var x)
  | not {f : Formula} (operand : Folded f) (kept : f.neg = not f) : Folded (not f)
  | and {fs : List Formula} (operands : ∀ f ∈ fs, Folded f)
      (kept : ∀ f ∈ fs, conjuncts [f] = some [f]) (several : 2 ≤ fs.length) : Folded (and fs)
  | or {fs : List Formula} (operands : ∀ f ∈ fs, Folded f)
      (kept : ∀ f ∈ fs, disjuncts [f] = some [f]) (several : 2 ≤ fs.length) : Folded (or fs)

theorem conjuncts_append (fs gs : List Formula) :
    conjuncts (fs ++ gs) =
      (conjuncts fs).bind fun hs => (conjuncts gs).map (hs ++ ·) := by
  fun_induction conjuncts fs with
  | case1 => simp
  | case2 fs ih => simpa [conjuncts] using ih
  | case3 fs => rfl
  | case4 hs fs ih =>
      rw [List.cons_append, conjuncts, ih]
      cases conjuncts fs <;> simp [Function.comp_def]
  | case5 f fs _ _ _ ih =>
      rw [List.cons_append]
      cases f <;> cases kept : conjuncts fs <;> simp_all [conjuncts, Function.comp_def]

theorem disjuncts_append (fs gs : List Formula) :
    disjuncts (fs ++ gs) =
      (disjuncts fs).bind fun hs => (disjuncts gs).map (hs ++ ·) := by
  fun_induction disjuncts fs with
  | case1 => simp
  | case2 fs ih => simpa [disjuncts] using ih
  | case3 fs => rfl
  | case4 hs fs ih =>
      rw [List.cons_append, disjuncts, ih]
      cases disjuncts fs <;> simp [Function.comp_def]
  | case5 f fs _ _ _ ih =>
      rw [List.cons_append]
      cases f <;> cases kept : disjuncts fs <;> simp_all [disjuncts, Function.comp_def]

theorem conjuncts_of_kept {fs : List Formula} (kept : ∀ f ∈ fs, conjuncts [f] = some [f]) :
    conjuncts fs = some fs := by
  induction fs with
  | nil => rfl
  | cons f fs ih =>
      have first := kept f (by simp)
      have rest := ih fun g member => kept g (by simp [member])
      rw [← List.singleton_append, conjuncts_append, first, rest]
      rfl

theorem conj_of_kept {fs : List Formula} (kept : ∀ f ∈ fs, conjuncts [f] = some [f])
    (several : 2 ≤ fs.length) : conj fs = and fs := by
  rw [conj, conjuncts_of_kept kept]
  rcases fs with _ | ⟨f, _ | ⟨g, fs⟩⟩
  · simp at several
  · simp at several
  · rfl

theorem disjuncts_of_kept {fs : List Formula} (kept : ∀ f ∈ fs, disjuncts [f] = some [f]) :
    disjuncts fs = some fs := by
  induction fs with
  | nil => rfl
  | cons f fs ih =>
      have first := kept f (by simp)
      have rest := ih fun g member => kept g (by simp [member])
      rw [← List.singleton_append, disjuncts_append, first, rest]
      rfl

theorem disj_of_kept {fs : List Formula} (kept : ∀ f ∈ fs, disjuncts [f] = some [f])
    (several : 2 ≤ fs.length) : disj fs = or fs := by
  rw [disj, disjuncts_of_kept kept]
  rcases fs with _ | ⟨f, _ | ⟨g, fs⟩⟩
  · simp at several
  · simp at several
  · rfl

namespace Folded

theorem neg {f : Formula} (folded : Folded f) : Folded f.neg := by
  cases folded with
  | tt => exact .ff
  | ff => exact .tt
  | var x => exact .not (.var x) rfl
  | not operand => exact operand
  | and operands kept several => exact .not (.and operands kept several) rfl
  | or operands kept several => exact .not (.or operands kept several) rfl

private theorem of_conjuncts {fs gs : List Formula} (folded : ∀ f ∈ fs, Folded f)
    (found : conjuncts fs = some gs) : ∀ g ∈ gs, Folded g ∧ conjuncts [g] = some [g] := by
  fun_induction conjuncts fs generalizing gs with
  | case1 =>
      cases found
      simp
  | case2 fs ih => exact ih (fun f member => folded f (by simp [member])) found
  | case3 => cases found
  | case4 hs fs ih =>
      obtain ⟨rest, foundRest, rfl⟩ := Option.map_eq_some_iff.mp found
      have later := ih (fun f member => folded f (by simp [member])) foundRest
      cases folded (Formula.and hs) (by simp) with
      | and operands kept =>
          exact List.forall_mem_append.mpr
            ⟨fun g member => ⟨operands g member, kept g member⟩, later⟩
  | case5 f fs _ _ _ ih =>
      obtain ⟨rest, foundRest, rfl⟩ := Option.map_eq_some_iff.mp found
      have later := ih (fun f member => folded f (by simp [member])) foundRest
      refine List.forall_mem_cons.mpr ⟨⟨folded f (by simp), ?_⟩, later⟩
      cases f <;> simp_all [conjuncts]

private theorem of_disjuncts {fs gs : List Formula} (folded : ∀ f ∈ fs, Folded f)
    (found : disjuncts fs = some gs) : ∀ g ∈ gs, Folded g ∧ disjuncts [g] = some [g] := by
  fun_induction disjuncts fs generalizing gs with
  | case1 =>
      cases found
      simp
  | case2 fs ih => exact ih (fun f member => folded f (by simp [member])) found
  | case3 => cases found
  | case4 hs fs ih =>
      obtain ⟨rest, foundRest, rfl⟩ := Option.map_eq_some_iff.mp found
      have later := ih (fun f member => folded f (by simp [member])) foundRest
      cases folded (Formula.or hs) (by simp) with
      | or operands kept =>
          exact List.forall_mem_append.mpr
            ⟨fun g member => ⟨operands g member, kept g member⟩, later⟩
  | case5 f fs _ _ _ ih =>
      obtain ⟨rest, foundRest, rfl⟩ := Option.map_eq_some_iff.mp found
      have later := ih (fun f member => folded f (by simp [member])) foundRest
      refine List.forall_mem_cons.mpr ⟨⟨folded f (by simp), ?_⟩, later⟩
      cases f <;> simp_all [disjuncts]

theorem conj {fs : List Formula} (folded : ∀ f ∈ fs, Folded f) : Folded (conj fs) := by
  unfold Formula.conj
  split
  · exact .ff
  · exact .tt
  · next f found => exact (of_conjuncts folded found f (by simp)).1
  · next gs notNil notOne found =>
    have each := of_conjuncts folded found
    refine .and (fun g member => (each g member).1) (fun g member => (each g member).2) ?_
    match gs, notNil, notOne with
    | [], notNil, _ => exact (notNil rfl).elim
    | [f], _, notOne => exact (notOne f rfl).elim
    | _ :: _ :: gs, _, _ => simp

theorem disj {fs : List Formula} (folded : ∀ f ∈ fs, Folded f) : Folded (disj fs) := by
  unfold Formula.disj
  split
  · exact .tt
  · exact .ff
  · next f found => exact (of_disjuncts folded found f (by simp)).1
  · next gs notNil notOne found =>
    have each := of_disjuncts folded found
    refine .or (fun g member => (each g member).1) (fun g member => (each g member).2) ?_
    match gs, notNil, notOne with
    | [], notNil, _ => exact (notNil rfl).elim
    | [f], _, notOne => exact (notOne f rfl).elim
    | _ :: _ :: gs, _, _ => simp

theorem conj_singleton {f : Formula} (folded : Folded f) : Formula.conj [f] = f := by
  cases folded with
  | tt | ff | var | not | or => rfl
  | @and fs operands kept several =>
      have nested : conjuncts [.and fs] = some fs := by simp [conjuncts]
      have same := conj_of_kept kept several
      rw [Formula.conj, conjuncts_of_kept kept] at same
      rw [Formula.conj, nested]
      exact same

theorem disj_singleton {f : Formula} (folded : Folded f) : Formula.disj [f] = f := by
  cases folded with
  | tt | ff | var | not | and => rfl
  | @or fs operands kept several =>
      have nested : disjuncts [.or fs] = some fs := by simp [disjuncts]
      have same := disj_of_kept kept several
      rw [Formula.disj, disjuncts_of_kept kept] at same
      rw [Formula.disj, nested]
      exact same

end Folded

/-! The features of folded formulas. -/

theorem occurrences_neg (f : Formula) : f.neg.occurrences = f.occurrences := by
  cases f <;> simp [neg, occurrences]

theorem occurrencesAll_eq_flatMap (fs : List Formula) :
    occurrencesAll fs = fs.flatMap occurrences := by
  induction fs with
  | nil => rfl
  | cons f fs ih => rw [occurrencesAll, ih, List.flatMap_cons]

theorem mem_occurrencesAll_of_mem {f : Formula} {fs : List Formula} (member : f ∈ fs) {x : String}
    (occurs : x ∈ f.occurrences) : x ∈ occurrencesAll fs := by
  rw [occurrencesAll_eq_flatMap]
  exact List.mem_flatMap.mpr ⟨f, member, occurs⟩

theorem occurrencesAll_append (fs gs : List Formula) :
    occurrencesAll (fs ++ gs) = occurrencesAll fs ++ occurrencesAll gs := by
  simp only [occurrencesAll_eq_flatMap, List.flatMap_append]

theorem not_constant_of_conjuncts {f : Formula} (kept : conjuncts [f] = some [f]) :
    f ≠ tt ∧ f ≠ ff := by
  constructor
  · rintro rfl
    cases kept
  · rintro rfl
    cases kept

theorem not_constant_of_disjuncts {f : Formula} (kept : disjuncts [f] = some [f]) :
    f ≠ tt ∧ f ≠ ff := by
  constructor
  · rintro rfl
    cases kept
  · rintro rfl
    cases kept

/-- Only constants have no feature. -/
theorem Folded.occurrences_ne_nil {f : Formula} (folded : Folded f) (proper : f ≠ .tt ∧ f ≠ .ff) :
    f.occurrences ≠ [] := by
  induction folded with
  | tt => exact absurd rfl proper.1
  | ff => exact absurd rfl proper.2
  | var x => exact List.cons_ne_nil x []
  | not _ kept ih =>
      refine ih ⟨?_, ?_⟩
      · rintro rfl
        cases kept
      · rintro rfl
        cases kept
  | @and fs _ kept several ih =>
      match fs, several with
      | f :: g :: fs, _ =>
          exact List.append_ne_nil_of_left_ne_nil
            (ih f (by simp) (not_constant_of_conjuncts (kept f (by simp)))) _
  | @or fs _ kept several ih =>
      match fs, several with
      | f :: g :: fs, _ =>
          exact List.append_ne_nil_of_left_ne_nil
            (ih f (by simp) (not_constant_of_disjuncts (kept f (by simp)))) _

private theorem occurrencesAll_conjuncts {fs gs : List Formula} (found : conjuncts fs = some gs) :
    occurrencesAll gs = occurrencesAll fs := by
  fun_induction conjuncts fs generalizing gs with
  | case1 =>
      cases found
      rfl
  | case2 fs ih => simpa [occurrencesAll, occurrences] using ih found
  | case3 => cases found
  | case4 hs fs ih =>
      obtain ⟨rest, foundRest, rfl⟩ := Option.map_eq_some_iff.mp found
      rw [occurrencesAll_append, ih foundRest, occurrencesAll, occurrences]
  | case5 f fs _ _ _ ih =>
      obtain ⟨rest, foundRest, rfl⟩ := Option.map_eq_some_iff.mp found
      rw [occurrencesAll, occurrencesAll, ih foundRest]

private theorem occurrencesAll_disjuncts {fs gs : List Formula} (found : disjuncts fs = some gs) :
    occurrencesAll gs = occurrencesAll fs := by
  fun_induction disjuncts fs generalizing gs with
  | case1 =>
      cases found
      rfl
  | case2 fs ih => simpa [occurrencesAll, occurrences] using ih found
  | case3 => cases found
  | case4 hs fs ih =>
      obtain ⟨rest, foundRest, rfl⟩ := Option.map_eq_some_iff.mp found
      rw [occurrencesAll_append, ih foundRest, occurrencesAll, occurrences]
  | case5 f fs _ _ _ ih =>
      obtain ⟨rest, foundRest, rfl⟩ := Option.map_eq_some_iff.mp found
      rw [occurrencesAll, occurrencesAll, ih foundRest]

/-- A conjunction has the features of its operands, unless it is contradictory. -/
theorem occurrences_conj (fs : List Formula) :
    (conj fs).occurrences = occurrencesAll fs ∨ (conj fs).occurrences = [] := by
  unfold conj
  split
  · exact .inr rfl
  · exact .inr rfl
  · next f found =>
    rw [← occurrencesAll_conjuncts found]
    exact .inl (List.append_nil _).symm
  · next gs _ _ found =>
    rw [← occurrencesAll_conjuncts found]
    exact .inl rfl

theorem occurrences_disj (fs : List Formula) :
    (disj fs).occurrences = occurrencesAll fs ∨ (disj fs).occurrences = [] := by
  unfold disj
  split
  · exact .inr rfl
  · exact .inr rfl
  · next f found =>
    rw [← occurrencesAll_disjuncts found]
    exact .inl (List.append_nil _).symm
  · next gs _ _ found =>
    rw [← occurrencesAll_disjuncts found]
    exact .inl rfl

end Variability.Formula
