import Mathlib.Data.Set.Card
import Variability.Proofs.Formula.Satisfiability

/-!
How the bundled oracle answers. The features it counts are the names that stand somewhere in the
formula, each once; within the bounds every question has an answer, and each answer is what it says
about all assignments.
-/

namespace Variability

namespace Formula

/-- A name stands somewhere in a formula. -/
inductive Mentions (x : String) : Formula → Prop
  | var : Mentions x (.var x)
  | not {f : Formula} : f.Mentions x → Mentions x (.not f)
  | and {f : Formula} {fs : List Formula} : f ∈ fs → f.Mentions x → Mentions x (.and fs)
  | or {f : Formula} {fs : List Formula} : f ∈ fs → f.Mentions x → Mentions x (.or fs)

/-- The variables of a formula, however it was built. -/
def names (f : Formula) : Set String :=
  { x | f.Mentions x }

@[simp] theorem mem_names {f : Formula} {x : String} : x ∈ f.names ↔ f.Mentions x :=
  Iff.rfl

@[simp] theorem not_mentions_tt (x : String) : ¬ tt.Mentions x := nofun

@[simp] theorem not_mentions_ff (x : String) : ¬ ff.Mentions x := nofun

@[simp] theorem mentions_var {x y : String} : (var y).Mentions x ↔ x = y := by
  constructor
  · rintro ⟨⟩
    rfl
  · rintro rfl
    exact .var

@[simp] theorem mentions_not {f : Formula} {x : String} : (not f).Mentions x ↔ f.Mentions x := by
  constructor
  · rintro ⟨⟩
    assumption
  · exact .not

@[simp] theorem mentions_and {fs : List Formula} {x : String} :
    (and fs).Mentions x ↔ ∃ f ∈ fs, f.Mentions x := by
  constructor
  · rintro ⟨⟩
    exact ⟨_, ‹_›, ‹_›⟩
  · rintro ⟨f, member, mentions⟩
    exact .and member mentions

@[simp] theorem mentions_or {fs : List Formula} {x : String} :
    (or fs).Mentions x ↔ ∃ f ∈ fs, f.Mentions x := by
  constructor
  · rintro ⟨⟩
    exact ⟨_, ‹_›, ‹_›⟩
  · rintro ⟨f, member, mentions⟩
    exact .or member mentions

mutual
theorem mem_occurrences {x : String} : (f : Formula) → (x ∈ f.occurrences ↔ f.Mentions x)
  | tt | ff => by simp [occurrences]
  | var y => by simp [occurrences]
  | not f => by rw [occurrences, mem_occurrences f, mentions_not]
  | and fs => by rw [occurrences, mem_occurrencesAll fs, mentions_and]
  | or fs => by rw [occurrences, mem_occurrencesAll fs, mentions_or]

theorem mem_occurrencesAll {x : String} :
    (fs : List Formula) → (x ∈ occurrencesAll fs ↔ ∃ f ∈ fs, f.Mentions x)
  | [] => by simp [occurrencesAll]
  | f :: fs => by
      rw [occurrencesAll, List.mem_append, mem_occurrences f, mem_occurrencesAll fs]
      simp
end

theorem mem_featuresOf {fs : List Formula} {x : String} :
    x ∈ featuresOf fs ↔ ∃ f ∈ fs, f.Mentions x := by
  simp only [featuresOf, mem_foldr_insertName, List.mem_flatMap, mem_features, mem_occurrences]

/-- The features that are counted are the variables, each once. -/
theorem length_features (f : Formula) : f.features.length = f.names.ncard := by
  have distinct : f.features.Nodup := by
    refine f.ascending_features.imp ?_
    rintro x y before rfl
    exact String.lt_irrefl x before
  have same : f.names = (f.features.toFinset : Set String) := by
    ext x
    rw [mem_names, List.coe_toFinset, Set.mem_ofPred_eq, mem_features, mem_occurrences]
  rw [same, Set.ncard_coe_finset, List.toFinset_card_of_nodup distinct]

theorem finite_names (f : Formula) : f.names.Finite := by
  refine f.features.toFinset.finite_toSet.subset fun x mentions => ?_
  rwa [List.coe_toFinset, Set.mem_ofPred_eq, mem_features, mem_occurrences]

theorem mentions_of_neg {f : Formula} {x : String} (mentions : f.neg.Mentions x) :
    f.Mentions x := by
  cases f with
  | tt | ff => simp [neg] at mentions
  | not f => exact .not mentions
  | var | and | or => exact mentions_not.mp mentions

private theorem mentions_of_mem_conjuncts {fs gs : List Formula} {g : Formula} {x : String}
    (kept : conjuncts fs = some gs) (member : g ∈ gs) (mentions : g.Mentions x) :
    ∃ f ∈ fs, f.Mentions x := by
  fun_induction conjuncts fs generalizing gs with
  | case1 => simp_all
  | case2 fs ih => simpa using ih kept member
  | case3 fs => cases kept
  | case4 hs fs ih =>
      obtain ⟨rest, hRest, rfl⟩ := Option.map_eq_some_iff.mp kept
      rcases List.mem_append.mp member with nested | later
      · exact ⟨.and hs, by simp, .and nested mentions⟩
      · obtain ⟨f, listed, found⟩ := ih hRest later
        exact ⟨f, by simp [listed], found⟩
  | case5 f fs _ _ _ ih =>
      obtain ⟨rest, hRest, rfl⟩ := Option.map_eq_some_iff.mp kept
      rcases List.mem_cons.mp member with rfl | later
      · exact ⟨g, by simp, mentions⟩
      · obtain ⟨f, listed, found⟩ := ih hRest later
        exact ⟨f, by simp [listed], found⟩

theorem mentions_of_conj {fs : List Formula} {x : String} (mentions : (conj fs).Mentions x) :
    ∃ f ∈ fs, f.Mentions x := by
  unfold conj at mentions
  split at mentions
  · simp at mentions
  · simp at mentions
  · next f kept => exact mentions_of_mem_conjuncts kept (List.mem_singleton_self f) mentions
  · next gs _ kept =>
      obtain ⟨g, member, found⟩ := mentions_and.mp mentions
      exact mentions_of_mem_conjuncts kept member found

private theorem mentions_of_mem_disjuncts {fs gs : List Formula} {g : Formula} {x : String}
    (kept : disjuncts fs = some gs) (member : g ∈ gs) (mentions : g.Mentions x) :
    ∃ f ∈ fs, f.Mentions x := by
  fun_induction disjuncts fs generalizing gs with
  | case1 => simp_all
  | case2 fs ih => simpa using ih kept member
  | case3 fs => cases kept
  | case4 hs fs ih =>
      obtain ⟨rest, hRest, rfl⟩ := Option.map_eq_some_iff.mp kept
      rcases List.mem_append.mp member with nested | later
      · exact ⟨.or hs, by simp, .or nested mentions⟩
      · obtain ⟨f, listed, found⟩ := ih hRest later
        exact ⟨f, by simp [listed], found⟩
  | case5 f fs _ _ _ ih =>
      obtain ⟨rest, hRest, rfl⟩ := Option.map_eq_some_iff.mp kept
      rcases List.mem_cons.mp member with rfl | later
      · exact ⟨g, by simp, mentions⟩
      · obtain ⟨f, listed, found⟩ := ih hRest later
        exact ⟨f, by simp [listed], found⟩

theorem mentions_of_disj {fs : List Formula} {x : String} (mentions : (disj fs).Mentions x) :
    ∃ f ∈ fs, f.Mentions x := by
  unfold disj at mentions
  split at mentions
  · simp at mentions
  · simp at mentions
  · next f kept => exact mentions_of_mem_disjuncts kept (List.mem_singleton_self f) mentions
  · next gs _ kept =>
      obtain ⟨g, member, found⟩ := mentions_or.mp mentions
      exact mentions_of_mem_disjuncts kept member found

variable {f g : Formula}

theorem names_conj_neg_subset : (conj [f, g.neg]).names ⊆ f.names ∪ g.names := by
  intro x mentions
  obtain ⟨h, member, found⟩ := mentions_of_conj mentions
  rcases List.mem_pair.mp member with rfl | rfl
  · exact .inl found
  · exact .inr (mentions_of_neg found)

theorem names_xor_subset : (f.xor g).names ⊆ f.names ∪ g.names := by
  intro x mentions
  obtain ⟨h, member, found⟩ := mentions_of_disj mentions
  rcases List.mem_pair.mp member with rfl | rfl
  · exact names_conj_neg_subset found
  · obtain ⟨k, operand, stands⟩ := mentions_of_conj found
    rcases List.mem_pair.mp operand with rfl | rfl
    · exact .inl (mentions_of_neg stands)
    · exact .inr stands

theorem ncard_names_le {h : Formula} (within : h.names ⊆ f.names ∪ g.names) :
    h.names.ncard ≤ (f.names ∪ g.names).ncard :=
  Set.ncard_le_ncard within (f.finite_names.union g.finite_names)

@[simp] theorem eval_xor (env : String → Bool) :
    (f.xor g).eval env = (f.eval env != g.eval env) := by
  rw [xor, eval_disj, List.any_cons, List.any_cons, List.any_nil, eval_conj, eval_conj]
  cases hf : f.eval env <;> cases hg : g.eval env <;> simp [hf, hg]

end Formula

namespace Oracle

variable {f g : Formula} {limit : Nat}

theorem bounded_satisfiable_eq (limit : Nat) (f : Formula) :
    (bounded limit).satisfiable f =
      if limit < f.names.ncard ∨ 64 ≤ f.names.ncard then
        .error (.tooManyVariables f.names.ncard limit)
      else .ok (TruthTable.satisfiable f f.features.toArray) := by
  unfold bounded
  simp [f.length_features]

theorem exists_bounded_satisfiable (few : f.names.ncard ≤ limit)
    (fits : f.names.ncard < 64) : ∃ b, (bounded limit).satisfiable f = .ok b := by
  rw [bounded_satisfiable_eq, if_neg (by omega)]
  exact ⟨_, rfl⟩

theorem equivalent_cases {o : Oracle} {b : Bool} (answered : o.equivalent f g = .ok b) :
    f = g ∧ b = true ∨ ∃ found, o.satisfiable (f.xor g) = .ok found ∧ b = !found := by
  unfold equivalent at answered
  split at answered
  · next same => exact .inl ⟨same, (Except.ok.inj answered).symm⟩
  · cases asked : o.satisfiable (f.xor g) with
    | error e =>
        rw [asked] at answered
        cases answered
    | ok found =>
        rw [asked] at answered
        exact .inr ⟨found, rfl, (Except.ok.inj answered).symm⟩

theorem bounded_equivalent {b : Bool} (answered : (bounded limit).equivalent f g = .ok b) :
    b ↔ ∀ env, f.eval env = g.eval env := by
  rcases equivalent_cases answered with ⟨rfl, rfl⟩ | ⟨found, asked, rfl⟩
  · exact ⟨fun _ _ => rfl, fun _ => rfl⟩
  · have meaning : found ↔ ∃ env, f.eval env ≠ g.eval env := by
      rw [bounded_satisfiable asked]
      simp
    rw [Bool.not_eq_true', ← Bool.not_eq_true, meaning]
    simp

theorem exists_bounded_equivalent (few : (f.names ∪ g.names).ncard ≤ limit)
    (fits : (f.names ∪ g.names).ncard < 64) :
    ∃ b, (bounded limit).equivalent f g = .ok b := by
  have bound := Formula.ncard_names_le (Formula.names_xor_subset (f := f) (g := g))
  obtain ⟨found, asked⟩ := exists_bounded_satisfiable (bound.trans few) (bound.trans_lt fits)
  unfold equivalent
  split
  · exact ⟨true, rfl⟩
  · exact ⟨!found, by rw [asked]; rfl⟩

theorem exists_bounded_implies (few : (f.names ∪ g.names).ncard ≤ limit)
    (fits : (f.names ∪ g.names).ncard < 64) :
    ∃ b, (bounded limit).implies f g = .ok b := by
  have bound := Formula.ncard_names_le (Formula.names_conj_neg_subset (f := f) (g := g))
  obtain ⟨found, asked⟩ := exists_bounded_satisfiable (bound.trans few) (bound.trans_lt fits)
  unfold implies
  split
  · exact ⟨true, rfl⟩
  · exact ⟨!found, by rw [asked]; rfl⟩

/-- The bundled oracle gives up on a formula exactly when it has more variables than the limit or
at least 64, and otherwise finds out whether some assignment makes it true. What it answers about
equivalence and implication is right for all assignments, and it does answer when the variables of
both formulas together stay within the bounds. -/
theorem bounded_exact (limit : Nat) :
    (∀ f, ((bounded limit).satisfiable f = .error (.tooManyVariables f.names.ncard limit) ↔
        limit < f.names.ncard ∨ 64 ≤ f.names.ncard) ∧
      (¬ (limit < f.names.ncard ∨ 64 ≤ f.names.ncard) →
        ∃ b, (bounded limit).satisfiable f = .ok b ∧ (b = true ↔ ∃ env, f.eval env = true))) ∧
    ∀ f g,
      (∀ r, (bounded limit).equivalent f g = .ok r →
        (r = true ↔ ∀ env, f.eval env = g.eval env)) ∧
      (∀ r, (bounded limit).implies f g = .ok r →
        (r = true ↔ ∀ env, f.eval env = true → g.eval env = true)) ∧
      ((f.names ∪ g.names).ncard ≤ limit → (f.names ∪ g.names).ncard < 64 →
        (∃ r, (bounded limit).equivalent f g = .ok r) ∧
          ∃ r, (bounded limit).implies f g = .ok r) := by
  refine ⟨fun f => ⟨?_, fun within => ?_⟩, fun f g => ⟨?_, ?_, ?_⟩⟩
  · rw [bounded_satisfiable_eq]
    split
    · next exceeds => exact ⟨fun _ => exceeds, fun _ => rfl⟩
    · next within => exact ⟨nofun, fun exceeds => absurd exceeds within⟩
  · rw [bounded_satisfiable_eq, if_neg within]
    have fits : f.features.toArray.size < 64 := by
      rw [List.size_toArray, f.length_features]
      omega
    exact ⟨_, rfl, TruthTable.satisfiable_features_iff fits⟩
  · exact fun r answered => bounded_equivalent answered
  · exact fun r answered => bounded_implies answered
  · exact fun few fits => ⟨exists_bounded_equivalent few fits, exists_bounded_implies few fits⟩

theorem bounded_exact_strengthened :
    (bounded 2).implies (.and [.var "A", .var "B"]) (.var "A") = .ok true ∧
      (bounded 2).equivalent (.and [.var "A", .var "B"]) (.var "A") = .ok false ∧
      (∀ env, (Formula.and [.var "A", .var "B"]).eval env = true →
        (Formula.var "A").eval env = true) ∧
      ¬ ∀ env, (Formula.and [.var "A", .var "B"]).eval env = (Formula.var "A").eval env := by
  obtain ⟨equivalence, implication, -⟩ :=
    (bounded_exact 2).2 (.and [.var "A", .var "B"]) (.var "A")
  have implied : (bounded 2).implies (.and [.var "A", .var "B"]) (.var "A") = .ok true := by
    decide +kernel
  have differ : (bounded 2).equivalent (.and [.var "A", .var "B"]) (.var "A") = .ok false := by
    decide +kernel
  exact ⟨implied, differ, (implication true implied).mp rfl,
    fun same => nomatch (equivalence false differ).mpr same⟩

end Oracle

end Variability
