import Variability.Presence
import Variability.Proofs.Formula.Meaning

/-!
What presence conditions mean. Under an assignment of the features a node admits what lies below it
when its own guard holds and no earlier branch of its conditional does; a presence condition is
true exactly when every node of the lineage admits.
-/

namespace Variability.Tree

/-- Every node whose kind asks for a guard has one. -/
def Guarded (t : Tree) : Prop :=
  ∀ i, (t.node i).kind.hasGuard → (t.node i).guard.isSome

/-- Whether a node has a guard that is true. -/
def holds (t : Tree) (env : String → Bool) (i : Nat) : Bool :=
  (t.node i).guard.any (·.eval env)

/-- The branches that come before an `elif` or `else` branch of a conditional. -/
def rivals (t : Tree) (s : Side) (i : Nat) : List Nat :=
  match (t.node i).kind with
  | .elifBranch | .elseBranch => t.earlierBranches s i
  | .root | .ifBranch | .endif | .code => []

/-- Whether a node lets through what lies below it. -/
def admits (t : Tree) (env : String → Bool) (s : Side) (i : Nat) : Bool :=
  (!(t.node i).kind.hasGuard || t.holds env i) && (t.rivals s i).all (!t.holds env ·)

theorem hasGuard_of_mem_branchRun {t : Tree} {js : List Nat} {j : Nat}
    (member : j ∈ t.branchRun js) : (t.node j).kind.hasGuard := by
  fun_induction branchRun t js with
  | case1 => simp at member
  | case2 k ks kind ih =>
      rcases List.mem_cons.mp member with rfl | later
      · rw [kind]
        rfl
      · exact ih later
  | case3 k ks kind =>
      obtain rfl := List.mem_singleton.mp member
      rw [kind]
      rfl
  | _ => simp at member

theorem hasGuard_of_mem_earlierBranches {t : Tree} {s : Side} {i j : Nat}
    (member : j ∈ t.earlierBranches s i) : (t.node j).kind.hasGuard := by
  unfold earlierBranches at member
  split at member
  · simp at member
  · split at member
    · exact hasGuard_of_mem_branchRun member
    · simp at member

theorem hasGuard_of_mem_rivals {t : Tree} {s : Side} {i j : Nat} (member : j ∈ t.rivals s i) :
    (t.node j).kind.hasGuard := by
  unfold rivals at member
  split at member
  · exact hasGuard_of_mem_earlierBranches member
  · exact hasGuard_of_mem_earlierBranches member
  all_goals simp at member

theorem branchRun_subset (t : Tree) (js : List Nat) : t.branchRun js ⊆ js := by
  intro j member
  fun_induction branchRun t js with
  | case2 k ks kind ih =>
      rcases List.mem_cons.mp member with rfl | later
      · exact List.mem_cons_self
      · exact List.mem_cons_of_mem k (ih later)
  | case3 k ks kind =>
      rw [List.mem_singleton.mp member]
      exact List.mem_cons_self
  | _ => cases member

variable {t : Tree}

/-- The branches that come before a node are its siblings. -/
theorem mem_children_of_mem_rivals {s : Side} {i b : Nat} (member : b ∈ t.rivals s i) :
    ∃ p, t.parent s i = some p ∧ b ∈ t.children s p := by
  have earlier : b ∈ t.earlierBranches s i := by
    unfold rivals at member
    split at member
    · exact member
    · exact member
    all_goals cases member
  unfold earlierBranches at earlier
  split at earlier
  · cases earlier
  · next p linked =>
    split at earlier
    · have sibling := List.mem_reverse.mp (branchRun_subset t _ earlier)
      exact ⟨p, linked, (List.takeWhile_sublist _).subset sibling⟩
    · cases earlier

theorem further_of_mem_rivals {s : Side} {i b : Nat} (member : b ∈ t.rivals s i) :
    (t.node i).kind = .elifBranch ∨ (t.node i).kind = .elseBranch := by
  unfold rivals at member
  cases kind : (t.node i).kind with
  | elifBranch => exact .inl rfl
  | elseBranch => exact .inr rfl
  | root | ifBranch | endif | code => simp [kind] at member

theorem guard_eq_ok {i : Nat} {g : Formula} (found : (t.node i).guard = some g) :
    t.guard i = .ok g := by
  rw [guard, found]

theorem holds_eq {i : Nat} {g : Formula} (found : (t.node i).guard = some g)
    (env : String → Bool) : t.holds env i = g.eval env := by
  rw [holds, found, Option.any_some]

/-- A condition that lost the demand that some branches do not hold means the same exactly when what
is left implies it. -/
theorem forall_eval_eq_iff {nodes : List Nat} {f g : Formula}
    (split : ∀ env, f.eval env = (g.eval env && nodes.all (!t.holds env ·))) :
    (∀ env, f.eval env = g.eval env) ↔ ∀ env, g.eval env → ∀ b ∈ nodes, ¬ t.holds env b := by
  constructor
  · intro same env holds b member
    have all := split env
    rw [same env, holds, Bool.true_and] at all
    simpa using List.all_eq_true.mp all.symm b member
  · intro alone env
    rw [split]
    cases holds : g.eval env with
    | false => rfl
    | true =>
        rw [Bool.true_and, List.all_eq_true]
        intro b member
        simpa using alone env holds b member

namespace Guarded

variable (guarded : t.Guarded)
include guarded

theorem exists_guard {i : Nat} (kind : (t.node i).kind.hasGuard) :
    ∃ g, (t.node i).guard = some g :=
  Option.isSome_iff_exists.mp (guarded i kind)

theorem exists_negatedGuards {js : List Nat} (kinds : ∀ j ∈ js, (t.node j).kind.hasGuard) :
    ∃ gs, t.negatedGuards js = .ok gs ∧
      ∀ env, gs.all (·.eval env) = js.all (!t.holds env ·) := by
  induction js with
  | nil => exact ⟨[], rfl, fun _ => rfl⟩
  | cons j js ih =>
      obtain ⟨gs, rest, meaning⟩ := ih fun k member => kinds k (by simp [member])
      obtain ⟨g, found⟩ := guarded.exists_guard (kinds j (by simp))
      refine ⟨g.neg :: gs, by rw [negatedGuards, guard_eq_ok found, rest], ?_⟩
      intro env
      rw [List.all_cons, List.all_cons, meaning, Formula.eval_neg, holds_eq found]

theorem exists_featureMapping {s : Side} {i : Nat} (present : (t.node i).existsOn s) :
    ∃ f, t.featureMapping s i = .ok f ∧ ∀ env, f.eval env = t.admits env s i := by
  have kinds : ∀ j ∈ t.earlierBranches s i, (t.node j).kind.hasGuard :=
    fun j member => hasGuard_of_mem_earlierBranches member
  obtain ⟨gs, negated, meaning⟩ := guarded.exists_negatedGuards kinds
  unfold featureMapping admits rivals
  simp only [present, Bool.not_true, Bool.false_eq_true, if_false]
  cases kind : (t.node i).kind with
  | root | code | endif => exact ⟨.tt, rfl, fun _ => by simp [NodeKind.hasGuard]⟩
  | ifBranch =>
      obtain ⟨g, found⟩ := guarded.exists_guard (i := i) (by rw [kind]; rfl)
      exact ⟨g, guard_eq_ok found, fun env => by simp [NodeKind.hasGuard, holds_eq found]⟩
  | elifBranch =>
      obtain ⟨g, found⟩ := guarded.exists_guard (i := i) (by rw [kind]; rfl)
      refine ⟨.conj (g :: gs), by simp only [guard_eq_ok found, negated]; rfl, fun env => ?_⟩
      rw [Formula.eval_conj, List.all_cons, meaning, holds_eq found]
      simp [NodeKind.hasGuard]
  | elseBranch =>
      refine ⟨.conj gs, by simp only [negated]; rfl, fun env => ?_⟩
      rw [Formula.eval_conj, meaning]
      simp [NodeKind.hasGuard]

theorem exists_conditionAlong {s : Side} {chain : List Nat}
    (present : ∀ i ∈ chain, (t.node i).existsOn s) :
    ∃ f, t.conditionAlong s chain = .ok f ∧ ∀ env, f.eval env = chain.all (t.admits env s) := by
  induction chain with
  | nil => exact ⟨.tt, rfl, fun env => by simp⟩
  | cons i above ih =>
      obtain ⟨inherited, hInherited, above⟩ := ih fun j member => present j (by simp [member])
      obtain ⟨mapping, hMapping, own⟩ := guarded.exists_featureMapping (present i (by simp))
      refine ⟨.conj [mapping, inherited], ?_, fun env => ?_⟩
      · rw [conditionAlong, hInherited, hMapping]
        rfl
      · simp [own, above]

theorem exists_presenceCondition {s : Side} {i : Nat} {chain : List Nat}
    (lineage : t.lineage? s i = some chain) (present : ∀ j ∈ chain, (t.node j).existsOn s) :
    ∃ f, t.presenceCondition s i = .ok f ∧ ∀ env, f.eval env = chain.all (t.admits env s) := by
  rw [presenceCondition, lineage]
  exact guarded.exists_conditionAlong present

end Guarded

end Variability.Tree
