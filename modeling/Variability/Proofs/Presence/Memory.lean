import Variability.Proofs.Presence.Meaning
import Variability.Proofs.Presence.Query
import Variability.Proofs.Tree.Ascent

/-!
Remembered conditions and relations. A memory agrees with an analysis when everything in it is what
the tree and the oracle give; questions are then answered as the tree answers them, and the memory
goes on agreeing. Walks that never end meet nothing remembered, for only a node whose own walk ends
has a condition.
-/

namespace Variability

namespace Tree

theorem conditionAlong_append_of_error {t : Tree} {s : Side} {chain : List Nat}
    {e : PresenceError} (failed : t.conditionAlong s chain = .error e) (below : List Nat) :
    t.conditionAlong s (below ++ chain) = .error e := by
  induction below with
  | nil => exact failed
  | cons i below ih => rw [List.cons_append, conditionAlong, ih]

theorem conditionAlong_of_known {t : Tree} {s : Side} {i : Nat} {chain : List Nat} {f : Formula}
    (lineage : t.lineage? s i = some chain) (known : t.presenceCondition s i = .ok f) :
    t.conditionAlong s chain = .ok f := by
  rwa [presenceCondition, lineage] at known

end Tree

def Oracle.relationOf (o : Oracle) (before after : Except PresenceError Formula) :
    Except MatchError Relation := do
  let before ← before.mapError .presence
  let after ← after.mapError .presence
  let afterImpliesBefore ← (o.implies after before).mapError .oracle
  let beforeImpliesAfter ← (o.implies before after).mapError .oracle
  return ⟨afterImpliesBefore, beforeImpliesAfter⟩

theorem Oracle.relationOf_eq {o : Oracle} {before after : Except PresenceError Formula}
    {f g : Formula} {r : Relation}
    (hBefore : before.mapError MatchError.presence = .ok f)
    (hAfter : after.mapError MatchError.presence = .ok g)
    (hFirst : (o.implies g f).mapError MatchError.oracle = .ok r.afterImpliesBefore)
    (hSecond : (o.implies f g).mapError MatchError.oracle = .ok r.beforeImpliesAfter) :
    o.relationOf before after = .ok r := by
  rw [relationOf, hBefore, hAfter]
  simp only [bind, Except.bind, hFirst, hSecond]
  rfl

/-- Everything remembered is what the tree and the oracle give. -/
structure Memory.Agrees (a : Analysis) (m : Memory) : Prop where
  conditions : ∀ s i f, m.condition? s i = some f → a.tree.presenceCondition s i = .ok f
  relations : ∀ i r, m.relation? i = some r →
    a.oracle.relationOf (a.tree.presenceCondition .before i)
      (a.tree.presenceCondition .after i) = .ok r

namespace Memory

theorem agrees_blank (a : Analysis) (size : Nat) : (Memory.blank size).Agrees a where
  conditions := by
    intro s i f known
    have unknown : (Memory.blank size).condition? s i = none := by
      cases s <;> by_cases inside : i < size <;> simp [condition?, conditions, blank, inside]
    rw [unknown] at known
    cases known
  relations := by
    intro i r known
    have unknown : (Memory.blank size).relation? i = none := by
      by_cases inside : i < size <;> simp [relation?, blank, inside]
    rw [unknown] at known
    cases known

theorem Agrees.unknown_of_endless {a : Analysis} {m : Memory} (agrees : m.Agrees a) {s : Side}
    {i : Nat} (endless : a.tree.lineage? s i = none) : m.condition? s i = none := by
  cases known : m.condition? s i with
  | none => rfl
  | some f =>
      have condition := agrees.conditions s i f known
      rw [Tree.presenceCondition, endless] at condition
      cases condition

private theorem lookup_setIfInBounds {α : Type} {entries : Array (Option α)} {i j : Nat} {x y : α}
    (known : (entries.setIfInBounds i (some x))[j]?.join = some y) :
    j = i ∧ y = x ∨ entries[j]?.join = some y := by
  rw [Array.getElem?_setIfInBounds] at known
  split at known
  · next same =>
      split at known
      · exact .inl ⟨same.symm, by simpa using known.symm⟩
      · simp at known
  · exact .inr known

theorem condition?_remember {m : Memory} {s side : Side} {i j : Nat} {f g : Formula}
    (known : (m.remember s i f).condition? side j = some g) :
    side = s ∧ j = i ∧ g = f ∨ m.condition? side j = some g := by
  cases s <;> cases side <;> simp only [condition?, conditions, Memory.remember] at known ⊢
  · exact (lookup_setIfInBounds known).imp_left fun own => ⟨trivial, own⟩
  · exact .inr known
  · exact .inr known
  · exact (lookup_setIfInBounds known).imp_left fun own => ⟨trivial, own⟩

@[simp] theorem relation?_remember (m : Memory) (s : Side) (i j : Nat) (f : Formula) :
    (m.remember s i f).relation? j = m.relation? j := by
  cases s <;> rfl

theorem Agrees.remember {a : Analysis} {m : Memory} (agrees : m.Agrees a) {s : Side} {i : Nat}
    {f : Formula} (condition : a.tree.presenceCondition s i = .ok f) :
    (m.remember s i f).Agrees a where
  conditions := by
    intro side j g known
    rcases condition?_remember known with ⟨rfl, rfl, rfl⟩ | old
    · exact condition
    · exact agrees.conditions side j g old
  relations := by
    intro j r known
    rw [relation?_remember] at known
    exact agrees.relations j r known

theorem Agrees.rememberRelation {a : Analysis} {m : Memory} (agrees : m.Agrees a) {i : Nat}
    {r : Relation} (relation : a.oracle.relationOf (a.tree.presenceCondition .before i)
      (a.tree.presenceCondition .after i) = .ok r) :
    (m.rememberRelation i r).Agrees a where
  conditions := by
    intro side j g known
    exact agrees.conditions side j g (by cases side <;> exact known)
  relations := by
    intro j q known
    rcases lookup_setIfInBounds known with ⟨rfl, rfl⟩ | old
    · exact relation
    · exact agrees.relations j q old

end Memory

namespace Analysis

open Query

variable {a : Analysis}

theorem climbUnknown?_of_known {m : Memory} {s : Side} {i : Nat} {f : Formula}
    (known : m.condition? s i = some f) (steps : Nat) :
    a.climbUnknown? m s steps i = some ([], f) := by
  unfold climbUnknown?
  rw [known]

theorem climbUnknown?_of_parent_none {m : Memory} {s : Side} {i : Nat}
    (unknown : m.condition? s i = none) (unlinked : a.tree.parent s i = none) (steps : Nat) :
    a.climbUnknown? m s steps i = some ([i], .tt) := by
  unfold climbUnknown?
  simp [unknown, unlinked]

theorem climbUnknown?_succ_of_parent {m : Memory} {s : Side} {i p : Nat}
    (unknown : m.condition? s i = none) (linked : a.tree.parent s i = some p) (steps : Nat) :
    a.climbUnknown? m s (steps + 1) i =
      (a.climbUnknown? m s steps p).map fun (chain, known) => (i :: chain, known) := by
  rw [climbUnknown?]
  simp [unknown, linked]

/-- Where the walk upwards stops, the condition inherited is that of the rest of the lineage. -/
theorem exists_climbUnknown {m : Memory} (agrees : m.Agrees a) {s : Side} {steps i : Nat}
    {chain : List Nat} (ends : a.tree.climb? s steps i = some chain)
    (enough : steps ≤ a.tree.size) :
    ∃ unknown known inherited, chain = unknown ++ known ∧
      a.climbUnknown? m s steps i = some (unknown, inherited) ∧
      a.tree.conditionAlong s known = .ok inherited := by
  have remembered {steps i : Nat} {chain : List Nat} {f : Formula}
      (ends : a.tree.climb? s steps i = some chain) (enough : steps ≤ a.tree.size)
      (known : m.condition? s i = some f) : a.tree.conditionAlong s chain = .ok f :=
    Tree.conditionAlong_of_known (Tree.climb?_mono ends enough) (agrees.conditions s i f known)
  induction steps generalizing i chain with
  | zero =>
      cases known : m.condition? s i with
      | some f =>
          exact ⟨[], chain, f, rfl, climbUnknown?_of_known known 0, remembered ends enough known⟩
      | none =>
          rcases Tree.climb?_cases ends with ⟨unlinked, rfl⟩ | ⟨k, p, above, impossible, -⟩
          · exact ⟨[i], [], .tt, rfl, climbUnknown?_of_parent_none known unlinked 0, rfl⟩
          · cases impossible
  | succ steps ih =>
      cases known : m.condition? s i with
      | some f =>
          exact ⟨[], chain, f, rfl, climbUnknown?_of_known known _, remembered ends enough known⟩
      | none =>
          rcases Tree.climb?_cases ends with
            ⟨unlinked, rfl⟩ | ⟨k, p, above, same, linked, hAbove, rfl⟩
          · exact ⟨[i], [], .tt, rfl, climbUnknown?_of_parent_none known unlinked _, rfl⟩
          · obtain rfl := Nat.succ.inj same
            obtain ⟨unknown, rest, inherited, rfl, climbed, condition⟩ := ih hAbove (by omega)
            refine ⟨i :: unknown, rest, inherited, rfl, ?_, condition⟩
            rw [climbUnknown?_succ_of_parent known linked, climbed]
            rfl

theorem descendFrom_answers {s : Side} {below known : List Nat} {inherited : Formula}
    (above : a.tree.conditionAlong s known = .ok inherited)
    (lineages : ∀ i rest, (i :: rest) <:+ below.reverse ++ known →
      a.tree.lineage? s i = some (i :: rest)) :
    Answers (Memory.Agrees a) (a.descendFrom s inherited below)
      (a.tree.conditionAlong s (below.reverse ++ known)) := by
  induction below generalizing known inherited with
  | nil =>
      rw [List.reverse_nil, List.nil_append, above]
      exact answers_pure inherited
  | cons i below ih =>
      rw [List.reverse_cons, List.append_assoc, List.singleton_append] at lineages ⊢
      have lineage : a.tree.lineage? s i = some (i :: known) :=
        lineages i known (List.suffix_append _ _)
      intro m agrees
      cases hMapping : a.tree.featureMapping s i with
      | error e =>
          have failed : a.tree.conditionAlong s (i :: known) = .error e := by
            rw [Tree.conditionAlong, above, hMapping]
            rfl
          rw [Tree.conditionAlong_append_of_error failed, descendFrom, hMapping]
          exact ⟨m, agrees, rfl⟩
      | ok mapping =>
          have condition : a.tree.conditionAlong s (i :: known) =
              .ok (.conj [mapping, inherited]) := by
            rw [Tree.conditionAlong, above, hMapping]
            rfl
          have presence : a.tree.presenceCondition s i = .ok (.conj [mapping, inherited]) := by
            rw [Tree.presenceCondition, lineage]
            exact condition
          rw [descendFrom, hMapping]
          exact ih condition lineages _ (agrees.remember presence)

/-- A walk that never ends meets no remembered condition. -/
theorem climbUnknown?_of_endless {m : Memory} (agrees : m.Agrees a) {s : Side} {i : Nat}
    (endless : a.tree.lineage? s i = none) (steps : Nat) :
    a.climbUnknown? m s steps i = none := by
  induction steps generalizing i with
  | zero =>
      obtain ⟨p, linked, -⟩ := Tree.exists_parent_of_lineage?_none endless
      unfold climbUnknown?
      simp [agrees.unknown_of_endless endless, linked]
  | succ steps ih =>
      obtain ⟨p, linked, endlessAbove⟩ := Tree.exists_parent_of_lineage?_none endless
      rw [climbUnknown?_succ_of_parent (agrees.unknown_of_endless endless) linked,
        ih endlessAbove, Option.map_none]

theorem presence_answers_of_lineage {s : Side} {i : Nat} {chain : List Nat}
    (lineage : a.tree.lineage? s i = some chain) :
    Answers (Memory.Agrees a) (a.presence s i) (a.tree.presenceCondition s i) := by
  intro m agrees
  obtain ⟨unknown, known, inherited, rfl, climbed, condition⟩ :=
    exists_climbUnknown agrees lineage (Nat.le_refl _)
  have answers : Answers (Memory.Agrees a) (a.descendFrom s inherited unknown.reverse)
      (a.tree.conditionAlong s (unknown.reverse.reverse ++ known)) :=
    descendFrom_answers condition fun j rest suffix => by
      rw [List.reverse_reverse] at suffix
      exact Tree.lineage?_of_suffix lineage suffix
  obtain ⟨m', agrees', run⟩ := answers m agrees
  refine ⟨m', agrees', ?_⟩
  rw [List.reverse_reverse] at run
  rw [Tree.presenceCondition, lineage]
  simp only
  rw [← run, presence, run_get_bind, climbed]

theorem presence_answers_of_endless {s : Side} {i : Nat}
    (endless : a.tree.lineage? s i = none) :
    Answers (Memory.Agrees a) (a.presence s i) (a.tree.presenceCondition s i) := by
  intro m agrees
  refine ⟨m, agrees, ?_⟩
  rw [Tree.presenceCondition, endless, presence, run_get_bind,
    climbUnknown?_of_endless agrees endless]
  rfl

/-- A question about a condition is answered from the tree, whatever is remembered. -/
theorem presence_answers (s : Side) (i : Nat) :
    Answers (Memory.Agrees a) (a.presence s i) (a.tree.presenceCondition s i) := by
  cases lineage : a.tree.lineage? s i with
  | none => exact presence_answers_of_endless lineage
  | some chain => exact presence_answers_of_lineage lineage

/-- The presence condition that an analysis gives when nothing was asked before. -/
def condition (a : Analysis) (s : Side) (i : Nat) : Except PresenceError Formula :=
  (a.presence s i).runFresh a.tree

theorem condition_eq (s : Side) (i : Nat) : a.condition s i = a.tree.presenceCondition s i :=
  (presence_answers s i).runFresh (Memory.agrees_blank a a.tree.size)

theorem exists_condition (guarded : a.tree.Guarded) {s : Side} {i : Nat} {chain : List Nat}
    (lineage : a.tree.lineage? s i = some chain)
    (present : ∀ j ∈ chain, (a.tree.node j).existsOn s) :
    ∃ f, a.condition s i = .ok f ∧ ∀ env, f.eval env = chain.all (a.tree.admits env s) := by
  rw [condition_eq]
  exact guarded.exists_presenceCondition lineage present

end Analysis

end Variability
