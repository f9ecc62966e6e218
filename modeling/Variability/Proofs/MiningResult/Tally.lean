import Mathlib.Algebra.Ring.Nat
import Mathlib.Data.List.Count
import Variability.Proofs.Mining.PatchOutcome
import Variability.Proofs.MiningResult.Merge

/-!
Results that balance. What a result counts is what became of the files that it is about: every
commit is filtered, failed, empty or exported, every file is exported, rejected or failed, and the
nodes and matches that are counted are those of the exported trees. Merging keeps the balance, with
the files of both results.
-/

namespace Variability

namespace Entries

variable {α : Type} {f : α → α → α} {weight : α → Nat}

theorem sum_insertWith (additive : ∀ v w, weight (f v w) = weight v + weight w)
    (es : List (String × α)) (k : String) (v : α) :
    ((insertWith f k v es).map fun e => weight e.2).sum =
      (es.map fun e => weight e.2).sum + weight v := by
  induction es with
  | nil => simp [insertWith]
  | cons e es ih =>
      obtain ⟨x, w⟩ := e
      rw [insertWith]
      split
      · simp only [List.map_cons, List.sum_cons]
        omega
      · split
        · simp only [List.map_cons, List.sum_cons, additive]
          omega
        · simp only [List.map_cons, List.sum_cons, ih]
          omega

end Entries

namespace KeyMap

variable {α : Type} {f : α → α → α} {weight : α → Nat}

/-- The weights of all values together. -/
def weigh (weight : α → Nat) (m : KeyMap α) : Nat :=
  (m.entries.map fun e => weight e.2).sum

theorem total_eq_weigh (m : KeyMap Nat) : m.total = m.weigh id := by
  rw [total, values, weigh]
  rfl

theorem weigh_insertWith (additive : ∀ v w, weight (f v w) = weight v + weight w) (m : KeyMap α)
    (k : String) (v : α) : (m.insertWith f k v).weigh weight = m.weigh weight + weight v :=
  Entries.sum_insertWith additive m.entries k v

theorem weigh_mergeWith (additive : ∀ v w, weight (f v w) = weight v + weight w)
    (m n : KeyMap α) : (mergeWith f m n).weigh weight = m.weigh weight + n.weigh weight := by
  obtain ⟨es, ascending⟩ := n
  simp only [mergeWith, weigh]
  induction es with
  | nil => rfl
  | cons e es ih =>
      have rest := ih (List.pairwise_cons.mp ascending).2
      refine (weigh_insertWith additive _ e.1 e.2).trans ?_
      rw [weigh, rest, List.map_cons, List.sum_cons]
      omega

theorem weigh_filterMap {β : Type} (g : α → β) (weight : β → Nat) (m : KeyMap α) :
    (m.filterMap fun v => some (g v)).weigh weight = m.weigh fun v => weight (g v) := by
  obtain ⟨es, ascending⟩ := m
  simp only [filterMap, weigh]
  induction es with
  | nil => rfl
  | cons e es ih =>
      have rest := ih (List.pairwise_cons.mp ascending).2
      simpa using rest

@[simp] theorem total_empty : (empty : KeyMap Nat).total = 0 := rfl

theorem total_add (m n : KeyMap Nat) : (m.add n).total = m.total + n.total := by
  simp only [total_eq_weigh]
  exact weigh_mergeWith (fun _ _ => rfl) m n

theorem total_bump (m : KeyMap Nat) (k : String) : (m.bump k).total = m.total + 1 := by
  simp only [total_eq_weigh]
  exact weigh_insertWith (fun _ _ => rfl) m k 1

end KeyMap

namespace Mining

theorem total_foldl_bump (names : List String) (m : KeyMap Nat) :
    (names.foldl KeyMap.bump m).total = m.total + names.length := by
  induction names generalizing m with
  | nil => rfl
  | cons name names ih =>
      rw [List.foldl_cons, ih, KeyMap.total_bump, List.length_cons]
      omega

@[simp] theorem total_tally (names : List String) : (tally names).total = names.length := by
  rw [tally, total_foldl_bump, KeyMap.total_empty, Nat.zero_add]

theorem get?_foldl_bump (names : List String) (m : KeyMap Nat) (k : String) :
    (names.foldl KeyMap.bump m).get? k =
      if names.count k = 0 then m.get? k
      else some ((m.get? k).getD 0 + names.count k) := by
  induction names generalizing m with
  | nil => simp
  | cons name names ih =>
      rw [List.foldl_cons, ih, KeyMap.bump, KeyMap.get?_insertWith]
      by_cases same : k = name
      · subst same
        cases m.get? k <;> by_cases once : names.count k = 0 <;> simp [once] <;> omega
      · rw [if_neg same, List.count_cons_of_ne (Ne.symm same)]

theorem get?_tally (names : List String) (k : String) :
    (tally names).get? k = if names.count k = 0 then none else some (names.count k) := by
  rw [tally, get?_foldl_bump]
  simp

/-! What became of files. -/

namespace PatchOutcome

def statesOf (patches : List PatchOutcome) : List UnitState :=
  patches.map state

def treesOf (patches : List PatchOutcome) : List Tree :=
  patches.filterMap tree?

/-- The patterns that the lines of the exported trees were found to follow. -/
def patternsOf (patches : List PatchOutcome) : List String :=
  patches.flatMap fun p => p.found.map (·.rule)

/-- Every line of code of an exported tree has been classified, and nothing else. -/
def Classified (p : PatchOutcome) : Prop :=
  p.found.length = (p.tree?.map fun t => t.codeNodes.length).getD 0

theorem isTerminal_state (p : PatchOutcome) : p.state.isTerminal := by
  cases p <;> rfl

theorem length_filterMap_eq_count {β : Type} {f : PatchOutcome → Option β} {s : UnitState}
    (yields : ∀ p, (f p).isSome ↔ p.state = s) (patches : List PatchOutcome) :
    (patches.filterMap f).length = (statesOf patches).count s := by
  rw [List.length_filterMap_eq_countP, statesOf, List.count, List.countP_map]
  refine List.countP_congr fun p _ => ?_
  rw [yields]
  exact beq_iff_eq.symm

theorem isSome_tree?_iff (p : PatchOutcome) : p.tree?.isSome ↔ p.state = .exported := by
  cases p <;> simp [tree?, state]

theorem isSome_filterHit?_iff (p : PatchOutcome) : p.filterHit?.isSome ↔ p.state = .rejected := by
  cases p <;> simp [filterHit?, state]

theorem isSome_error?_iff (p : PatchOutcome) : p.error?.isSome ↔ p.state = .failed := by
  cases p <;> simp [error?, state]

theorem length_patternsOf {patches : List PatchOutcome} (classified : ∀ p ∈ patches, p.Classified) :
    (patternsOf patches).length = ((treesOf patches).map fun t => t.codeNodes.length).sum := by
  induction patches with
  | nil => rfl
  | cons p patches ih =>
      obtain ⟨first, rest⟩ := List.forall_mem_cons.mp classified
      have ih := ih rest
      rw [patternsOf, treesOf] at ih ⊢
      rw [Classified] at first
      cases exported : p.tree? <;> simp_all

theorem length_exportedEdits (t : Tree) :
    (exportedEdits t).length = t.nodes.toList.countP (·.kind ≠ .root) := by
  rw [exportedEdits, List.length_map, List.countP_eq_length_filter]

end PatchOutcome

end Mining

open Mining PatchOutcome

/-- What a result counts is what became of the files that it is about. -/
structure MiningResult.Balances (r : MiningResult) (patches : List PatchOutcome) : Prop where
  commits : r.totalCommits =
    r.filteredCommits + r.failedCommits + r.emptyCommits + r.exportedCommits
  files : r.totalPatches = (statesOf patches).length
  terminal : ∀ s ∈ statesOf patches, s.isTerminal
  trees : r.exportedTrees = (treesOf patches).length
  exported : r.exportedTrees = (statesOf patches).count .exported
  rejected : r.filterHits.total = (statesOf patches).count .rejected
  failed : r.diffErrors.total = (statesOf patches).count .failed
  occurrences : r.patternCounts.weigh PatternCount.occurrences =
    ((treesOf patches).map fun t => t.codeNodes.length).sum
  nodes : r.exportedNodes.total =
    ((treesOf patches).map fun t => t.nodes.toList.countP (·.kind ≠ .root)).sum
  shares : ∀ name count, r.patternCounts.get? name = some count →
    count.commits ≤ count.occurrences ∧ count.commits ≤ r.exportedCommits

namespace MiningResult

theorem balances_empty : empty.Balances [] where
  commits := rfl
  files := rfl
  terminal := nofun
  trees := rfl
  exported := rfl
  rejected := rfl
  failed := rfl
  occurrences := rfl
  nodes := rfl
  shares := nofun

theorem Balances.withWallMillis {r : MiningResult} {patches : List PatchOutcome}
    (balances : r.Balances patches) (wallMillis : Nat) :
    { r with wallMillis }.Balances patches where
  commits := balances.commits
  files := balances.files
  terminal := balances.terminal
  trees := balances.trees
  exported := balances.exported
  rejected := balances.rejected
  failed := balances.failed
  occurrences := balances.occurrences
  nodes := balances.nodes
  shares := balances.shares

theorem Balances.merge {r s : MiningResult} {patches others : List PatchOutcome}
    (first : r.Balances patches) (second : s.Balances others) :
    (r.merge s).Balances (patches ++ others) where
  commits := by
    have left := first.commits
    have right := second.commits
    simp only [MiningResult.merge]
    omega
  files := by simp [MiningResult.merge, statesOf, first.files, second.files]
  terminal := by
    intro state member
    rw [statesOf, List.map_append] at member
    exact (List.mem_append.mp member).elim (first.terminal state) (second.terminal state)
  trees := by simp [MiningResult.merge, treesOf, first.trees, second.trees]
  exported := by simp [MiningResult.merge, statesOf, first.exported, second.exported]
  rejected := by
    simp [MiningResult.merge, KeyMap.total_add, statesOf, first.rejected, second.rejected]
  failed := by simp [MiningResult.merge, KeyMap.total_add, statesOf, first.failed, second.failed]
  occurrences := by
    rw [MiningResult.merge, KeyMap.weigh_mergeWith fun _ _ => rfl, first.occurrences,
      second.occurrences]
    simp [treesOf]
  nodes := by
    rw [MiningResult.merge, KeyMap.total_add, first.nodes, second.nodes]
    simp [treesOf]
  shares := by
    intro name count found
    simp only [MiningResult.merge, KeyMap.get?_mergeWith] at found ⊢
    cases left : r.patternCounts.get? name with
    | none =>
        cases right : s.patternCounts.get? name with
        | none => simp [left, right] at found
        | some d =>
            obtain rfl : d = count := by simpa [left, right] using found
            have bounds := second.shares name d right
            omega
    | some c =>
        have bounds := first.shares name c left
        cases right : s.patternCounts.get? name with
        | none =>
            obtain rfl : c = count := by simpa [left, right] using found
            omega
        | some d =>
            obtain rfl : c.add d = count := by simpa [left, right] using found
            have boundsToo := second.shares name d right
            simp only [PatternCount.add]
            omega

end MiningResult

end Variability
