import Mathlib.Data.String.Basic
import Mathlib.Order.Lattice
import Mathlib.Data.Prod.Lex
import Variability.MiningResult

/-!
Merging results. Counts are added, messages and times are compared by linear orders, and maps are
merged name by name, so merging is commutative and associative and the empty result changes
nothing. What two results count is never more than what their merge counts.
-/

namespace Variability

namespace KeyMap

variable {α : Type} {f : α → α → α}

theorem mergeWith_comm [Std.Commutative f] (m n : KeyMap α) :
    mergeWith f m n = mergeWith f n m := by
  apply KeyMap.ext
  intro k
  rw [get?_mergeWith, get?_mergeWith]
  exact Std.Commutative.comm _ _

theorem mergeWith_assoc [Std.Associative f] (m n o : KeyMap α) :
    mergeWith f (mergeWith f m n) o = mergeWith f m (mergeWith f n o) := by
  apply KeyMap.ext
  intro k
  simp only [get?_mergeWith]
  exact Std.Associative.assoc _ _ _

@[simp] theorem mergeWith_empty (m : KeyMap α) : mergeWith f m empty = m := rfl

@[simp] theorem empty_mergeWith [Std.Commutative f] (m : KeyMap α) : mergeWith f empty m = m := by
  rw [mergeWith_comm, mergeWith_empty]

theorem mem_values_iff {m : KeyMap α} {v : α} : v ∈ m.values ↔ ∃ k, m.get? k = some v := by
  obtain ⟨es, ascending⟩ := m
  simp only [values, get?]
  induction es with
  | nil => simp [Entries.get?]
  | cons e es ih =>
      obtain ⟨x, w⟩ := e
      obtain ⟨first, rest⟩ := List.pairwise_cons.mp ascending
      rw [List.map_cons, List.mem_cons, ih rest]
      constructor
      · rintro (rfl | ⟨k, found⟩)
        · exact ⟨x, by simp [Entries.get?]⟩
        · refine ⟨k, ?_⟩
          have other : k ≠ x := by
            rintro rfl
            rw [Entries.get?_eq_none_of_lt first] at found
            cases found
          rwa [Entries.get?, if_neg other]
      · rintro ⟨k, found⟩
        rw [Entries.get?] at found
        split at found
        · exact .inl (Option.some.inj found).symm
        · exact .inr ⟨k, found⟩

/-- A value of a map stands in every merge, alone or combined with one of the other map. -/
theorem exists_mem_values_mergeWith {m : KeyMap α} {v : α} (member : v ∈ m.values)
    (n : KeyMap α) :
    ∃ w ∈ (mergeWith f m n).values, w = v ∨ ∃ u, w = f v u := by
  obtain ⟨k, found⟩ := mem_values_iff.mp member
  cases other : n.get? k with
  | none => exact ⟨v, mem_values_iff.mpr ⟨k, by simp [get?_mergeWith, found, other]⟩, .inl rfl⟩
  | some u =>
      refine ⟨f v u, mem_values_iff.mpr ⟨k, ?_⟩, .inr ⟨u, rfl⟩⟩
      simp [get?_mergeWith, found, other]

theorem get?_filterMap {β : Type} (g : α → Option β) (m : KeyMap α) (k : String) :
    (m.filterMap g).get? k = (m.get? k).bind g := by
  obtain ⟨es, ascending⟩ := m
  simp only [filterMap, get?]
  induction es with
  | nil => rfl
  | cons e es ih =>
      obtain ⟨x, v⟩ := e
      obtain ⟨first, rest⟩ := List.pairwise_cons.mp ascending
      have ih := ih rest
      by_cases same : k = x
      · subst same
        rw [Entries.get?_eq_none_of_lt first, Option.bind_none] at ih
        cases kept : g v <;> simp [Entries.get?, kept, ih]
      · cases kept : g v <;> simp [Entries.get?, kept, ih, same]

end KeyMap

namespace CommitTime

/-- By time, and by commit where times are the same. -/
def rank (t : CommitTime) : Nat ×ₗ String :=
  toLex (t.millis, t.commit)

theorem rank_injective : Function.Injective rank := by
  rintro ⟨commit, millis⟩ ⟨otherCommit, otherMillis⟩ same
  obtain ⟨rfl, rfl⟩ : millis = otherMillis ∧ commit = otherCommit := by
    simpa [rank] using same
  rfl

instance : LinearOrder CommitTime :=
  LinearOrder.lift' rank rank_injective

theorem precedes_iff {s t : CommitTime} : s.precedes t ↔ s < t := by
  change _ ↔ s.rank < t.rank
  simp [precedes, rank, Prod.Lex.toLex_lt_toLex]

theorem earlier_eq_min (s t : CommitTime) : s.earlier t = min s t := by
  simp only [earlier, precedes_iff, min_def_lt]
  rcases lt_trichotomy s t with less | rfl | more
  · simp [less, less.not_gt]
  · rfl
  · simp [more, more.not_gt]

theorem later_eq_max (s t : CommitTime) : s.later t = max s t := by
  simp only [later, precedes_iff, max_def_lt]

instance : Std.Commutative earlier :=
  ⟨fun s t => by rw [earlier_eq_min, earlier_eq_min, min_comm]⟩

instance : Std.Associative earlier :=
  ⟨fun s t u => by simp only [earlier_eq_min, min_assoc]⟩

instance : Std.Commutative later :=
  ⟨fun s t => by rw [later_eq_max, later_eq_max, max_comm]⟩

instance : Std.Associative later :=
  ⟨fun s t u => by simp only [later_eq_max, max_assoc]⟩

end CommitTime

theorem smallerMessage_eq_min (m n : String) : smallerMessage m n = min m n := by
  rw [smallerMessage, min_comm, min_def_lt]

instance : Std.Commutative smallerMessage :=
  ⟨fun m n => by rw [smallerMessage_eq_min, smallerMessage_eq_min, min_comm]⟩

instance : Std.Associative smallerMessage :=
  ⟨fun m n o => by simp only [smallerMessage_eq_min, min_assoc]⟩

namespace PatternCount

instance : Std.Commutative add :=
  ⟨fun c d => by simp [add, Nat.add_comm]⟩

instance : Std.Associative add :=
  ⟨fun c d e => by simp [add, Nat.add_assoc]⟩

end PatternCount

namespace MiningResult

theorem merge_comm (r s : MiningResult) : r.merge s = s.merge r := by
  unfold merge KeyMap.add
  congr 1
  all_goals
    first
    | exact Nat.add_comm _ _
    | exact KeyMap.mergeWith_comm _ _
    | exact Std.Commutative.comm _ _

theorem merge_assoc (r s t : MiningResult) : (r.merge s).merge t = r.merge (s.merge t) := by
  unfold merge KeyMap.add
  congr 1
  all_goals
    first
    | exact Nat.add_assoc _ _ _
    | exact KeyMap.mergeWith_assoc _ _ _
    | exact (inferInstance : Std.Associative (Option.merge CommitTime.earlier)).assoc _ _ _
    | exact (inferInstance : Std.Associative (Option.merge CommitTime.later)).assoc _ _ _

@[simp] theorem merge_empty (r : MiningResult) : r.merge empty = r := by
  simp [merge, empty, KeyMap.add]

@[simp] theorem empty_merge (r : MiningResult) : empty.merge r = r := by
  rw [merge_comm, merge_empty]

theorem fits_iff {r : MiningResult} :
    r.Fits ↔
      (r.totalCommits < Text.wordLimit ∧ r.exportedCommits < Text.wordLimit ∧
        r.emptyCommits < Text.wordLimit ∧ r.failedCommits < Text.wordLimit ∧
        r.filteredCommits < Text.wordLimit ∧ r.totalPatches < Text.wordLimit ∧
        r.exportedTrees < Text.wordLimit ∧ r.runtimeMillis < Text.wordLimit ∧
        r.wallMillis < Text.wordLimit) ∧
      (∀ n ∈ r.exportedNodes.values, n < Text.wordLimit) ∧
      (∀ c ∈ r.patternCounts.values, c.occurrences < Text.wordLimit ∧ c.commits < Text.wordLimit) ∧
      (∀ n ∈ r.filterHits.values, n < Text.wordLimit) ∧
      ∀ n ∈ r.diffErrors.values, n < Text.wordLimit := by
  simp only [Fits, counts, List.forall_mem_append, List.forall_mem_cons, List.forall_mem_flatMap,
    List.not_mem_nil, false_implies, implies_true, and_true, and_assoc]

/-- What is counted before a merge is counted in it. -/
theorem Fits.left {r s : MiningResult} (fits : (r.merge s).Fits) : r.Fits := by
  obtain ⟨scalars, nodes, patterns, hits, errors⟩ := fits_iff.mp fits
  have summed {m n : KeyMap Nat} (sums : ∀ k ∈ (m.add n).values, k < Text.wordLimit) :
      ∀ k ∈ m.values, k < Text.wordLimit := by
    intro k value
    obtain ⟨sum, listed, rfl | ⟨l, rfl⟩⟩ :=
      KeyMap.exists_mem_values_mergeWith (f := (· + ·)) value n
    · exact sums sum listed
    · exact Nat.lt_of_le_of_lt (Nat.le_add_right k l) (sums (k + l) listed)
  refine fits_iff.mpr ⟨?_, summed nodes, ?_, summed hits, summed errors⟩
  · simp only [merge] at scalars
    omega
  · intro c value
    obtain ⟨sum, listed, rfl | ⟨d, rfl⟩⟩ :=
      KeyMap.exists_mem_values_mergeWith (f := PatternCount.add) value s.patternCounts
    · exact patterns sum listed
    · have bound := patterns (c.add d) listed
      simp only [PatternCount.add] at bound
      omega

theorem Fits.right {r s : MiningResult} (fits : (r.merge s).Fits) : s.Fits :=
  Fits.left (s := r) (merge_comm r s ▸ fits)

theorem fits_empty : empty.Fits := by
  decide

end MiningResult

end Variability
