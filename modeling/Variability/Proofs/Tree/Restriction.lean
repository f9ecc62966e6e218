import Variability.Proofs.Tree.Nodes
import Variability.Tree.Restriction

/-!
Where nodes go when others are dropped. A node that stays moves down by the number of dropped nodes
before it, its links are renamed, and everything else about it stays as it is.
-/

namespace Variability

namespace Node

@[simp] theorem bare_rename (n : Node) (place : Nat → Option Nat) :
    (n.rename place).bare = n.bare := rfl

theorem parent_rename (n : Node) (place : Nat → Option Nat) (s : Side) :
    (n.rename place).parent s = (n.parent s).bind place := by
  cases s <;> rfl

theorem children_rename (n : Node) (place : Nat → Option Nat) (s : Side) :
    (n.rename place).children s = (n.children s).filterMap place := by
  cases s <;> rfl

end Node

namespace Tree

/-- The number of nodes before a position that pass a test. -/
def rank (keep : Nat → Bool) (i : Nat) : Nat :=
  (List.range i).countP keep

theorem rank_succ (keep : Nat → Bool) (i : Nat) :
    rank keep (i + 1) = rank keep i + if keep i then 1 else 0 := by
  rw [rank, List.range_succ, List.countP_append, List.countP_singleton, ← rank]

theorem rank_le (keep : Nat → Bool) {i j : Nat} (ordered : i ≤ j) : rank keep i ≤ rank keep j := by
  induction ordered with
  | refl => exact Nat.le_refl _
  | step _ ih =>
      rw [rank_succ]
      omega

theorem rank_lt {keep : Nat → Bool} {i j : Nat} (stays : keep i) (ordered : i < j) :
    rank keep i < rank keep j := by
  have := rank_le keep ordered
  rw [rank_succ, if_pos stays] at this
  omega

theorem filter_range_rank {keep : Nat → Bool} {n i : Nat} (inside : i < n) (stays : keep i) :
    ((List.range n).filter keep)[rank keep i]? = some i := by
  obtain ⟨rest, rfl⟩ : ∃ rest, n = i + (rest + 1) := ⟨n - i - 1, by omega⟩
  rw [List.range_add, List.filter_append, List.range_succ_eq_map, List.map_cons,
    List.filter_cons_of_pos (by simpa using stays), rank, List.countP_eq_length_filter,
    List.getElem?_append_right (Nat.le_refl _)]
  simp

theorem places_eq (next : Nat) (keeps : List Bool) (i : Nat) :
    (places next keeps)[i]?.getD none =
      if keeps[i]? = some true then some (next + (keeps.take i).count true) else none := by
  fun_induction places next keeps generalizing i with
  | case1 => simp
  | case2 next keeps ih =>
      cases i with
      | zero => simp
      | succ i =>
          rw [List.getElem?_cons_succ, ih, List.getElem?_cons_succ, List.take_succ_cons,
            List.count_cons_self]
          simp only [Nat.add_assoc, Nat.add_comm 1]
  | case3 next keeps ih =>
      cases i with
      | zero => simp
      | succ i =>
          rw [List.getElem?_cons_succ, ih, List.getElem?_cons_succ, List.take_succ_cons,
            List.count_cons_of_ne (by decide)]

variable (t : Tree) (keep : Nat → Node → Bool)

/-- Whether a node is there and stays. -/
def stays (i : Nat) : Bool :=
  i < t.size && keep i (t.node i)

/-- The new place of a node that stays. -/
def place? (i : Nat) : Option Nat :=
  if t.stays keep i then some (rank (t.stays keep) i) else none

variable {t keep} in
theorem place?_eq_some_iff {i j : Nat} :
    t.place? keep i = some j ↔ t.stays keep i ∧ rank (t.stays keep) i = j := by
  rw [place?]
  split
  · next stays => simp [stays]
  · next gone => simp [gone]

variable {t keep} in
theorem isSome_place? {i : Nat} : (t.place? keep i).isSome = t.stays keep i := by
  rw [place?]
  split
  · next stays => rw [stays, Option.isSome_some]
  · next gone => simp [gone]

/-- The nodes that stay take the first places, in order. -/
theorem filterMap_place? (n : Nat) :
    (List.range n).filterMap (t.place? keep) = List.range (rank (t.stays keep) n) := by
  induction n with
  | zero => rfl
  | succ n ih =>
      rw [List.range_succ, List.filterMap_append, ih, rank_succ]
      by_cases stays : t.stays keep n <;> simp [place?, stays, List.range_succ]

private theorem map_entries :
    (t.entries.map fun (i, n) => keep i n) = (List.range t.size).map (t.stays keep) := by
  rw [entries_eq, List.map_map]
  apply List.map_congr_left
  intro i member
  simp [stays, List.mem_range.mp member]

theorem places_entries (i : Nat) :
    (places 0 (t.entries.map fun (i, n) => keep i n)).toArray[i]?.getD none = t.place? keep i := by
  rw [List.getElem?_toArray, places_eq, map_entries, place?]
  rcases Nat.lt_or_ge i t.size with inside | outside
  · have before : ((List.range t.size).map (t.stays keep)).take i =
        (List.range i).map (t.stays keep) := by
      rw [← List.map_take, List.take_range, Nat.min_eq_left (Nat.le_of_lt inside)]
    have count : ((List.range i).map (t.stays keep)).count true = rank (t.stays keep) i := by
      rw [List.count, List.countP_map, rank]
      apply List.countP_congr
      simp
    rw [before, count, Nat.zero_add, List.getElem?_map, List.getElem?_range inside]
    simp
  · have gone : t.stays keep i = false := by simp [stays, Nat.not_lt.mpr outside]
    rw [List.getElem?_eq_none (by simpa using outside), gone]
    rfl

theorem restrict_nodes :
    (t.restrict keep).nodes.toList =
      ((List.range t.size).filter (t.stays keep)).map
        fun i => (t.node i).rename (t.place? keep) := by
  have place : (fun i => (places 0 (t.entries.map fun (i, n) => keep i n)).toArray[i]?.getD none) =
      t.place? keep := funext (places_entries t keep)
  have kept : (t.entries.filter fun (i, n) => keep i n).map Prod.snd =
      ((List.range t.size).filter (t.stays keep)).map t.node := by
    rw [entries_eq, List.filter_map, List.map_map]
    congr 1
    apply List.filter_congr
    intro i member
    simp [stays, List.mem_range.mp member]
  unfold restrict
  simp only
  rw [place, kept, List.map_map]
  rfl

theorem node_restrict {i : Nat} (stays : t.stays keep i) :
    (t.restrict keep).node (rank (t.stays keep) i) = (t.node i).rename (t.place? keep) := by
  have inside : i < t.size := by
    simp only [Tree.stays, Bool.and_eq_true, decide_eq_true_eq] at stays
    exact stays.1
  have found := filter_range_rank inside stays
  have lookup : (t.restrict keep).nodes[rank (t.stays keep) i]? =
      some ((t.node i).rename (t.place? keep)) := by
    rw [← Array.getElem?_toList, restrict_nodes, List.getElem?_map, found]
    rfl
  rw [node, lookup]
  rfl

variable {t keep} in
theorem lt_size_of_place? {i j : Nat} (placed : t.place? keep i = some j) : i < t.size := by
  have here := (place?_eq_some_iff.mp placed).1
  simp only [stays, Bool.and_eq_true, decide_eq_true_eq] at here
  exact here.1

variable {t keep} in
theorem bare_restrict {i j : Nat} (placed : t.place? keep i = some j) :
    ((t.restrict keep).node j).bare = (t.node i).bare := by
  obtain ⟨stays, rfl⟩ := place?_eq_some_iff.mp placed
  rw [node_restrict t keep stays, Node.bare_rename]

theorem size_restrict : (t.restrict keep).size = rank (t.stays keep) t.size := by
  rw [size, ← Array.length_toList, restrict_nodes, List.length_map, rank,
    List.countP_eq_length_filter]

theorem size_restrict_le : (t.restrict keep).size ≤ t.size := by
  have count := List.countP_le_length (p := t.stays keep) (l := List.range t.size)
  rwa [List.length_range, ← rank, ← size_restrict] at count

theorem exists_place_restrict {j : Nat} (inside : j < (t.restrict keep).size) :
    ∃ i, t.place? keep i = some j := by
  have length : ((List.range t.size).filter (t.stays keep)).length = (t.restrict keep).size := by
    rw [size_restrict, rank, List.countP_eq_length_filter]
  have nodup : ((List.range t.size).filter (t.stays keep)).Nodup := List.nodup_range.filter _
  rw [← length] at inside
  obtain ⟨i, found⟩ : ∃ i, ((List.range t.size).filter (t.stays keep))[j]? = some i :=
    ⟨_, List.getElem?_eq_getElem inside⟩
  have member := List.mem_of_getElem? found
  rw [List.mem_filter, List.mem_range] at member
  refine ⟨i, ?_⟩
  rw [place?, if_pos member.2]
  have same := (List.getElem?_inj inside nodup).mp
    (found.trans (filter_range_rank member.1 member.2).symm)
  rw [same]

end Tree

end Variability
