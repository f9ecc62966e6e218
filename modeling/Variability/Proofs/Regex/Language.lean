import Variability.Regex

/-!
What a regular expression matches, said without a search: a relation between the position where a
match starts and the one where it ends. The positions that are found by following all ways at once
are those of this relation, although long repetitions are cut off there. More rounds than the text
has characters go through some round without moving, and such a round can be left out or repeated.
-/

namespace Variability.Regex

/-- Several steps one after the other. -/
def Rounds (step : Nat → Nat → Prop) : (count : Nat) → Nat → Nat → Prop
  | 0, i, j => i = j
  | count + 1, i, k => ∃ j, step i j ∧ Rounds step count j k

/-- The expression matches a text from one position up to another. A repetition is gone through
`least` times, and then as many times more as `most` leaves, if it is given. -/
def Matches (text : Array Char) : Regex → Nat → Nat → Prop
  | empty, i, j => i = j
  | char set, i, j => (∃ c, text[i]? = some c ∧ set.contains c) ∧ i + 1 = j
  | look l, i, j => l.holds (before? text i) text[i]? ∧ i = j
  | seq r s, i, k => ∃ j, r.Matches text i j ∧ s.Matches text j k
  | alt r s, i, j => r.Matches text i j ∨ s.Matches text i j
  | times r least most, i, j =>
    ∃ more, (∀ m ∈ most, more ≤ m - least) ∧ Rounds (r.Matches text) (least + more) i j
  | capture r, i, j => r.Matches text i j

/-- Steps that never go back, and a way to take them from several positions at once. -/
structure Follows (step : Nat → Nat → Prop) (follow : List Nat → List Nat) (size : Nat) : Prop where
  mem_iff : ∀ {is : List Nat}, (∀ i ∈ is, i ≤ size) → ∀ {j},
    j ∈ follow is ↔ ∃ i ∈ is, step i j
  ascends : ∀ {i j}, step i j → i ≤ j
  within : ∀ {i j}, i ≤ size → step i j → j ≤ size

theorem rounds_add {step : Nat → Nat → Prop} {m n i k : Nat} :
    Rounds step (m + n) i k ↔ ∃ j, Rounds step m i j ∧ Rounds step n j k := by
  induction m generalizing i with
  | zero => simp [Rounds]
  | succ m ih =>
      rw [Nat.succ_add]
      simp only [Rounds, ih]
      constructor
      · rintro ⟨j, first, l, front, back⟩
        exact ⟨l, ⟨j, first, front⟩, back⟩
      · rintro ⟨l, ⟨j, first, front⟩, back⟩
        exact ⟨j, first, l, front, back⟩

/-- From what was seen one gets out only through the front, when all steps from behind it are
taken. -/
theorem seen_or_through_front {step : Nat → Nat → Prop} {seen front : List Nat}
    (behind : ∀ i ∈ seen, i ∉ front → ∀ j, step i j → j ∈ seen) {n i j : Nat} (known : i ∈ seen)
    (rounds : Rounds step n i j) : j ∈ seen ∨ ∃ k ∈ front, ∃ m ≤ n, Rounds step m k j := by
  induction n generalizing i with
  | zero => exact .inl (rounds ▸ known)
  | succ n ih =>
      by_cases first : i ∈ front
      · exact .inr ⟨i, first, n + 1, Nat.le_refl _, rounds⟩
      · obtain ⟨k, taken, rest⟩ := rounds
        rcases ih (behind i known first k taken) rest with found | ⟨l, member, m, fewer, walk⟩
        · exact .inl found
        · exact .inr ⟨l, member, m, Nat.le_succ_of_le fewer, walk⟩

/-- What one more step finds. -/
def fresh (follow : List Nat → List Nat) (seen front : List Nat) : List Nat :=
  (follow front).filter fun i => !seen.contains i

namespace Follows

variable {step : Nat → Nat → Prop} {follow : List Nat → List Nat} {size : Nat}
  (follows : Follows step follow size)
include follows

theorem inside_follow {is : List Nat} (inside : ∀ i ∈ is, i ≤ size) :
    ∀ j ∈ follow is, j ≤ size := by
  intro j found
  obtain ⟨i, member, taken⟩ := (follows.mem_iff inside).mp found
  exact follows.within (inside i member) taken

theorem rounds_ascend {n i j : Nat} (rounds : Rounds step n i j) : i ≤ j := by
  induction n generalizing i with
  | zero => exact Nat.le_of_eq rounds
  | succ n ih =>
      obtain ⟨k, first, rest⟩ := rounds
      exact Nat.le_trans (follows.ascends first) (ih rest)

theorem rounds_within {n i j : Nat} (inside : i ≤ size) (rounds : Rounds step n i j) :
    j ≤ size := by
  induction n generalizing i with
  | zero => exact rounds ▸ inside
  | succ n ih =>
      obtain ⟨k, first, rest⟩ := rounds
      exact ih (follows.within inside first) rest

theorem exists_rounds_succ {is : List Nat} (inside : ∀ i ∈ is, i ≤ size) {n j : Nat} :
    (∃ i ∈ is, Rounds step (n + 1) i j) ↔ ∃ k ∈ follow is, Rounds step n k j := by
  constructor
  · rintro ⟨i, member, k, first, rest⟩
    exact ⟨k, (follows.mem_iff inside).mpr ⟨i, member, first⟩, rest⟩
  · rintro ⟨k, found, rest⟩
    obtain ⟨i, member, first⟩ := (follows.mem_iff inside).mp found
    exact ⟨i, member, k, first, rest⟩

/-! Long walks. Where there are more rounds than places to go, some round stays where it is. -/

theorem exists_shorter {n i j : Nat} (rounds : Rounds step n i j) :
    ∃ m ≤ n, m ≤ j - i ∧ Rounds step m i j := by
  induction n generalizing i with
  | zero => exact ⟨0, Nat.le_refl 0, Nat.zero_le _, rounds⟩
  | succ n ih =>
      obtain ⟨k, first, rest⟩ := rounds
      obtain ⟨m, fewer, short, walk⟩ := ih rest
      have forward := follows.ascends first
      have onward := follows.rounds_ascend rest
      by_cases stays : k = i
      · exact ⟨m, Nat.le_succ_of_le fewer, stays ▸ short, stays ▸ walk⟩
      · exact ⟨m + 1, Nat.succ_le_succ fewer, by omega, k, first, walk⟩

theorem rounds_succ_of_long {n i j : Nat} (rounds : Rounds step n i j) (long : j - i < n) :
    Rounds step (n + 1) i j := by
  induction n generalizing i with
  | zero => exact absurd long (Nat.not_lt_zero _)
  | succ n ih =>
      obtain ⟨k, first, rest⟩ := rounds
      have forward := follows.ascends first
      have onward := follows.rounds_ascend rest
      by_cases stays : k = i
      · subst stays
        exact ⟨k, first, k, first, rest⟩
      · exact ⟨k, first, ih rest (by omega)⟩

theorem rounds_of_succ_of_long {n i j : Nat} (rounds : Rounds step (n + 1) i j)
    (long : j - i < n + 1) : Rounds step n i j := by
  induction n generalizing i with
  | zero =>
      obtain ⟨k, first, rfl⟩ := rounds
      have forward := follows.ascends first
      exact (by omega : i = k)
  | succ n ih =>
      obtain ⟨k, first, rest⟩ := rounds
      have forward := follows.ascends first
      have onward := follows.rounds_ascend rest
      by_cases stays : k = i
      · exact stays ▸ rest
      · exact ⟨k, first, ih rest (by omega)⟩

/-- All counts above the number of places are alike. -/
theorem rounds_min_iff {n i j : Nat} (inside : i ≤ size) :
    Rounds step (min n (size + 1)) i j ↔ Rounds step n i j := by
  have more (d : Nat) : Rounds step (size + 1 + d) i j ↔ Rounds step (size + 1) i j := by
    induction d with
    | zero => rfl
    | succ d ih =>
        rw [← ih]
        constructor
        · intro rounds
          have bound := follows.rounds_within inside rounds
          exact follows.rounds_of_succ_of_long (n := size + 1 + d) rounds (by omega)
        · intro rounds
          have bound := follows.rounds_within inside rounds
          exact follows.rounds_succ_of_long (n := size + 1 + d) rounds (by omega)
  rcases Nat.le_total n (size + 1) with few | many
  · rw [Nat.min_eq_left few]
  · obtain ⟨d, rfl⟩ := Nat.exists_eq_add_of_le many
    rw [Nat.min_eq_right many, more]

/-! Following all ways at once. -/

theorem mem_steps_iff {count : Nat} {is : List Nat} (inside : ∀ i ∈ is, i ≤ size) {j : Nat} :
    j ∈ steps follow count is ↔ ∃ i ∈ is, Rounds step count i j := by
  induction count generalizing is with
  | zero => simp [steps, Rounds]
  | succ count ih =>
      rw [steps]
      split
      · next fixed =>
        -- what one step leaves as it is, all steps leave
        have stable (n : Nat) : (∃ i ∈ is, Rounds step n i j) ↔ j ∈ is := by
          induction n with
          | zero => simp [Rounds]
          | succ n ih => rw [follows.exists_rounds_succ inside, fixed, ih]
        rw [stable]
      · rw [ih (follows.inside_follow inside), follows.exists_rounds_succ inside]

theorem mem_fresh_iff {seen front : List Nat} (inside : ∀ i ∈ front, i ≤ size) {k : Nat} :
    k ∈ fresh follow seen front ↔ (∃ i ∈ front, step i k) ∧ k ∉ seen := by
  rw [fresh, List.mem_filter, follows.mem_iff inside]
  simp

theorem fresh_or_seen {seen front : List Nat} (inside : ∀ i ∈ front, i ≤ size)
    (behind : ∀ i ∈ seen, i ∉ front → ∀ j, step i j → j ∈ seen) {i k : Nat} (known : i ∈ seen)
    (taken : step i k) : k ∈ fresh follow seen front ++ seen := by
  by_cases old : k ∈ seen
  · exact List.mem_append_right _ old
  · by_cases first : i ∈ front
    · exact List.mem_append_left _ ((follows.mem_fresh_iff inside).mpr ⟨⟨i, first, taken⟩, old⟩)
    · exact absurd (behind i known first k taken) old

/-- A walk from the front goes on from what its first step finds, unless that was seen before. -/
theorem fresh_walk_iff {count : Nat} {seen front : List Nat} (inside : ∀ i ∈ front, i ≤ size)
    (listed : ∀ i ∈ front, i ∈ seen)
    (behind : ∀ i ∈ seen, i ∉ front → ∀ j, step i j → j ∈ seen)
    (behindFresh : ∀ i ∈ fresh follow seen front ++ seen, i ∉ fresh follow seen front →
      ∀ j, step i j → j ∈ fresh follow seen front ++ seen) {j : Nat} :
    (j ∈ fresh follow seen front ++ seen ∨
      ∃ i ∈ fresh follow seen front, ∃ n ≤ count, Rounds step n i j) ↔
    j ∈ seen ∨ ∃ i ∈ front, ∃ n ≤ count + 1, Rounds step n i j := by
  have back {k n : Nat} (found : k ∈ fresh follow seen front) (few : n ≤ count)
      (walk : Rounds step n k j) : ∃ i ∈ front, ∃ n ≤ count + 1, Rounds step n i j := by
    obtain ⟨⟨i, member, taken⟩, -⟩ := (follows.mem_fresh_iff inside).mp found
    exact ⟨i, member, n + 1, Nat.succ_le_succ few, k, taken, walk⟩
  constructor
  · rintro (known | ⟨k, found, n, few, walk⟩)
    · rcases List.mem_append.mp known with found | old
      · exact .inr (back found (Nat.zero_le _) rfl)
      · exact .inl old
    · exact .inr (back found few walk)
  · rintro (old | ⟨i, member, n, few, walk⟩)
    · exact .inl (List.mem_append_right _ old)
    · cases n with
      | zero => exact .inl (List.mem_append_right _ (walk ▸ listed i member))
      | succ n =>
          obtain ⟨k, taken, rest⟩ := walk
          have known := follows.fresh_or_seen inside behind (listed i member) taken
          rcases seen_or_through_front behindFresh known rest with
            found | ⟨l, found, m, fewer, walk⟩
          · exact .inl found
          · exact .inr ⟨l, found, m, by omega, walk⟩

theorem mem_reach_iff {count : Nat} {seen front : List Nat} (inside : ∀ i ∈ front, i ≤ size)
    (listed : ∀ i ∈ front, i ∈ seen)
    (behind : ∀ i ∈ seen, i ∉ front → ∀ j, step i j → j ∈ seen) {j : Nat} :
    j ∈ reach follow count seen front ↔
      j ∈ seen ∨ ∃ i ∈ front, ∃ n ≤ count, Rounds step n i j := by
  induction count generalizing seen front with
  | zero =>
      simp only [reach, Nat.le_zero_eq, exists_eq_left, Rounds, exists_eq_right, iff_self_or]
      exact listed j
  | succ count ih =>
      have behindFresh : ∀ i ∈ fresh follow seen front ++ seen, i ∉ fresh follow seen front →
          ∀ k, step i k → k ∈ fresh follow seen front ++ seen := by
        intro i known old k taken
        have seen := (List.mem_append.mp known).resolve_left old
        exact follows.fresh_or_seen inside behind seen taken
      have insideFresh : ∀ k ∈ fresh follow seen front, k ≤ size := by
        intro k found
        obtain ⟨⟨i, member, taken⟩, -⟩ := (follows.mem_fresh_iff inside).mp found
        exact follows.within (inside i member) taken
      rw [← follows.fresh_walk_iff inside listed behind behindFresh]
      change j ∈ (if (fresh follow seen front).isEmpty then seen else _) ↔ _
      split
      · next nothing =>
        rw [List.isEmpty_iff.mp nothing]
        simp
      · exact ih insideFresh (fun i found => List.mem_append_left _ found) behindFresh

/-- Further rounds are as good as cut off where the text has no more places. -/
theorem exists_more_iff {least k j : Nat} {most : Option Nat} (within : k ≤ size) :
    (∃ n ≤ most.elim (size + 1) (fun most => min (most - least) (size + 1)), Rounds step n k j) ↔
      ∃ more, (∀ m ∈ most, more ≤ m - least) ∧ Rounds step more k j := by
  constructor
  · rintro ⟨n, few, walk⟩
    refine ⟨n, ?_, walk⟩
    rintro m rfl
    exact Nat.le_trans few (Nat.min_le_left _ _)
  · rintro ⟨more, allowed, walk⟩
    have bound := follows.rounds_within within walk
    obtain ⟨n, fewer, short, walk⟩ := follows.exists_shorter walk
    refine ⟨n, ?_, walk⟩
    cases most with
    | none => exact (by omega : n ≤ size + 1)
    | some m =>
        have few := allowed m rfl
        exact (by omega : n ≤ min (m - least) (size + 1))

theorem times (least : Nat) (most : Option Nat) :
    Follows
      (fun i j => ∃ more, (∀ m ∈ most, more ≤ m - least) ∧ Rounds step (least + more) i j)
      (fun is =>
        let first := steps follow (min least (size + 1)) is
        reach follow (most.elim (size + 1) fun most => min (most - least) (size + 1)) first first)
      size where
  mem_iff := by
    intro is inside j
    have mem_first {k : Nat} : k ∈ steps follow (min least (size + 1)) is ↔
        ∃ i ∈ is, Rounds step least i k := by
      rw [follows.mem_steps_iff inside]
      exact exists_congr fun i =>
        and_congr_right fun member => follows.rounds_min_iff (inside i member)
    have insideFirst : ∀ k ∈ steps follow (min least (size + 1)) is, k ≤ size := by
      intro k found
      obtain ⟨i, member, walk⟩ := mem_first.mp found
      exact follows.rounds_within (inside i member) walk
    simp only
    rw [follows.mem_reach_iff insideFirst (fun i found => found)
      (fun i found missing => absurd found missing)]
    constructor
    · rintro (found | ⟨k, found, rounds⟩)
      · obtain ⟨i, member, walk⟩ := mem_first.mp found
        exact ⟨i, member, 0, fun m _ => Nat.zero_le _, walk⟩
      · obtain ⟨more, allowed, rest⟩ := (follows.exists_more_iff (insideFirst k found)).mp rounds
        obtain ⟨i, member, walk⟩ := mem_first.mp found
        exact ⟨i, member, more, allowed, rounds_add.mpr ⟨k, walk, rest⟩⟩
    · rintro ⟨i, member, more, allowed, rounds⟩
      obtain ⟨k, walk, rest⟩ := rounds_add.mp rounds
      have found := mem_first.mpr ⟨i, member, walk⟩
      exact .inr ⟨k, found,
        (follows.exists_more_iff (insideFirst k found)).mpr ⟨more, allowed, rest⟩⟩
  ascends := by
    rintro i j ⟨more, -, rounds⟩
    exact follows.rounds_ascend rounds
  within := by
    rintro i j inside ⟨more, -, rounds⟩
    exact follows.rounds_within inside rounds

end Follows

/-- The positions that are found are those up to which the expression matches. -/
theorem follows_ends (text : Array Char) (r : Regex) :
    Follows (r.Matches text) (r.ends text) text.size := by
  induction r with
  | empty =>
      refine ⟨?_, ?_, ?_⟩
      · simp [ends, Matches]
      · rintro i j rfl
        exact Nat.le_refl i
      · rintro i j inside rfl
        exact inside
  | char set =>
      refine ⟨?_, ?_, ?_⟩
      · intro is _ j
        simp [ends, Matches, Option.any_eq_true, and_assoc]
      · rintro i j ⟨-, rfl⟩
        exact Nat.le_succ i
      · rintro i j - ⟨⟨c, here, -⟩, rfl⟩
        exact (Array.getElem?_eq_some_iff.mp here).1
  | look l =>
      refine ⟨?_, ?_, ?_⟩
      · simp [ends, Matches]
      · rintro i j ⟨-, rfl⟩
        exact Nat.le_refl i
      · rintro i j inside ⟨-, rfl⟩
        exact inside
  | seq r s first second =>
      refine ⟨?_, ?_, ?_⟩
      · intro is inside k
        rw [ends, second.mem_iff (first.inside_follow inside)]
        simp only [first.mem_iff inside, Matches]
        constructor
        · rintro ⟨j, ⟨i, member, front⟩, back⟩
          exact ⟨i, member, j, front, back⟩
        · rintro ⟨i, member, j, front, back⟩
          exact ⟨j, ⟨i, member, front⟩, back⟩
      · rintro i k ⟨j, front, back⟩
        exact Nat.le_trans (first.ascends front) (second.ascends back)
      · rintro i k inside ⟨j, front, back⟩
        exact second.within (first.within inside front) back
  | alt r s left right =>
      refine ⟨?_, ?_, ?_⟩
      · intro is inside j
        have joined : j ∈ ends text (alt r s) is ↔ j ∈ r.ends text is ∨ j ∈ s.ends text is := by
          by_cases found : j ∈ r.ends text is <;> simp [ends, join, found]
        rw [joined, left.mem_iff inside, right.mem_iff inside]
        simp only [Matches, and_or_left, exists_or]
      · rintro i j (branch | branch)
        · exact left.ascends branch
        · exact right.ascends branch
      · rintro i j inside (branch | branch)
        · exact left.within inside branch
        · exact right.within inside branch
  | times r least most body => exact body.times least most
  | capture r body => exact body

theorem matchesIn_iff (r : Regex) (text : List Char) :
    r.matchesIn text ↔ ∃ i ≤ text.length, ∃ j ≤ text.length, r.Matches text.toArray i j := by
  have follows := follows_ends text.toArray r
  have inside : ∀ i ∈ List.range (text.length + 1), i ≤ text.toArray.size := by
    intro i member
    exact Nat.le_of_lt_succ (List.mem_range.mp member)
  rw [matchesIn, Bool.not_eq_true', List.isEmpty_eq_false_iff_exists_mem]
  constructor
  · rintro ⟨j, found⟩
    obtain ⟨i, member, matched⟩ := (follows.mem_iff inside).mp found
    exact ⟨i, inside i member, j, follows.within (inside i member) matched, matched⟩
  · rintro ⟨i, bound, j, -, matched⟩
    exact ⟨j, (follows.mem_iff inside).mpr
      ⟨i, List.mem_range.mpr (Nat.lt_succ_of_le bound), matched⟩⟩

end Variability.Regex
