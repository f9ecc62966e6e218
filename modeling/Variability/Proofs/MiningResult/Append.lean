import Variability.Proofs.MiningResult.Merge

/-!
Adding results up. Appending is merging as long as every count stays a word, and a count that
leaves the words on the way leaves them in the end, so order and grouping change neither a total
nor whether there is one.
-/

namespace Variability.MiningResult

theorem append_of_fits {r s : MiningResult} (fits : (r.merge s).Fits) :
    r.append s = .ok (r.merge s) :=
  if_pos fits

theorem append_of_not_fits {r s : MiningResult} (wide : ¬ (r.merge s).Fits) :
    r.append s = .error .overflow :=
  if_neg wide

theorem append_eq_error_iff {r s : MiningResult} :
    r.append s = .error .overflow ↔ ¬ (r.merge s).Fits := by
  by_cases fits : (r.merge s).Fits
  · simp [append_of_fits fits, fits]
  · simp [append_of_not_fits fits, fits]

theorem append_comm (r s : MiningResult) : r.append s = s.append r := by
  rw [append, append, merge_comm]

theorem append_empty {r : MiningResult} (fits : r.Fits) : r.append empty = .ok r := by
  rw [append, merge_empty, total?, if_pos fits]

theorem total?_of_fits {r : MiningResult} (fits : r.Fits) : r.total? = .ok r :=
  if_pos fits

theorem total?_of_not_fits {r : MiningResult} (wide : ¬ r.Fits) : r.total? = .error .overflow :=
  if_neg wide

theorem total?_eq_ok_iff {r t : MiningResult} : r.total? = .ok t ↔ r.Fits ∧ t = r := by
  rw [total?]
  split
  · next fits => simp [fits, eq_comm]
  · next wide => simp [wide]

/-- A merge that is behind the words stays behind them. -/
theorem append_bind_total? (r s t : MiningResult) :
    (r.append s).bind (fun u => (u.merge t).total?) = ((r.merge s).merge t).total? := by
  by_cases fits : (r.merge s).Fits
  · rw [append_of_fits fits]
    rfl
  · rw [append_of_not_fits fits, total?_of_not_fits fun all => fits all.left]
    rfl

theorem append_assoc (r s t : MiningResult) :
    (r.append s).bind (·.append t) = (s.append t).bind r.append := by
  have turned : r.append = fun u => (u.merge r).total? := by
    funext u
    rw [append_comm, append, total?]
  calc (r.append s).bind (·.append t)
      = ((r.merge s).merge t).total? := append_bind_total? r s t
    _ = ((s.merge t).merge r).total? := by rw [merge_assoc, merge_comm]
    _ = (s.append t).bind r.append := by rw [turned, append_bind_total?]

/-! Many results. -/

def mergeAll (rs : List MiningResult) : MiningResult :=
  rs.foldr merge empty

@[simp] theorem mergeAll_nil : mergeAll [] = empty := rfl

@[simp] theorem mergeAll_cons (r : MiningResult) (rs : List MiningResult) :
    mergeAll (r :: rs) = r.merge (mergeAll rs) := rfl

theorem mergeAll_append (rs ss : List MiningResult) :
    mergeAll (rs ++ ss) = (mergeAll rs).merge (mergeAll ss) := by
  induction rs with
  | nil => simp
  | cons r rs ih => simp [ih, merge_assoc]

theorem mergeAll_perm {rs ss : List MiningResult} (perm : rs.Perm ss) :
    mergeAll rs = mergeAll ss := by
  induction perm with
  | nil => rfl
  | cons r _ ih => rw [mergeAll_cons, mergeAll_cons, ih]
  | swap r s rs =>
      simp only [mergeAll_cons, ← merge_assoc]
      rw [merge_comm s r]
  | trans _ _ first second => exact first.trans second

/-- Appending one after the other is appending the merge of all. -/
theorem appendAll_eq_total? {r : MiningResult} (fits : r.Fits) (rs : List MiningResult) :
    r.appendAll rs = (r.merge (mergeAll rs)).total? := by
  induction rs generalizing r with
  | nil =>
      rw [mergeAll_nil, merge_empty, total?_of_fits fits]
      rfl
  | cons s rs ih =>
      rw [mergeAll_cons, ← merge_assoc, appendAll, List.foldlM_cons]
      by_cases fitsToo : (r.merge s).Fits
      · rw [append_of_fits fitsToo]
        exact ih fitsToo
      · rw [append_of_not_fits fitsToo, total?_of_not_fits fun all => fitsToo all.left]
        rfl

theorem empty_appendAll (rs : List MiningResult) : empty.appendAll rs = (mergeAll rs).total? := by
  rw [appendAll_eq_total? fits_empty, empty_merge]

theorem empty_appendAll_eq_ok_iff {rs : List MiningResult} {total : MiningResult} :
    empty.appendAll rs = .ok total ↔ (mergeAll rs).Fits ∧ total = mergeAll rs := by
  rw [empty_appendAll, total?_eq_ok_iff]

theorem appendAll_perm {rs ss : List MiningResult} (perm : rs.Perm ss) :
    empty.appendAll rs = empty.appendAll ss := by
  rw [empty_appendAll, empty_appendAll, mergeAll_perm perm]

/-- Results may be added up group by group first. -/
theorem appendAll_flatten (groups : List (List MiningResult)) :
    (groups.mapM empty.appendAll).bind empty.appendAll = empty.appendAll groups.flatten := by
  have whole : empty.appendAll = fun rs => (empty.merge (mergeAll rs)).total? :=
    funext (appendAll_eq_total? fits_empty)
  -- The total of the groups read so far stands before the rest.
  suffices grouped : ∀ r : MiningResult,
      (groups.mapM empty.appendAll).bind (fun rs => (r.merge (mergeAll rs)).total?) =
        (r.merge (mergeAll groups.flatten)).total? by
    rw [appendAll_eq_total? fits_empty, ← grouped empty, ← whole]
  induction groups with
  | nil => intro r; rfl
  | cons group groups ih =>
      intro r
      rw [List.flatten_cons, mergeAll_append, ← merge_assoc, List.mapM_cons, empty_appendAll]
      by_cases fits : (mergeAll group).Fits
      · rw [total?_of_fits fits, ← ih]
        cases groups.mapM empty.appendAll with
        | error fault => rfl
        | ok rs =>
            change (r.merge (mergeAll (mergeAll group :: rs))).total? = _
            rw [mergeAll_cons, ← merge_assoc]
            rfl
      · rw [total?_of_not_fits fits, total?_of_not_fits fun all => fits all.left.right]
        rfl

/-! The laws together: results under `append` are a commutative monoid that may run over. -/

theorem append_laws :
    (∀ r s : MiningResult, r.append s = s.append r) ∧
      (∀ r s t : MiningResult, (r.append s).bind (·.append t) = (s.append t).bind r.append) ∧
      (∀ r : MiningResult, r.Fits → empty.append r = .ok r ∧ r.append empty = .ok r) ∧
      (∀ r s : MiningResult,
        r.append s = .error .overflow ↔ ∃ n ∈ (r.merge s).counts, Text.wordLimit ≤ n) ∧
      (∀ rs ss : List MiningResult, rs.Perm ss → empty.appendAll rs = empty.appendAll ss) ∧
      ∀ groups : List (List MiningResult),
        (groups.mapM empty.appendAll).bind empty.appendAll = empty.appendAll groups.flatten := by
  refine ⟨append_comm, append_assoc, ?_, ?_, fun _ _ => appendAll_perm, appendAll_flatten⟩
  · intro r fits
    exact ⟨append_comm r empty ▸ append_empty fits, append_empty fits⟩
  · intro r s
    rw [append_eq_error_iff, Fits]
    push Not
    rfl

theorem append_laws_last_word :
    let last : MiningResult := { empty with totalCommits := Text.wordLimit - 1 }
    let one : MiningResult := { empty with totalCommits := 1 }
    (last.Fits ∧ empty.append last = .ok last ∧ last.append empty = .ok last) ∧
      [last, one].Perm [one, last] ∧ empty.appendAll [last, one] = .error .overflow ∧
      empty.appendAll [one, last] = .error .overflow := by
  intro last one
  obtain ⟨-, -, identity, -, order, -⟩ := append_laws
  have fits : last.Fits := by decide
  have swapped : [last, one].Perm [one, last] := .swap one last []
  have wide : empty.appendAll [last, one] = .error .overflow := rfl
  exact ⟨⟨fits, identity last fits⟩, swapped, wide, (order _ _ swapped).symm.trans wide⟩

end Variability.MiningResult
