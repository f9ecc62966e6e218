import Mathlib.Data.Nat.Bitwise
import Variability.Formula.Satisfiability
import Variability.KeyMap
import Variability.Proofs.Formula.Meaning

/-!
What the bundled oracle answers. The names of the table ascend, so halving finds the place of each
of them, and the bits of a row are an assignment of the names. Every assignment has a row below the
number of rows, so going through the rows meets a model if there is one.
-/

namespace Variability

namespace Formula

/-- A formula whose truth value is settled by the values of some features. -/
def DependsOn (f : Formula) (xs : List String) : Prop :=
  ∀ env env', (∀ x ∈ xs, env x = env' x) → f.eval env = f.eval env'

mutual
theorem dependsOn_occurrences : (f : Formula) → f.DependsOn f.occurrences
  | tt | ff => by
      intro env env' _
      simp
  | var x => by
      intro env env' same
      simp only [eval]
      exact same x (by simp [occurrences])
  | not f => by
      intro env env' same
      rw [eval_not, eval_not, dependsOn_occurrences f env env' same]
  | and fs => by
      intro env env' same
      have each := congrArg (List.all · id) (map_eval_eq fs env env' same)
      rw [eval_and, eval_and]
      simpa [List.all_map] using each
  | or fs => by
      intro env env' same
      have each := congrArg (List.any · id) (map_eval_eq fs env env' same)
      rw [eval_or, eval_or]
      simpa [List.any_map] using each

theorem map_eval_eq : (fs : List Formula) → (env env' : String → Bool) →
    (∀ x ∈ occurrencesAll fs, env x = env' x) → fs.map (eval env) = fs.map (eval env')
  | [], _, _, _ => rfl
  | f :: fs, env, env', same => by
      rw [List.map_cons, List.map_cons,
        dependsOn_occurrences f env env' fun x member => same x (by simp [occurrencesAll, member]),
        map_eval_eq fs env env' fun x member => same x (by simp [occurrencesAll, member])]
end

theorem ascending_insertName {x : String} {ys : List String} (ascending : ys.Pairwise (· < ·)) :
    (insertName x ys).Pairwise (· < ·) := by
  induction ys with
  | nil => simp [insertName]
  | cons y ys ih =>
      obtain ⟨head, tail⟩ := List.pairwise_cons.mp ascending
      simp only [insertName]
      split
      · next before =>
        refine List.pairwise_cons.mpr ⟨fun z member => ?_, ascending⟩
        rcases List.mem_cons.mp member with rfl | later
        · exact before
        · exact String.lt_trans before (head z later)
      · next notBefore =>
        split
        · exact ascending
        · next different =>
          refine List.pairwise_cons.mpr ⟨fun z member => ?_, ih tail⟩
          rcases mem_insertName.mp member with rfl | later
          · exact Entries.lt_of_not_lt_of_ne notBefore different
          · exact head z later

theorem ascending_foldr_insertName (xs : List String) :
    (xs.foldr insertName []).Pairwise (· < ·) := by
  induction xs with
  | nil => exact .nil
  | cons x xs ih => exact ascending_insertName ih

theorem mem_foldr_insertName {x : String} {xs : List String} :
    x ∈ xs.foldr insertName [] ↔ x ∈ xs := by
  induction xs with
  | nil => simp
  | cons y ys ih => simp [mem_insertName, ih]

theorem ascending_collect {found : List String} {stack : List Formula}
    (ascending : found.Pairwise (· < ·)) : (collect found stack).Pairwise (· < ·) := by
  fun_induction collect found stack with
  | case1 => exact ascending
  | case4 found x stack ih => exact ih (ascending_insertName ascending)
  | case2 _ _ ih | case3 _ _ ih | case5 _ _ _ ih => exact ih ascending
  | case6 _ _ _ ih | case7 _ _ _ ih =>
      simp only [List.unattach_reverse, List.unattach_attach] at ih
      exact ih ascending

theorem ascending_features (f : Formula) : f.features.Pairwise (· < ·) :=
  ascending_collect .nil

theorem dependsOn_features (f : Formula) : f.DependsOn f.features :=
  fun env env' same => dependsOn_occurrences f env env' fun x occurs =>
    same x (mem_features.mpr occurs)

end Formula

namespace TruthTable

/-- The row of an assignment. -/
def rowOf (xs : Array String) (env : String → Bool) : UInt64 :=
  .ofNat (Nat.ofBits fun place : Fin xs.size => env xs[place])

variable {xs : Array String} {x : String}

section Place

variable {low high place : Nat} {inside : high ≤ xs.size}

theorem getElem_of_placeBetween? (found : placeBetween? xs x low high inside = some place) :
    ∃ bound : place < xs.size, xs[place] = x := by
  fun_induction placeBetween? xs x low high inside with
  | case1 low high inside range middle bound before ih => exact ih found
  | case2 low high inside range middle bound _ same =>
      obtain rfl := Option.some.inj found
      exact ⟨bound, same⟩
  | case3 low high inside range middle bound _ _ ih => exact ih found
  | case4 => cases found

/-- Halving keeps the place of a name in the range. -/
theorem placeBetween?_getElem (ascending : xs.toList.Pairwise (· < ·)) (bound : place < xs.size)
    (above : low ≤ place) (below : place < high) :
    placeBetween? xs xs[place] low high inside = some place := by
  have ordered {i j : Nat} (hi : i < xs.size) (hj : j < xs.size) (less : i < j) : xs[i] < xs[j] :=
    List.pairwise_iff_getElem.mp ascending i j hi hj less
  fun_induction placeBetween? xs xs[place] low high inside with
  | case1 low high inside range middle hMiddle before ih =>
      refine ih ?_ below
      by_contra notAbove
      rcases Nat.lt_or_eq_of_le (Nat.le_of_lt_succ (Nat.lt_of_not_le notAbove)) with less | rfl
      · exact String.lt_asymm before (ordered bound hMiddle less)
      · exact String.lt_irrefl _ before
  | case2 low high inside range middle hMiddle _ same =>
      congr
      by_contra different
      rcases Nat.lt_or_gt_of_ne different with less | greater
      · exact String.ne_of_lt (ordered hMiddle bound less) same
      · exact String.ne_of_lt (ordered bound hMiddle greater) same.symm
  | case3 low high inside range middle hMiddle notBefore different ih =>
      refine ih above ?_
      by_contra notBelow
      rcases Nat.lt_or_eq_of_le (Nat.le_of_not_lt notBelow) with less | rfl
      · exact notBefore (ordered hMiddle bound less)
      · exact different rfl
  | case4 => omega

/-- In an ascending array a name is found exactly where it stands. -/
theorem place?_eq_some_iff (ascending : xs.toList.Pairwise (· < ·)) :
    place? xs x = some place ↔ xs[place]? = some x := by
  rw [Array.getElem?_eq_some_iff]
  constructor
  · exact getElem_of_placeBetween?
  · rintro ⟨bound, rfl⟩
    exact placeBetween?_getElem ascending bound (Nat.zero_le place) bound

end Place

theorem toNat_bit {place : Nat} (fits : place < 64) : (bit place).toNat = 2 ^ place := by
  have small : 2 ^ place < 2 ^ 64 := Nat.pow_lt_pow_right (by decide) fits
  have word : place.toUInt64.toNat = place :=
    UInt64.toNat_ofNat_of_lt' (Nat.lt_trans fits (by decide))
  rw [bit, UInt64.toNat_shiftLeft, word, Nat.mod_eq_of_lt fits, UInt64.toNat_one,
    Nat.one_shiftLeft, Nat.mod_eq_of_lt small]

/-- A row tells the value of the feature at a place by the bit there. -/
theorem and_bit_ne_zero (row : UInt64) {place : Nat} (fits : place < 64) :
    (row &&& bit place != 0) = row.toNat.testBit place := by
  have meet : (row &&& bit place).toNat = (row.toNat.testBit place).toNat * 2 ^ place := by
    rw [UInt64.toNat_and, toNat_bit fits, Nat.and_two_pow]
  cases tested : row.toNat.testBit place <;> simp_all [← UInt64.toNat_inj]

theorem value_getElem (ascending : xs.toList.Pairwise (· < ·)) (row : UInt64)
    {place : Nat} (bound : place < xs.size) (fits : xs.size < 64) :
    value xs row xs[place] = row.toNat.testBit place := by
  have here : place? xs xs[place] = some place :=
    (place?_eq_some_iff ascending).mpr (Array.getElem?_eq_getElem bound)
  rw [value, here, Option.any_some, and_bit_ne_zero row (by omega)]

theorem toNat_rowOf (fits : xs.size < 64) (env : String → Bool) :
    (rowOf xs env).toNat = Nat.ofBits fun place : Fin xs.size => env xs[place] := by
  have small : 2 ^ xs.size ≤ 2 ^ 64 := Nat.pow_le_pow_right (by decide) fits.le
  exact UInt64.toNat_ofNat_of_lt' ((Nat.ofBits_lt_two_pow _).trans_le small)

theorem rowOf_lt (fits : xs.size < 64) (env : String → Bool) : rowOf xs env < bit xs.size := by
  rw [UInt64.lt_iff_toNat_lt, toNat_rowOf fits, toNat_bit fits]
  exact Nat.ofBits_lt_two_pow _

theorem value_rowOf (ascending : xs.toList.Pairwise (· < ·)) (fits : xs.size < 64)
    (env : String → Bool) (member : x ∈ xs.toList) : value xs (rowOf xs env) x = env x := by
  obtain ⟨place, bound, rfl⟩ := Array.mem_iff_getElem.mp (Array.mem_toList_iff.mp member)
  rw [value_getElem ascending _ bound fits, toNat_rowOf fits,
    Nat.testBit_ofBits_lt _ _ bound]
  rfl

variable {f : Formula} {total row : UInt64}

theorem next_le_iff {r : UInt64} (below : row < total) : row + 1 ≤ r ↔ row < r := by
  rw [UInt64.le_iff_toNat_le, UInt64.lt_iff_toNat_lt, toNat_next below, Nat.succ_le_iff]

theorem anyRow_iff :
    anyRow f xs total row ↔ ∃ r, row ≤ r ∧ r < total ∧ f.eval (value xs r) := by
  fun_induction anyRow f xs total row with
  | case1 row below ih =>
      rw [Bool.or_eq_true, ih]
      constructor
      · rintro (holds | ⟨r, above, inside, holds⟩)
        · exact ⟨row, UInt64.le_refl row, below, holds⟩
        · exact ⟨r, UInt64.le_of_lt ((next_le_iff below).mp above), inside, holds⟩
      · rintro ⟨r, above, inside, holds⟩
        by_cases same : row = r
        · exact .inl (same ▸ holds)
        · exact .inr ⟨r, (next_le_iff below).mpr (UInt64.lt_of_le_of_ne above same), inside, holds⟩
  | case2 row past =>
      simp only [Bool.false_eq_true, false_iff, not_exists, not_and]
      exact fun r above inside => absurd (UInt64.lt_of_le_of_lt above inside) past

/-- Going through the rows meets a model if there is one. -/
theorem satisfiable_iff (ascending : xs.toList.Pairwise (· < ·)) (fits : xs.size < 64)
    (depends : f.DependsOn xs.toList) : satisfiable f xs ↔ ∃ env, f.eval env := by
  rw [satisfiable, anyRow_iff]
  constructor
  · rintro ⟨row, -, -, holds⟩
    exact ⟨_, holds⟩
  · rintro ⟨env, holds⟩
    refine ⟨rowOf xs env, UInt64.zero_le, rowOf_lt fits env, ?_⟩
    rwa [depends _ env fun x member => value_rowOf ascending fits env member]

theorem satisfiable_features_iff (fits : f.features.toArray.size < 64) :
    satisfiable f f.features.toArray ↔ ∃ env, f.eval env :=
  satisfiable_iff f.ascending_features fits f.dependsOn_features

end TruthTable

namespace Oracle

variable {f g : Formula} {limit : Nat}

theorem bounded_satisfiable {b : Bool} (answered : (bounded limit).satisfiable f = .ok b) :
    b ↔ ∃ env, f.eval env := by
  unfold bounded at answered
  simp only at answered
  split at answered
  · cases answered
  · next within =>
    rw [← Except.ok.inj answered]
    exact TruthTable.satisfiable_features_iff (by simp_all)

theorem implies_cases {o : Oracle} {b : Bool} (answered : o.implies f g = .ok b) :
    f = g ∧ b = true ∨ ∃ found, o.satisfiable (.conj [f, .neg g]) = .ok found ∧ b = !found := by
  unfold implies at answered
  split at answered
  · next same => exact .inl ⟨same, (Except.ok.inj answered).symm⟩
  · cases asked : o.satisfiable (.conj [f, .neg g]) with
    | error e =>
        rw [asked] at answered
        cases answered
    | ok found =>
        rw [asked] at answered
        exact .inr ⟨found, rfl, (Except.ok.inj answered).symm⟩

theorem bounded_implies {b : Bool} (answered : (bounded limit).implies f g = .ok b) :
    b ↔ ∀ env, f.eval env → g.eval env := by
  rcases implies_cases answered with ⟨rfl, rfl⟩ | ⟨found, asked, rfl⟩
  · exact ⟨fun _ _ holds => holds, fun _ => rfl⟩
  · have meaning : found ↔ ∃ env, f.eval env ∧ ¬ g.eval env := by
      rw [bounded_satisfiable asked]
      simp
    rw [Bool.not_eq_true', ← Bool.not_eq_true, meaning]
    constructor
    · intro none env holds
      rcases Bool.eq_false_or_eq_true (g.eval env) with implied | fails
      · exact implied
      · exact absurd ⟨env, holds, by simp [fails]⟩ none
    · rintro implied ⟨env, holds, fails⟩
      exact fails (implied env holds)

end Oracle

end Variability
