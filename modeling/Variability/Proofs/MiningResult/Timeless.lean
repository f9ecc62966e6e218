import Mathlib.Algebra.Ring.Nat
import Variability.Proofs.MiningResult.Append

/-!
Results without what was read off a clock. Leaving the times out goes along with merging, and a
result fits if it does without its times and the times do.
-/

namespace Variability.MiningResult

def timeless (r : MiningResult) : MiningResult :=
  { r with fastest := none, slowest := none, runtimeMillis := 0, wallMillis := 0 }

theorem timeless_merge (r s : MiningResult) :
    (r.merge s).timeless = r.timeless.merge s.timeless := rfl

theorem timeless_mergeAll (rs : List MiningResult) :
    (mergeAll rs).timeless = mergeAll (rs.map timeless) := by
  induction rs with
  | nil => rfl
  | cons r rs ih => rw [mergeAll_cons, timeless_merge, ih, List.map_cons, mergeAll_cons]

theorem Fits.timeless {r : MiningResult} (fits : r.Fits) : r.timeless.Fits := by
  obtain ⟨scalars, maps⟩ := fits_iff.mp fits
  refine fits_iff.mpr ⟨?_, maps⟩
  simp only [MiningResult.timeless]
  omega

theorem fits_of_timeless {r : MiningResult} (fits : r.timeless.Fits)
    (runtime : r.runtimeMillis < Text.wordLimit) (wall : r.wallMillis < Text.wordLimit) :
    r.Fits := by
  obtain ⟨scalars, maps⟩ := fits_iff.mp fits
  refine fits_iff.mpr ⟨?_, maps⟩
  simp only [MiningResult.timeless] at scalars
  omega

theorem runtimeMillis_mergeAll (rs : List MiningResult) :
    (mergeAll rs).runtimeMillis = (rs.map (·.runtimeMillis)).sum := by
  induction rs with
  | nil => rfl
  | cons r rs ih => rw [mergeAll_cons, List.map_cons, List.sum_cons, ← ih, merge]

theorem wallMillis_mergeAll {rs : List MiningResult} (still : ∀ r ∈ rs, r.wallMillis = 0) :
    (mergeAll rs).wallMillis = 0 := by
  induction rs with
  | nil => rfl
  | cons r rs ih =>
      rw [mergeAll_cons, merge, still r (.head rs), ih fun s member => still s (.tail r member)]

end Variability.MiningResult
