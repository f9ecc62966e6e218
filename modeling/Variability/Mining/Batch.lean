import Variability.DiffFilter

/-!
Batches: runs of consecutive commits that are mined together. A history is cut into batches of one
size, of which only the last may be shorter, and each is named by its first commit.
-/

namespace Variability.Mining

structure Batch where
  /-- The position among the batches. -/
  index : Nat
  /-- The id of the first commit. -/
  id : String
  commits : List CommitInfo
  deriving DecidableEq, Repr

/-- Consecutive pieces of `more + 1` elements each; the last may have fewer. -/
def chunks {α : Type} (more : Nat) : List α → List (List α)
  | [] => []
  | a :: as => (a :: as.take more) :: chunks more (as.drop more)
termination_by as => as.length
decreasing_by exact Nat.lt_succ_of_le (List.drop_suffix _ _).length_le

def Batch.ofChunk (index : Nat) (commits : List CommitInfo) : Batch :=
  ⟨index, (commits.head?.map (·.id)).getD "", commits⟩

def batches? (commits : List CommitInfo) : (size : Nat) → Option (List Batch)
  | 0 => none
  | more + 1 => some ((chunks more commits).mapIdx Batch.ofChunk)

theorem flatten_chunks {α : Type} (more : Nat) (as : List α) :
    (chunks more as).flatten = as := by
  fun_induction Mining.chunks more as with
  | case1 => rfl
  | case2 a as ih => simp [ih]

end Variability.Mining
