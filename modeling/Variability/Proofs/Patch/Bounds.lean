import Variability.Proofs.Patch.Acceptance
import Variability.Proofs.Patch.Dissolution
import Variability.Proofs.Patch.Labels

/-!
Bounds of the numbers and positions that come up on the way from a patch to the graph of a commit.
Lines are counted within the patch, the ends of hunks never lie before their starts, and whatever
stands on a stack or at the end of a link is a node that is there.
-/

namespace Variability

/-- A span of lines before line `n`. -/
structure LineSpan.Before (span : LineSpan) (n : Nat) : Prop where
  counted : 0 < span.first
  ordered : span.first ≤ span.last
  inside : span.last < n

namespace Patch

theorem Entry.ofText_lines {edit : Edit} {lines : LineSpan} {text : List Char} {e : Entry}
    (read : Entry.ofText edit lines text = .ok e) : e.lines = lines := by
  unfold ofText at read
  cases line : Directive.ofLine text with
  | error err => simp [line, Except.map] at read
  | ok found =>
      rw [line] at read
      obtain _ | ⟨kind, _ | guard⟩ := found <;> cases read <;> rfl

theorem read_before (hunk : Option HunkRange) {n : Nat} (counted : 0 < n) {open? : Option Piece}
    (opened : ∀ p ∈ open?, p.lines.Before n) (lines : List (List Char)) :
    ∀ e ∈ (read hunk n open? lines).entries, e.lines.Before (n + lines.length) := by
  have before {e : Entry} {r : Reading} {edit : Edit} {span : LineSpan} {text : List Char}
      {m : Nat} (made : Entry.ofText edit span text = .ok e) (within : span.Before m)
      (rest : ∀ e ∈ r.entries, e.lines.Before m) : ∀ f ∈ (r.cons e).entries, f.lines.Before m :=
    List.forall_mem_cons.mpr ⟨Entry.ofText_lines made ▸ within, rest⟩
  have nothing (m : Nat) : ∀ e ∈ ([] : List Entry), e.lines.Before m := by simp
  have single {n : Nat} (counted : 0 < n) : LineSpan.Before ⟨n, n⟩ (n + 1) :=
    ⟨counted, Nat.le_refl n, Nat.lt_succ_self n⟩
  have longer {span : LineSpan} {n : Nat} (within : span.Before n) :
      LineSpan.Before ⟨span.first, n⟩ (n + 1) :=
    ⟨within.counted, Nat.le_trans within.ordered (Nat.le_of_lt within.inside), Nat.lt_succ_self n⟩
  have later {span : LineSpan} {n : Nat} (within : span.Before n) (k : Nat) :
      span.Before (n + k) :=
    ⟨within.counted, within.ordered, Nat.lt_add_right k within.inside⟩
  have ahead (n : Nat) (line : List Char) (rest : List (List Char)) :
      n + (line :: rest).length = n + 1 + rest.length := by
    rw [List.length_cons]
    omega
  fun_induction read hunk n open? lines with
  | case1 | case2 | case5 | case10 | case12 | case14 => exact nothing _
  | case3 hunk n p e made => exact before made (opened p rfl) (nothing _)
  | case4 hunk n line rest _ _ ih | case7 hunk n line rest _ _ ih
  | case8 hunk n line rest _ _ _ ih | case6 hunk n line rest _ _ _ _ _ ih =>
      rw [ahead]
      exact ih (Nat.succ_pos n) (by simp)
  | case9 hunk n line rest _ _ _ edit text split _ ih =>
      rw [ahead]
      refine ih (Nat.succ_pos n) ?_
      rintro p ⟨⟩
      exact single counted
  | case11 hunk n line rest _ _ _ edit text split _ e made ih =>
      rw [ahead]
      exact before made (later (single counted) _) (ih (Nat.succ_pos n) (by simp))
  | case13 hunk n p line rest edit more split _ text lines _ ih =>
      rw [ahead]
      refine ih (Nat.succ_pos n) ?_
      rintro q ⟨⟩
      exact longer (opened p rfl)
  | case15 hunk n p line rest edit more split _ text lines _ e made ih =>
      rw [ahead]
      exact before made (later (longer (opened p rfl)) _) (ih (Nat.succ_pos n) (by simp))

namespace Nesting

theorem Built.branch_lt {s : Nesting} {es : List Entry} (built : Built s es) {d : Side} {b : Nat}
    (opened : b ∈ s.branches d) : b < s.tree.size := by
  rw [built.branches] at opened
  rw [built.tree.size]
  exact Nat.lt_succ_of_le (le_of_mem_openBranches opened)

theorem Built.top_lt {s : Nesting} {es : List Entry} (built : Built s es) (d : Side) :
    s.top d < s.tree.size := by
  rw [top, built.branches, built.tree.size]
  exact Nat.lt_succ_of_le (headD_openBranches_le d es)

end Nesting

/-- Reading a patch and building its tree stay within words and within the tree. -/
structure InBounds (text : String) : Prop where
  headers : ∀ line ∈ Text.lines text.toList, ∀ r, HunkRange.ofHeader? line = some r → r.InWords
  covered : ∀ r, (readLines (Text.lines text.toList)).ending = .ok (some r) → r.InWords
  counted : ∀ e ∈ entriesOf text, e.lines.Before ((Text.lines text.toList).length + 1)
  numbered : (entriesOf text).length ≤ (Text.lines text.toList).length
  nested : ∀ source k s, ((entriesOf text).take k).foldlM Nesting.place (.start source) = .ok s →
    ∀ d, s.top d < s.tree.size ∧ ∀ b ∈ s.branches d, b < s.tree.size

theorem inBounds (text : String) : InBounds text where
  headers := fun _ _ _ header => HunkRange.inWords_of_ofHeader? header
  covered := fun r ending => read_inWords (by simp) 1 none _ ending r rfl
  counted := by
    rw [Nat.add_comm]
    exact read_before none Nat.one_pos (by simp) _
  numbered := length_entries_le none 1 none _
  nested := by
    intro source k s placed d
    have built := (Nesting.Built.start source).foldlM placed
    exact ⟨built.top_lt d, fun b opened => built.branch_lt opened⟩

end Patch

end Variability
