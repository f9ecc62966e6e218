import Variability.Formula

/-!
What the folding constructors mean. Folding constants and flattening nested operands changes the
shape of a formula and never its truth value.
-/

namespace Variability.Formula

@[simp] theorem eval_tt (env : String → Bool) : tt.eval env = true := by
  simp [eval]

@[simp] theorem eval_ff (env : String → Bool) : ff.eval env = false := by
  simp [eval]

@[simp] theorem eval_not (env : String → Bool) (f : Formula) :
    (not f).eval env = !f.eval env := by
  simp [eval]

@[simp] theorem eval_and (env : String → Bool) (fs : List Formula) :
    (and fs).eval env = fs.all (eval env) := by
  rw [eval, evalAll_eq_all]

@[simp] theorem eval_or (env : String → Bool) (fs : List Formula) :
    (or fs).eval env = fs.any (eval env) := by
  rw [eval, evalAny_eq_any]

@[simp] theorem eval_neg (env : String → Bool) (f : Formula) :
    f.neg.eval env = !f.eval env := by
  cases f <;> simp [neg]

private theorem all_conjuncts (env : String → Bool) (fs : List Formula) :
    (conjuncts fs).elim false (·.all (eval env)) = fs.all (eval env) := by
  -- no operands are kept when one of them is contradictory
  fun_induction conjuncts fs with
  | case1 => rfl
  | case2 fs ih => simpa using ih
  | case3 fs => simp
  | case4 gs fs ih =>
      rw [List.all_cons, ← ih, eval_and]
      cases conjuncts fs <;> simp
  | case5 f fs _ _ _ ih =>
      rw [List.all_cons, ← ih]
      cases conjuncts fs <;> simp

@[simp] theorem eval_conj (env : String → Bool) (fs : List Formula) :
    (conj fs).eval env = fs.all (eval env) := by
  rw [← all_conjuncts, conj]
  split <;> simp_all

private theorem any_disjuncts (env : String → Bool) (fs : List Formula) :
    (disjuncts fs).elim true (·.any (eval env)) = fs.any (eval env) := by
  fun_induction disjuncts fs with
  | case1 => rfl
  | case2 fs ih => simpa using ih
  | case3 fs => simp
  | case4 gs fs ih =>
      rw [List.any_cons, ← ih, eval_or]
      cases disjuncts fs <;> simp
  | case5 f fs _ _ _ ih =>
      rw [List.any_cons, ← ih]
      cases disjuncts fs <;> simp

@[simp] theorem eval_disj (env : String → Bool) (fs : List Formula) :
    (disj fs).eval env = fs.any (eval env) := by
  rw [← any_disjuncts, disj]
  split <;> simp_all

end Variability.Formula
