/-!
Propositional formulas over named features. The constructors `neg`, `conj` and `disj` fold
constants and flatten nested operands of the same kind; `eval` gives every formula its meaning,
however it was built.
-/

namespace Variability

inductive Formula where
  | tt
  | ff
  | var (name : String)
  | not (operand : Formula)
  | and (operands : List Formula)
  | or (operands : List Formula)
  deriving Repr, Inhabited

namespace Formula

mutual
def decEq : (f g : Formula) → Decidable (f = g)
  | tt, tt => isTrue rfl
  | ff, ff => isTrue rfl
  | var x, var y =>
    if h : x = y then isTrue (h ▸ rfl) else isFalse (by simpa using h)
  | not f, not g =>
    match decEq f g with
    | isTrue h => isTrue (h ▸ rfl)
    | isFalse h => isFalse (by simpa using h)
  | and fs, and gs =>
    match decEqList fs gs with
    | isTrue h => isTrue (h ▸ rfl)
    | isFalse h => isFalse (by simpa using h)
  | or fs, or gs =>
    match decEqList fs gs with
    | isTrue h => isTrue (h ▸ rfl)
    | isFalse h => isFalse (by simpa using h)
  | tt, ff | tt, var _ | tt, not _ | tt, and _ | tt, or _
  | ff, tt | ff, var _ | ff, not _ | ff, and _ | ff, or _
  | var _, tt | var _, ff | var _, not _ | var _, and _ | var _, or _
  | not _, tt | not _, ff | not _, var _ | not _, and _ | not _, or _
  | and _, tt | and _, ff | and _, var _ | and _, not _ | and _, or _
  | or _, tt | or _, ff | or _, var _ | or _, not _ | or _, and _ =>
    isFalse (by simp)

def decEqList : (fs gs : List Formula) → Decidable (fs = gs)
  | [], [] => isTrue rfl
  | [], _ :: _ | _ :: _, [] => isFalse (by simp)
  | f :: fs, g :: gs =>
    match decEq f g, decEqList fs gs with
    | isTrue h, isTrue hs => isTrue (h ▸ hs ▸ rfl)
    | isFalse h, _ => isFalse (by simp [h])
    | _, isFalse h => isFalse (by simp [h])
end

instance : DecidableEq Formula := decEq

/-- Negation: constants are folded and a double negation cancels. -/
def neg : Formula → Formula
  | tt => ff
  | ff => tt
  | not f => f
  | f => not f

/-- The operands that a conjunction keeps: those of a nested conjunction, none for a tautology,
and no conjunction at all once an operand is contradictory. -/
def conjuncts : List Formula → Option (List Formula)
  | [] => some []
  | tt :: fs => conjuncts fs
  | ff :: _ => none
  | and gs :: fs => (conjuncts fs).map (gs ++ ·)
  | f :: fs => (conjuncts fs).map (f :: ·)

/-- Conjunction: folded and flattened, and written only for two operands or more. -/
def conj (fs : List Formula) : Formula :=
  match conjuncts fs with
  | none => ff
  | some [] => tt
  | some [f] => f
  | some fs => and fs

/-- The operands that a disjunction keeps: dual to `conjuncts`. -/
def disjuncts : List Formula → Option (List Formula)
  | [] => some []
  | ff :: fs => disjuncts fs
  | tt :: _ => none
  | or gs :: fs => (disjuncts fs).map (gs ++ ·)
  | f :: fs => (disjuncts fs).map (f :: ·)

/-- Disjunction: folded and flattened, and written only for two operands or more. -/
def disj (fs : List Formula) : Formula :=
  match disjuncts fs with
  | none => tt
  | some [] => ff
  | some [f] => f
  | some fs => or fs

/-- Exclusive or: one operand holds and the other does not. -/
def xor (f g : Formula) : Formula :=
  disj [conj [f, neg g], conj [neg f, g]]

mutual
/-- The truth value under an assignment of the features. -/
def eval (env : String → Bool) : Formula → Bool
  | tt => true
  | ff => false
  | var x => env x
  | not f => !f.eval env
  | and fs => evalAll env fs
  | or fs => evalAny env fs

def evalAll (env : String → Bool) : List Formula → Bool
  | [] => true
  | f :: fs => f.eval env && evalAll env fs

def evalAny (env : String → Bool) : List Formula → Bool
  | [] => false
  | f :: fs => f.eval env || evalAny env fs
end

mutual
/-- The features that occur, one entry for every occurrence. -/
def occurrences : Formula → List String
  | tt | ff => []
  | var x => [x]
  | not f => f.occurrences
  | and fs | or fs => occurrencesAll fs

def occurrencesAll : List Formula → List String
  | [] => []
  | f :: fs => f.occurrences ++ occurrencesAll fs
end

/-- Puts a name into an ascending list that lacks it. -/
def insertName (x : String) : List String → List String
  | [] => [x]
  | y :: ys =>
    if x < y then x :: y :: ys else if x = y then y :: ys else y :: insertName x ys

mutual
def size : Formula → Nat
  | tt | ff | var _ => 1
  | not f => f.size + 1
  | and fs | or fs => sizeAll fs + 1

def sizeAll : List Formula → Nat
  | [] => 0
  | f :: fs => f.size + sizeAll fs
end

theorem sizeAll_append (fs gs : List Formula) :
    sizeAll (fs ++ gs) = sizeAll fs + sizeAll gs := by
  induction fs with
  | nil => simp [sizeAll]
  | cons f fs ih => simp [sizeAll, ih, Nat.add_assoc]

theorem sizeAll_reverse (fs : List Formula) : sizeAll fs.reverse = sizeAll fs := by
  induction fs with
  | nil => rfl
  | cons f fs ih => simp [sizeAll, sizeAll_append, ih, Nat.add_comm]

/-- Adds the features of a stack of formulas to those already found. The operands of a formula are
pushed in their order, so the last one is on top. -/
def collect (found : List String) : (stack : List Formula) → List String
  | [] => found
  | tt :: stack | ff :: stack => collect found stack
  | var x :: stack => collect (insertName x found) stack
  | not f :: stack => collect found (f :: stack)
  | and fs :: stack | or fs :: stack => collect found (fs.reverse ++ stack)
termination_by stack => sizeAll stack
decreasing_by all_goals simp [sizeAll, size, sizeAll_append, sizeAll_reverse]

/-- The features that occur, in ascending order and each once. -/
def features (f : Formula) : List String :=
  collect [] [f]

/-- The features of several formulas together. -/
def featuresOf (fs : List Formula) : List String :=
  (fs.flatMap features).foldr insertName []

theorem evalAll_eq_all (env : String → Bool) (fs : List Formula) :
    evalAll env fs = fs.all (eval env) := by
  induction fs with
  | nil => simp [evalAll]
  | cons f fs ih => simp [evalAll, ih]

theorem evalAny_eq_any (env : String → Bool) (fs : List Formula) :
    evalAny env fs = fs.any (eval env) := by
  induction fs with
  | nil => simp [evalAny]
  | cons f fs ih => simp [evalAny, ih]

theorem mem_insertName {x y : String} {ys : List String} :
    y ∈ insertName x ys ↔ y = x ∨ y ∈ ys := by
  induction ys with
  | nil => simp [insertName]
  | cons z zs ih =>
      simp only [insertName]
      split
      · simp
      · split
        · next h => subst h; simp
        · simp [ih, or_left_comm]

theorem mem_occurrencesAll_append {fs gs : List Formula} {x : String} :
    x ∈ occurrencesAll (fs ++ gs) ↔ x ∈ occurrencesAll fs ∨ x ∈ occurrencesAll gs := by
  induction fs with
  | nil => simp [occurrencesAll]
  | cons f fs ih => simp [occurrencesAll, ih, or_assoc]

theorem mem_occurrencesAll_reverse {fs : List Formula} {x : String} :
    x ∈ occurrencesAll fs.reverse ↔ x ∈ occurrencesAll fs := by
  induction fs with
  | nil => simp
  | cons f fs ih =>
      rw [List.reverse_cons, mem_occurrencesAll_append, ih]
      simp [occurrencesAll, or_comm]

theorem mem_collect {found : List String} {stack : List Formula} {x : String} :
    x ∈ collect found stack ↔ x ∈ found ∨ x ∈ occurrencesAll stack := by
  fun_induction collect found stack with
  | case1 => simp [occurrencesAll]
  | case2 found stack ih | case3 found stack ih => simpa [occurrencesAll, occurrences] using ih
  | case4 found y stack ih =>
      rw [ih, mem_insertName]
      simp [occurrencesAll, occurrences, or_assoc, or_left_comm]
  | case5 found f stack ih => simpa [occurrencesAll, occurrences] using ih
  | case6 found fs stack ih | case7 found fs stack ih =>
      simp only [List.unattach_reverse, List.unattach_attach] at ih
      rw [ih, mem_occurrencesAll_append, mem_occurrencesAll_reverse]
      simp [occurrencesAll, occurrences]

theorem mem_features {f : Formula} {x : String} : x ∈ f.features ↔ x ∈ f.occurrences := by
  rw [features, mem_collect]
  simp [occurrencesAll]

end Formula

end Variability
