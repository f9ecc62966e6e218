import Mathlib.Data.List.Basic
import Variability.Guard

/-!
The grammar of guards. A guard is a disjunction of conjunctions of negated or plain operands; an
operand is a group, a name, a question for a name or an integer, and whatever goes on with an
operator, calls a macro or is no integer is one atom up to the next `&&`, `||` or `)` of its own
depth.
-/

namespace Variability.Guard

open Token

/-- The number of parentheses that are open behind tokens, when `depth` of them are open before;
there is none when a parenthesis closes that never opened. -/
def depth? : (depth : Nat) → List Token → Option Nat
  | depth, [] => some depth
  | depth, .leftParen :: ts => depth? (depth + 1) ts
  | depth, .rightParen :: ts =>
    match depth with
    | 0 => none
    | depth + 1 => depth? depth ts
  | depth, _ :: ts => depth? depth ts

theorem depth?_append (depth : Nat) (ts us : List Token) :
    depth? depth (ts ++ us) = (depth? depth ts).bind (depth? · us) := by
  fun_induction depth? depth ts <;> simp_all [depth?]

/-- Parentheses that are open all along make no difference to those inside. -/
theorem depth?_add {depth inner : Nat} {ts : List Token} (reached : depth? depth ts = some inner)
    (outer : Nat) : depth? (depth + outer) ts = some (inner + outer) := by
  fun_induction depth? depth ts generalizing inner with
  | case1 depth =>
      cases reached
      rfl
  | case2 depth ts ih =>
      rw [← ih reached, depth?, Nat.add_right_comm]
  | case3 => cases reached
  | case4 ts depth ih =>
      rw [← ih reached, Nat.succ_add, depth?]
  | case5 depth t ts left right ih =>
      rw [← ih reached, depth?]
      · exact left
      · exact right

/-- Inside parentheses only parentheses matter to where an operand ends. -/
theorem splitOperand?_of_depth? {depth inner : Nat} {ts : List Token}
    (reached : depth? depth ts = some inner) (rest : List Token) :
    splitOperand? (depth + 1) (ts ++ rest) =
      (splitOperand? (inner + 1) rest).map fun split => (ts ++ split.1, split.2) := by
  fun_induction depth? depth ts generalizing inner with
  | case1 depth =>
      cases reached
      simp
  | case2 depth ts ih => simp [splitOperand?, ih reached, Function.comp_def]
  | case3 => cases reached
  | case4 ts depth ih => simp [splitOperand?, ih reached, Function.comp_def]
  | case5 depth t ts left right ih =>
      have inside := ih reached
      cases t <;> simp_all [splitOperand?, Function.comp_def]

/-- An operand that is all there is ends where it ends, whatever follows. -/
theorem splitOperand?_append {depth : Nat} {ts : List Token}
    (whole : splitOperand? depth ts = some (ts, [])) (rest : List Token) :
    splitOperand? depth (ts ++ rest) =
      (splitOperand? 0 rest).map fun split => (ts ++ split.1, split.2) := by
  fun_induction splitOperand? depth ts <;> simp_all [splitOperand?, Function.comp_def]

/-- Where an operand without boolean meaning is cut off. -/
theorem splitOperand?_ok {depth : Nat} {ts operand rest : List Token}
    (split : splitOperand? depth ts = some (operand, rest)) :
    ts = operand ++ rest ∧ splitOperand? depth operand = some (operand, []) := by
  fun_induction splitOperand? depth ts generalizing operand rest with
  | case1 =>
      cases split
      exact ⟨rfl, rfl⟩
  | case2 => cases split
  | case4 | case6 | case7 =>
      cases split
      exact ⟨rfl, rfl⟩
  | case3 | case5 =>
      rename_i ih
      obtain ⟨⟨inside, behind⟩, cut, same⟩ := Option.map_eq_some_iff.mp split
      cases same
      obtain ⟨rfl, whole⟩ := ih cut
      exact ⟨rfl, by simp [splitOperand?, whole]⟩
  | case8 depth t ts _ _ _ _ _ ih =>
      obtain ⟨⟨inside, behind⟩, cut, same⟩ := Option.map_eq_some_iff.mp split
      cases same
      obtain ⟨rfl, whole⟩ := ih cut
      refine ⟨rfl, ?_⟩
      rw [splitOperand?.eq_def]
      simp_all

theorem splitOperand?_other (depth : Nat) (text : List Char) (ts : List Token) :
    splitOperand? depth (.other text :: ts) =
      (splitOperand? depth ts).map fun split => (.other text :: split.1, split.2) := by
  simp [splitOperand?]

theorem depth?_of_splitOperand? {depth : Nat} {ts : List Token}
    (whole : splitOperand? depth ts = some (ts, [])) : depth? depth ts = some 0 := by
  fun_induction splitOperand? depth ts with
  | case8 depth t ts =>
      cases t <;> cases depth <;> simp_all [depth?]
  | _ => simp_all [depth?]

/-- What a run of tokens is read as. -/
inductive Role where
  | disjuncts
  | conjuncts
  | unary
  | primary

def Role.Result : Role → Type
  | .disjuncts | .conjuncts => List Formula
  | .unary | .primary => Formula

/-- Tokens that start an operand without boolean meaning. -/
def opensAtom : List Token → Bool
  | .other _ :: _ => true
  | .number literal :: _ => (integerValue? literal).isNone
  | .identifier name :: .leftParen :: _ => name ≠ "defined".toList
  | _ => false

/-- The feature that an operand without boolean meaning stands for. -/
def atom (ts : List Token) : Formula :=
  .var (String.ofList (render ts))

/-- The derivations of guards, each with the formulas that it is read as. -/
inductive Reads : (role : Role) → List Token → role.Result → Prop where
  | lastDisjunct {ts : List Token} {fs : List Formula} (conjuncts : Reads .conjuncts ts fs) :
      Reads .disjuncts ts [.conj fs]
  | disjunct {ts us : List Token} {fs gs : List Formula} (conjuncts : Reads .conjuncts ts fs)
      (further : Reads .disjuncts us gs) :
      Reads .disjuncts (ts ++ .disjunction :: us) (.conj fs :: gs)
  | lastConjunct {ts : List Token} {f : Formula} (unary : Reads .unary ts f) :
      Reads .conjuncts ts [f]
  | conjunct {ts us : List Token} {f : Formula} {fs : List Formula} (unary : Reads .unary ts f)
      (further : Reads .conjuncts us fs) : Reads .conjuncts (ts ++ .conjunction :: us) (f :: fs)
  | negation {ts : List Token} {f : Formula} (unary : Reads .unary ts f) :
      Reads .unary (.negation :: ts) f.neg
  | primary {ts : List Token} {f : Formula} (operand : Reads .primary ts f) : Reads .unary ts f
  | group {ts : List Token} {fs : List Formula} (inside : Reads .disjuncts ts fs) :
      Reads .primary (.leftParen :: (ts ++ [.rightParen])) (.disj fs)
  | defined (name : List Char) :
      Reads .primary [.identifier "defined".toList, .identifier name] (.var (String.ofList name))
  | definedGroup (name : List Char) :
      Reads .primary
        [.identifier "defined".toList, .leftParen, .identifier name, .rightParen]
        (.var (String.ofList name))
  | name {name : List Char} (plain : name ≠ "defined".toList) :
      Reads .primary [.identifier name] (.var (String.ofList name))
  | number {literal : List Char} {value : Nat} (known : integerValue? literal = some value) :
      Reads .primary [.number literal] (if value = 0 then .ff else .tt)
  | atom {ts : List Token} (opens : opensAtom ts) (whole : splitOperand? 0 ts = some (ts, [])) :
      Reads .primary ts (atom ts)
  | operation {ts us : List Token} {f : Formula} {text : List Char} (operand : Reads .primary ts f)
      (whole : splitOperand? 0 (ts ++ .other text :: us) = some (ts ++ .other text :: us, [])) :
      Reads .primary (ts ++ .other text :: us) (atom (ts ++ .other text :: us))

namespace Reads

variable {role : Role} {ts : List Token} {result : role.Result}

theorem ne_nil (reads : Reads role ts result) : ts ≠ [] := by
  induction reads with
  | lastDisjunct _ ih | lastConjunct _ ih | primary _ ih => exact ih
  | disjunct | conjunct | negation | group | defined | definedGroup | name | number | operation =>
      simp
  | atom opens =>
      rintro rfl
      cases opens

/-- Parentheses are balanced in what is read. -/
theorem depth? (reads : Reads role ts result) : depth? 0 ts = some 0 := by
  induction reads with
  | lastDisjunct _ ih | lastConjunct _ ih | primary _ ih | negation _ ih => exact ih
  | disjunct _ _ first further | conjunct _ _ first further =>
      rw [depth?_append, first]
      exact further
  | group _ ih =>
      rw [Guard.depth?, depth?_append, depth?_add ih]
      rfl
  | defined | definedGroup | name | number => rfl
  | atom _ whole | operation _ whole => exact depth?_of_splitOperand? whole

/-- An operand does not end inside what is read as one. -/
theorem splitOperand? {f : Formula} (reads : Reads .primary ts f) (rest : List Token) :
    splitOperand? 0 (ts ++ rest) =
      (splitOperand? 0 rest).map fun split => (ts ++ split.1, split.2) := by
  cases reads with
  | group inside =>
      simp [Guard.splitOperand?, splitOperand?_of_depth? inside.depth?, Function.comp_def]
  | defined | definedGroup | name | number =>
      simp [Guard.splitOperand?, Function.comp_def]
  | atom _ whole | operation _ whole => exact splitOperand?_append whole rest

end Reads

end Variability.Guard
