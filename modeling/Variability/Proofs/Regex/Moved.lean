import Mathlib.Data.Option.Basic
import Variability.Regex.Usable

/-!
Expressions that stand further on in a text. What an expression is read from tells where a problem
is, and nothing else: moved as a whole, an expression has the same meaning and the same depth.
-/

namespace Variability.Regex

def Span.moved (k : Nat) (s : Span) : Span :=
  ⟨s.start + k, s.stop + k⟩

def Literal.moved (k : Nat) (l : Literal) : Literal :=
  { l with span := l.span.moved k }

mutual
/-- A class that is read `k` characters further on. -/
def CharClass.moved (k : Nat) : CharClass → CharClass
  | .empty span => .empty (span.moved k)
  | .literal l => .literal (l.moved k)
  | .range span low high => .range (span.moved k) (low.moved k) (high.moved k)
  | .named span negated name => .named (span.moved k) negated name
  | .property span negated query => .property (span.moved k) negated query
  | .shorthand span negated kind => .shorthand (span.moved k) negated kind
  | .bracketed span negated body => .bracketed (span.moved k) negated (body.moved k)
  | .union span members => .union (span.moved k) (CharClass.allMoved k members)
  | .operation span o left right => .operation (span.moved k) o (left.moved k) (right.moved k)

def CharClass.allMoved (k : Nat) : List CharClass → List CharClass
  | [] => []
  | c :: cs => c.moved k :: CharClass.allMoved k cs
end

mutual
/-- An expression that is read `k` characters further on. -/
def Expression.moved (k : Nat) : Expression → Expression
  | .empty span => .empty (span.moved k)
  | .flags span changes => .flags (span.moved k) changes
  | .literal l => .literal (l.moved k)
  | .dot span => .dot (span.moved k)
  | .assertion span a => .assertion (span.moved k) a
  | .charClass c => .charClass (c.moved k)
  | .repetition span body least most => .repetition (span.moved k) (body.moved k) least most
  | .group span kind body => .group (span.moved k) kind (body.moved k)
  | .alternation span branches => .alternation (span.moved k) (Expression.allMoved k branches)
  | .sequence span parts => .sequence (span.moved k) (Expression.allMoved k parts)

def Expression.allMoved (k : Nat) : List Expression → List Expression
  | [] => []
  | e :: es => e.moved k :: Expression.allMoved k es
end

theorem CharClass.allMoved_eq_map (k : Nat) (cs : List CharClass) :
    CharClass.allMoved k cs = cs.map (·.moved k) := by
  induction cs with
  | nil => rfl
  | cons c cs ih => rw [CharClass.allMoved, ih, List.map_cons]

theorem Expression.allMoved_eq_map (k : Nat) (es : List Expression) :
    Expression.allMoved k es = es.map (·.moved k) := by
  induction es with
  | nil => rfl
  | cons e es ih => rw [Expression.allMoved, ih, List.map_cons]

@[simp] theorem CharClass.span_moved (k : Nat) (c : CharClass) :
    (c.moved k).span = c.span.moved k := by
  cases c <;> rfl

@[simp] theorem Expression.span_moved (k : Nat) (e : Expression) :
    (e.moved k).span = e.span.moved k := by
  cases e with
  | charClass c => exact c.span_moved k
  | _ => rfl

/-! The meaning. -/

theorem toOption_bind {ε α β : Type} (x : Except ε α) (f : α → Except ε β) :
    (x >>= f).toOption = x.toOption.bind fun a => (f a).toOption := by
  cases x <;> rfl

variable (k : Nat) (f : Flags)

theorem toOption_negatedIf (span other : Span) (negated : Bool) (s : Text.CharSet) :
    (negatedIf f span negated s).toOption = (negatedIf f other negated s).toOption := by
  unfold negatedIf
  split
  · rfl
  · split
    · rfl
    · rfl

theorem toOption_check_moved (l : Literal) :
    ((l.moved k).check f).toOption = (l.check f).toOption := by
  change (if !f.unicode && l.isByte && 0x7F < l.char.toNat then
    failure .utf8Broken (l.span.moved k) else .ok l.char : Except Problem Char).toOption = _
  unfold Literal.check
  split
  · rfl
  · rfl

theorem toOption_member_moved (l : Literal) :
    ((l.moved k).member f).toOption = (l.member f).toOption := by
  simp only [Literal.member, toOption_bind, toOption_check_moved]
  congr 1
  funext c
  split
  · rfl
  · rfl

theorem toOption_set_query (span other : Span) (query : PropertyQuery) :
    (query.set span).toOption = (query.set other).toOption := by
  unfold PropertyQuery.set
  simp only
  split
  · rfl
  · rfl
  · rfl

mutual
theorem CharClass.toOption_set_moved :
    (c : CharClass) → ((c.moved k).set f).toOption = (c.set f).toOption
  | .empty _ => rfl
  | .literal l => by
    simp only [CharClass.moved, CharClass.set, toOption_bind, toOption_member_moved]
  | .range _ low high => by
    simp only [CharClass.moved, CharClass.set, toOption_bind, toOption_member_moved]
  | .named span negated n => toOption_negatedIf f _ _ _ _
  | .property span negated q => by
    simp only [CharClass.moved, CharClass.set]
    split
    · rfl
    · simp only [toOption_bind, toOption_set_query (span.moved k) span,
        toOption_negatedIf f (span.moved k) span]
  | .shorthand span negated kind => toOption_negatedIf f _ _ _ _
  | .bracketed span negated body => by
    simp only [CharClass.moved, CharClass.set, toOption_bind, body.toOption_set_moved,
      toOption_negatedIf f (span.moved k) span]
  | .union _ members => by
    simp only [CharClass.moved, CharClass.set]
    exact CharClass.toOption_setOfAll_moved members
  | .operation _ o left right => by
    simp only [CharClass.moved, CharClass.set, toOption_bind, left.toOption_set_moved,
      right.toOption_set_moved]

theorem CharClass.toOption_setOfAll_moved :
    (cs : List CharClass) → (CharClass.setOfAll f (CharClass.allMoved k cs)).toOption =
      (CharClass.setOfAll f cs).toOption
  | [] => rfl
  | c :: cs => by
    simp only [CharClass.allMoved, CharClass.setOfAll, toOption_bind, c.toOption_set_moved,
      CharClass.toOption_setOfAll_moved cs]
end

mutual
/-- Where an expression stands has no bearing on what it means. -/
theorem Expression.toOption_meaning_moved (f : Flags) :
    (e : Expression) → ((e.moved k).meaning f).toOption = (e.meaning f).toOption
  | .empty _ => rfl
  | .flags _ _ => rfl
  | .literal l => by
    simp only [Expression.moved, Expression.meaning, toOption_bind, toOption_check_moved]
  | .dot span => by
    simp only [Expression.moved, Expression.meaning]
    split
    · rfl
    · rfl
  | .assertion _ _ => rfl
  | .charClass c => by
    simp only [Expression.moved, Expression.meaning, toOption_bind, c.toOption_set_moved]
  | .repetition _ body _ _ => by
    simp only [Expression.moved, Expression.meaning, toOption_bind, body.toOption_meaning_moved]
  | .group _ .capture body => by
    simp only [Expression.moved, Expression.meaning, toOption_bind, body.toOption_meaning_moved]
  | .group _ (.flags changes) body => by
    simp only [Expression.moved, Expression.meaning, toOption_bind, body.toOption_meaning_moved]
  | .alternation _ branches => by
    simp only [Expression.moved, Expression.meaning]
    exact Expression.toOption_meaningOfAny_moved f branches
  | .sequence _ parts => by
    simp only [Expression.moved, Expression.meaning]
    exact Expression.toOption_meaningOfAll_moved f parts

theorem Expression.toOption_meaningOfAny_moved (f : Flags) :
    (es : List Expression) →
      (Expression.meaningOfAny f (Expression.allMoved k es)).toOption =
        (Expression.meaningOfAny f es).toOption
  | [] => rfl
  | [e] => e.toOption_meaning_moved f
  | e :: e' :: es => by
    have below (f : Flags) := Expression.toOption_meaningOfAny_moved f (e' :: es)
    simp only [Expression.allMoved] at below
    simp only [Expression.allMoved, Expression.meaningOfAny, toOption_bind,
      e.toOption_meaning_moved, below]

theorem Expression.toOption_meaningOfAll_moved (f : Flags) :
    (es : List Expression) →
      (Expression.meaningOfAll f (Expression.allMoved k es)).toOption =
        (Expression.meaningOfAll f es).toOption
  | [] => rfl
  | [e] => e.toOption_meaning_moved f
  | e :: e' :: es => by
    have below (f : Flags) := Expression.toOption_meaningOfAll_moved f (e' :: es)
    simp only [Expression.allMoved] at below
    simp only [Expression.allMoved, Expression.meaningOfAll, toOption_bind,
      e.toOption_meaning_moved, below]
end

/-! The depth. -/

mutual
theorem CharClass.tooDeep?_moved (depth : Nat) :
    (c : CharClass) → (c.moved k).tooDeep? depth = (c.tooDeep? depth).map (·.moved k)
  | .empty _ | .literal _ | .range .. | .named .. | .property .. | .shorthand .. => rfl
  | .bracketed span _ body => by
    simp only [CharClass.moved, CharClass.tooDeep?, body.tooDeep?_moved]
    split
    · rfl
    · rfl
  | .union span members => by
    simp only [CharClass.moved, CharClass.tooDeep?, CharClass.anyTooDeep?_moved]
    split
    · rfl
    · rfl
  | .operation span _ left right => by
    simp only [CharClass.moved, CharClass.tooDeep?, left.tooDeep?_moved, right.tooDeep?_moved]
    split
    · rfl
    · cases left.tooDeep? (depth - 1) <;> rfl

theorem CharClass.anyTooDeep?_moved (depth : Nat) :
    (cs : List CharClass) → CharClass.anyTooDeep? depth (CharClass.allMoved k cs) =
      (CharClass.anyTooDeep? depth cs).map (·.moved k)
  | [] => rfl
  | c :: cs => by
    simp only [CharClass.allMoved, CharClass.anyTooDeep?, c.tooDeep?_moved,
      CharClass.anyTooDeep?_moved depth cs]
    cases c.tooDeep? depth <;> rfl
end

mutual
theorem Expression.tooDeep?_moved (depth : Nat) :
    (e : Expression) → (e.moved k).tooDeep? depth = (e.tooDeep? depth).map (·.moved k)
  | .empty _ | .flags .. | .literal _ | .dot _ | .assertion .. => rfl
  | .charClass c => c.tooDeep?_moved k depth
  | .repetition span body .. | .group span _ body => by
    simp only [Expression.moved, Expression.tooDeep?, body.tooDeep?_moved]
    split
    · rfl
    · rfl
  | .alternation span parts | .sequence span parts => by
    simp only [Expression.moved, Expression.tooDeep?, Expression.anyTooDeep?_moved]
    split
    · rfl
    · rfl

theorem Expression.anyTooDeep?_moved (depth : Nat) :
    (es : List Expression) → Expression.anyTooDeep? depth (Expression.allMoved k es) =
      (Expression.anyTooDeep? depth es).map (·.moved k)
  | [] => rfl
  | e :: es => by
    simp only [Expression.allMoved, Expression.anyTooDeep?, e.tooDeep?_moved,
      Expression.anyTooDeep?_moved depth es]
    cases e.tooDeep? depth <;> rfl
end

mutual
theorem CharClass.not_tooDeep_succ {depth : Nat} :
    (c : CharClass) → c.tooDeep? depth = none → c.tooDeep? (depth + 1) = none
  | .empty _, _ | .literal _, _ | .range .., _ | .named .., _ | .property .., _
  | .shorthand .., _ => rfl
  | .bracketed _ _ body, shallow => by
    cases depth with
    | zero => cases shallow
    | succ depth => exact body.not_tooDeep_succ shallow
  | .union _ members, shallow => by
    cases depth with
    | zero => cases shallow
    | succ depth => exact CharClass.not_anyTooDeep_succ members shallow
  | .operation _ _ left right, shallow => by
    cases depth with
    | zero => cases shallow
    | succ depth =>
        obtain ⟨first, second⟩ := (Option.orElse_eq_none _ _).mp shallow
        exact (Option.orElse_eq_none _ _).mpr
          ⟨left.not_tooDeep_succ first, right.not_tooDeep_succ second⟩

theorem CharClass.not_anyTooDeep_succ {depth : Nat} :
    (cs : List CharClass) → CharClass.anyTooDeep? depth cs = none →
      CharClass.anyTooDeep? (depth + 1) cs = none
  | [], _ => rfl
  | c :: cs, shallow => by
    obtain ⟨first, rest⟩ := (Option.orElse_eq_none _ _).mp shallow
    exact (Option.orElse_eq_none _ _).mpr
      ⟨c.not_tooDeep_succ first, CharClass.not_anyTooDeep_succ cs rest⟩
end

mutual
theorem Expression.not_tooDeep_succ {depth : Nat} :
    (e : Expression) → e.tooDeep? depth = none → e.tooDeep? (depth + 1) = none
  | .empty _, _ | .flags .., _ | .literal _, _ | .dot _, _ | .assertion .., _ => rfl
  | .charClass c, shallow => c.not_tooDeep_succ shallow
  | .repetition _ body .., shallow | .group _ _ body, shallow => by
    cases depth with
    | zero => cases shallow
    | succ depth => exact body.not_tooDeep_succ shallow
  | .alternation _ parts, shallow | .sequence _ parts, shallow => by
    cases depth with
    | zero => cases shallow
    | succ depth => exact Expression.not_anyTooDeep_succ parts shallow

theorem Expression.not_anyTooDeep_succ {depth : Nat} :
    (es : List Expression) → Expression.anyTooDeep? depth es = none →
      Expression.anyTooDeep? (depth + 1) es = none
  | [], _ => rfl
  | e :: es, shallow => by
    obtain ⟨first, rest⟩ := (Option.orElse_eq_none _ _).mp shallow
    exact (Option.orElse_eq_none _ _).mpr
      ⟨e.not_tooDeep_succ first, Expression.not_anyTooDeep_succ es rest⟩
end

end Variability.Regex
