import Mathlib.Data.List.TakeWhile
import Mathlib.Data.Nat.Digits.Defs
import Mathlib.Tactic.Ring
import Variability.Guard

/-!
Integer literals of C: hexadecimal behind `0x`, octal behind `0`, decimal otherwise, and with a
suffix when they are unsigned or long. A literal below 2 ^ 64 is read as its value.
-/

namespace Variability.Guard

/-- A digit of some base; letters count on from ten and may be capital. -/
structure Digit where
  value : Fin 16
  capital : Bool
  deriving DecidableEq

def Digit.char (d : Digit) : Char :=
  if d.capital then (Nat.digitChar d.value).toUpper else Nat.digitChar d.value

/-- Letters for unsigned and long literals. -/
def suffixLetters : List Char := ['u', 'U', 'l', 'L']

inductive Base where
  | octal
  | decimal
  | hexadecimal (capital : Bool)
  deriving DecidableEq

namespace Base

def radix : Base → Nat
  | octal => 8
  | decimal => 10
  | hexadecimal _ => 16

/-- What a literal of this base begins with. -/
def mark : Base → List Char
  | octal => ['0']
  | decimal => []
  | hexadecimal false => ['0', 'x']
  | hexadecimal true => ['0', 'X']

theorem not_mem_suffixLetters_of_mem_mark {base : Base} {c : Char} (member : c ∈ base.mark) :
    c ∉ suffixLetters := by
  have apart : base.mark.all (· ∉ suffixLetters) := by
    rcases base with _ | _ | _ | _ <;> decide
  exact of_decide_eq_true (List.all_eq_true.mp apart c member)

end Base

/-- The number that digits stand for, the most significant one first. -/
def positional (radix : Nat) (digits : List Digit) : Nat :=
  Nat.ofDigits radix (digits.reverse.map fun d => d.value.val)

/-- An integer literal below 2 ^ 64. Zero is an octal literal without further digits. -/
structure Literal where
  base : Base
  digits : List Digit
  suffix : List Char
  below : ∀ d ∈ digits, d.value.val < base.radix
  written : base ≠ .octal → digits ≠ []
  leading : base = .decimal → ∀ d ∈ digits.head?, d.value ≠ 0
  ending : ∀ c ∈ suffix, c ∈ suffixLetters
  fits : positional base.radix digits < 2 ^ 64

namespace Literal

def text (l : Literal) : List Char :=
  l.base.mark ++ l.digits.map Digit.char ++ l.suffix

def value (l : Literal) : Nat :=
  positional l.base.radix l.digits

end Literal

namespace Digit

theorem isNameChar_char (d : Digit) : isNameChar d.char := by
  obtain ⟨value, capital⟩ := d
  revert value capital
  decide

theorem isDigit_char (d : Digit) (below : d.value.val < 10) : d.char.isDigit := by
  obtain ⟨value, capital⟩ := d
  revert value capital
  decide

/-- No digit is taken for the letter of a base or a suffix, nor for a sign. -/
theorem char_not_mem (d : Digit) : d.char ∉ 'x' :: 'X' :: '+' :: suffixLetters := by
  obtain ⟨value, capital⟩ := d
  revert value capital
  decide

theorem char_eq_zero {d : Digit} (zero : d.char = '0') : d.value = 0 := by
  obtain ⟨value, capital⟩ := d
  revert value capital
  decide

theorem digitValue?_char {base : Nat} (d : Digit) (below : d.value.val < base) :
    Text.digitValue? base d.char = some d.value.val := by
  have all : ∀ (value : Fin 16) (capital : Bool),
      Text.digitValue? 16 (char ⟨value, capital⟩) = some value.val := by decide
  have known := all d.value d.capital
  unfold Text.digitValue? at known ⊢
  rw [Option.filter_eq_some_iff] at known ⊢
  exact ⟨known.1, decide_eq_true below⟩

end Digit

section Digits

variable {base : Nat} {digits : List Digit} (below : ∀ d ∈ digits, d.value.val < base)
include below

theorem readDigits?_map_char (before : Nat) :
    Text.readDigits? base before (digits.map Digit.char) =
      some (before * base ^ digits.length + positional base digits) := by
  induction digits generalizing before with
  | nil => simp [Text.readDigits?, positional]
  | cons d ds ih =>
      rw [List.map_cons, Text.readDigits?, d.digitValue?_char (below d (by simp))]
      simp only
      rw [ih fun e later => below e (by simp [later])]
      simp only [positional, List.reverse_cons, List.map_append, List.map_cons, List.map_nil,
        Nat.ofDigits_append, Nat.ofDigits_singleton, List.length_map, List.length_reverse,
        List.length_cons]
      congr 1
      ring

theorem readWord?_map_char (written : digits ≠ []) (fits : positional base digits < 2 ^ 64) :
    Text.readWord? base (digits.map Digit.char) = some (positional base digits) := by
  have small : positional base digits < Text.wordLimit := fits
  have read := readDigits?_map_char below 0
  rw [Nat.zero_mul, Nat.zero_add] at read
  cases digits with
  | nil => exact absurd rfl written
  | cons d ds =>
      have noSign : d.char ≠ '+' := fun sign => d.char_not_mem (by simp [sign])
      rw [List.map_cons] at read ⊢
      unfold Text.readWord?
      split
      next rest same => exact absurd (List.cons.inj same).1 noSign
      simp [read, small]

end Digits

namespace Literal

theorem text_stripped (l : Literal) :
    (l.text.reverse.dropWhile ['u', 'U', 'l', 'L'].contains).reverse =
      l.base.mark ++ l.digits.map Digit.char := by
  have all : ∀ c ∈ l.suffix.reverse, ['u', 'U', 'l', 'L'].contains c := by
    intro c member
    simpa [suffixLetters] using l.ending c (List.mem_reverse.mp member)
  have none : ∀ c ∈ l.base.mark ++ l.digits.map Digit.char, c ∉ suffixLetters := by
    intro c member
    rcases List.mem_append.mp member with marked | digit
    · exact Base.not_mem_suffixLetters_of_mem_mark marked
    · obtain ⟨d, -, rfl⟩ := List.mem_map.mp digit
      exact fun member => d.char_not_mem (by simp [member])
  rw [text, List.reverse_append, List.dropWhile_append_of_pos all]
  rw [List.dropWhile_eq_self_iff.mpr, List.reverse_reverse]
  intro filled
  have last := List.getElem_mem filled
  rw [List.mem_reverse] at last
  simpa [suffixLetters] using none _ last

theorem integerValue?_text (l : Literal) : integerValue? l.text = some l.value := by
  have stripped := l.text_stripped
  obtain ⟨base, digits, suffix, below, written, leading, ending, fits⟩ := l
  simp only [integerValue?, stripped, value]
  cases base with
  | hexadecimal capital =>
      cases capital <;> exact readWord?_map_char below (written (by simp)) fits
  | decimal =>
      cases digits with
      | nil => exact absurd rfl (written (by simp))
      | cons d ds =>
          have noZero : d.char ≠ '0' := fun zero =>
            leading rfl d rfl (Digit.char_eq_zero zero)
          simp only [Base.mark, List.nil_append, List.map_cons]
          split
          · next same => exact absurd (List.cons.inj same).1 noZero
          · next same => exact absurd (List.cons.inj same).1 noZero
          · next same => exact absurd (List.cons.inj same).1 noZero
          · exact readWord?_map_char below (by simp) fits
  | octal =>
      cases digits with
      | nil => rfl
      | cons d ds =>
          have noLetter : d.char ≠ 'x' ∧ d.char ≠ 'X' :=
            ⟨fun same => d.char_not_mem (by simp [same]),
              fun same => d.char_not_mem (by simp [same])⟩
          simp only [Base.mark, List.singleton_append, List.map_cons]
          split
          · next same =>
            exact absurd (List.cons.inj (List.cons.inj same).2).1 noLetter.1
          · next same =>
            exact absurd (List.cons.inj (List.cons.inj same).2).1 noLetter.2
          · next same =>
            obtain ⟨-, same⟩ := List.cons.inj same
            rw [← same]
            exact readWord?_map_char below (by simp) fits
          · next other =>
            exact absurd rfl (other d.char (ds.map Digit.char))

/-- A literal is a digit with letters and further digits behind it. -/
theorem text_shape (l : Literal) :
    ∃ c cs, l.text = c :: cs ∧ c.isDigit ∧ ∀ d ∈ cs, isNameChar d := by
  have letters : ∀ c ∈ suffixLetters, isNameChar c := List.all_eq_true.mp (by decide)
  obtain ⟨base, digits, suffix, below, written, leading, ending, -⟩ := l
  have behind : ∀ c ∈ digits.map Digit.char ++ suffix, isNameChar c := by
    intro c member
    rcases List.mem_append.mp member with digit | letter
    · obtain ⟨d, -, rfl⟩ := List.mem_map.mp digit
      exact d.isNameChar_char
    · exact letters c (ending c letter)
  cases base with
  | octal => exact ⟨'0', _, rfl, rfl, behind⟩
  | hexadecimal capital =>
      cases capital with
      | false => exact ⟨'0', _, rfl, rfl, List.forall_mem_cons.mpr ⟨by decide, behind⟩⟩
      | true => exact ⟨'0', _, rfl, rfl, List.forall_mem_cons.mpr ⟨by decide, behind⟩⟩
  | decimal =>
      cases digits with
      | nil => exact absurd rfl (written (by simp))
      | cons d ds =>
          exact ⟨d.char, _, rfl, d.isDigit_char (below d (by simp)), fun c member =>
            behind c (List.mem_cons_of_mem _ member)⟩

end Literal

end Variability.Guard
