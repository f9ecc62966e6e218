import Variability.Patch.Entry

/-!
The lines that a reader makes of a patch. Its entries are code and directives, never a root, and an
entry carries a guard exactly when its kind asks for one.
-/

namespace Variability

namespace Directive

theorem Keyword.read_ok {word rest : List Char} {keyword : Keyword} {directive : Directive}
    (known : ofWord? word = some keyword) (read : keyword.read rest = .ok directive) :
    directive.kind.isDirective ∧ directive.guard.isSome = directive.kind.hasGuard := by
  obtain ⟨⟨name, found⟩, lookup, rfl⟩ := Option.map_eq_some_iff.mp known
  have listed := List.mem_of_find?_eq_some lookup
  simp only [keywords, List.mem_cons, Prod.mk.injEq, List.not_mem_nil, or_false] at listed
  have guarded {α : Type} {parsed : Except GuardError α} {make : α → Directive}
      (kinds : ∀ a, (make a).kind.isDirective ∧ (make a).guard.isSome = (make a).kind.hasGuard)
      (made : parsed.map make = .ok directive) :
      directive.kind.isDirective ∧ directive.guard.isSome = directive.kind.hasGuard := by
    cases parsed with
    | error e => simp [Except.map] at made
    | ok a =>
        obtain rfl : make a = directive := by simpa [Except.map] using made
        exact kinds a
  rcases listed with ⟨-, rfl⟩ | ⟨-, rfl⟩ | ⟨-, rfl⟩ | ⟨-, rfl⟩ | ⟨-, rfl⟩ | ⟨-, rfl⟩ | ⟨-, rfl⟩ |
    ⟨-, rfl⟩ <;> simp only [Keyword.read] at read
  all_goals
    first
    | exact guarded (fun _ => ⟨rfl, rfl⟩) read
    | cases read; exact ⟨rfl, rfl⟩

theorem ofLine_ok {line : List Char} {directive : Directive}
    (read : ofLine line = .ok (some directive)) :
    directive.kind.isDirective ∧ directive.guard.isSome = directive.kind.hasGuard := by
  unfold ofLine at read
  split at read
  · simp at read
  · next keyword rest found =>
      unfold split? at found
      split at found
      · simp only at found
        split at found
        · simp at found
        · obtain ⟨known, hKnown, pair⟩ := Option.map_eq_some_iff.mp found
          obtain ⟨rfl, -⟩ := Prod.mk.inj pair
          cases readEq : known.read rest with
          | error e => simp [readEq, Except.map] at read
          | ok directive' =>
              obtain rfl : directive' = directive := by simpa [readEq, Except.map] using read
              exact Keyword.read_ok hKnown readEq
      · simp at found

end Directive

namespace Patch

/-- An entry of a line: no root, and with a guard exactly when its kind asks for one. -/
structure Entry.Proper (e : Entry) : Prop where
  line : e.kind ≠ .root
  guarded : e.guard.isSome = e.kind.hasGuard

theorem Entry.ofText_edit {edit : Edit} {lines : LineSpan} {text : List Char} {e : Entry}
    (read : Entry.ofText edit lines text = .ok e) : e.edit = edit := by
  unfold ofText at read
  cases line : Directive.ofLine text with
  | error err => simp [line, Except.map] at read
  | ok found =>
      rw [line] at read
      obtain _ | ⟨kind, _ | guard⟩ := found <;> cases read <;> rfl

theorem Entry.ofText_kind {edit : Edit} {lines : LineSpan} {text : List Char} {e : Entry}
    (read : Entry.ofText edit lines text = .ok e) :
    (∃ directive, Directive.ofLine text = .ok (some directive) ∧ e.kind = directive.kind ∧
      e.guard.isSome = directive.guard.isSome) ∨
    Directive.ofLine text = .ok none ∧ e.kind = .code ∧ e.guard = none := by
  unfold ofText at read
  cases line : Directive.ofLine text with
  | error err => simp [line, Except.map] at read
  | ok found =>
      rw [line] at read
      obtain _ | ⟨kind, _ | guard⟩ := found
      · cases read
        exact .inr ⟨rfl, rfl, rfl⟩
      · cases read
        exact .inl ⟨_, rfl, rfl, rfl⟩
      · cases read
        exact .inl ⟨_, rfl, rfl, rfl⟩

theorem Entry.Proper.ofText {edit : Edit} {lines : LineSpan} {text : List Char} {e : Entry}
    (read : Entry.ofText edit lines text = .ok e) : e.Proper := by
  rcases Entry.ofText_kind read with ⟨directive, line, kind, guard⟩ | ⟨-, kind, guard⟩
  · obtain ⟨isDirective, guarded⟩ := Directive.ofLine_ok line
    refine ⟨?_, by rw [guard, kind, guarded]⟩
    intro root
    rw [← kind, root] at isDirective
    simp [NodeKind.isDirective] at isDirective
  · exact ⟨by rw [kind]; decide, by rw [kind, guard]; rfl⟩

theorem read_proper (hunk : Option HunkRange) (n : Nat) (open? : Option Piece)
    (lines : List (List Char)) : ∀ e ∈ (read hunk n open? lines).entries, e.Proper := by
  have before {e : Entry} {r : Reading} (proper : e.Proper) (rest : ∀ e ∈ r.entries, e.Proper) :
      ∀ f ∈ (r.cons e).entries, f.Proper := by
    intro f member
    rcases List.mem_cons.mp member with rfl | later
    · exact proper
    · exact rest f later
  have nothing : ∀ e ∈ ([] : List Entry), e.Proper := by simp
  fun_induction read hunk n open? lines
  all_goals
    first
    | exact nothing
    | assumption
    | exact before (.ofText ‹_›) ‹_›

end Patch

end Variability
