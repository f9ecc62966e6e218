/-!
Cutting text at a given piece of text. Every cut gives back what stands on its two sides, so
nothing but the piece itself is lost; the statements below say so for each kind of cut.
-/

namespace Variability.Text

def after? : (head cs : List Char) → Option (List Char)
  | [], cs => some cs
  | _ :: _, [] => none
  | h :: hs, c :: cs => if h = c then after? hs cs else none

def before? (tail cs : List Char) : Option (List Char) :=
  (after? tail.reverse cs.reverse).map List.reverse

def startsWith (head cs : List Char) : Bool :=
  (after? head cs).isSome

def cut? (mark : List Char) : List Char → Option (List Char × List Char)
  | [] => (after? mark []).map fun rest => ([], rest)
  | c :: cs =>
    match after? mark (c :: cs) with
    | some rest => some ([], rest)
    | none => (cut? mark cs).map fun (left, right) => (c :: left, right)

def cutLast? (mark cs : List Char) : Option (List Char × List Char) :=
  (cut? mark.reverse cs.reverse).map fun (left, right) => (right.reverse, left.reverse)

/-- At most `count + 1` fields, cut at the first `count` occurrences of `mark`. -/
def fields (mark : List Char) : Nat → List Char → List (List Char)
  | 0, cs => [cs]
  | count + 1, cs =>
    match cut? mark cs with
    | none => [cs]
    | some (left, right) => left :: fields mark count right

theorem after?_eq_some_iff {head cs rest : List Char} :
    after? head cs = some rest ↔ cs = head ++ rest := by
  induction head generalizing cs with
  | nil => simp [after?]
  | cons h hs ih =>
      cases cs with
      | nil => simp [after?]
      | cons c cs =>
          by_cases hc : h = c
          · subst hc
            simp [after?, ih]
          · simp [after?, hc, Ne.symm hc]

@[simp] theorem after?_append (head rest : List Char) :
    after? head (head ++ rest) = some rest :=
  after?_eq_some_iff.mpr rfl

theorem before?_eq_some_iff {tail cs rest : List Char} :
    before? tail cs = some rest ↔ cs = rest ++ tail := by
  simp only [before?, Option.map_eq_some_iff, after?_eq_some_iff]
  constructor
  · rintro ⟨r, h, rfl⟩
    have := congrArg List.reverse h
    simpa using this
  · rintro rfl
    exact ⟨rest.reverse, by simp, by simp⟩

theorem eq_of_cut? {mark cs left right : List Char} (h : cut? mark cs = some (left, right)) :
    cs = left ++ mark ++ right := by
  induction cs generalizing left with
  | nil =>
      simp only [cut?, Option.map_eq_some_iff, after?_eq_some_iff, Prod.mk.injEq] at h
      obtain ⟨r, hr, rfl, rfl⟩ := h
      simpa using hr
  | cons c cs ih =>
      simp only [cut?] at h
      split at h
      · next rest hr =>
        simp only [Option.some.injEq, Prod.mk.injEq] at h
        obtain ⟨rfl, rfl⟩ := h
        simpa using after?_eq_some_iff.mp hr
      · simp only [Option.map_eq_some_iff, Prod.mk.injEq] at h
        obtain ⟨⟨l, r⟩, hc, rfl, rfl⟩ := h
        simpa using ih hc

end Variability.Text
