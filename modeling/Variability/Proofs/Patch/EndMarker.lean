import Variability.Proofs.Patch.Unnumbered

/-!
Lines that start with a backslash, which say of the line before them that nothing ends it. Between
statements such a line is skipped. Where a directive asks for one more line, it is taken for a line
of text that no edit touches, and the directive goes on with it.
-/

namespace Variability

namespace Patch

open Text (lines)

/-- A patch without its `k`-th line, counted from 0. -/
def withoutLine (k : Nat) (text : String) : String :=
  String.ofList (Text.eraseLine k text.toList)

theorem lines_withoutLine {text : String} {above below : List (List Char)} {line : List Char}
    (split : lines text.toList = above ++ line :: below) :
    lines (withoutLine above.length text).toList = above ++ below := by
  rw [withoutLine, String.toList_ofList, Text.lines_eraseLine, split,
    List.eraseIdx_append_of_length_le le_rfl, Nat.sub_self, List.eraseIdx_cons_zero]

/-- To a directive that waits for one more line the marker is the one of a line without edit. -/
theorem outline_marker_waiting (inHunk : Bool) (n : Nat) (st : Statement) (remark : List Char)
    (rest : List (List Char)) :
    outline inHunk n (some st) (('\\' :: remark) :: rest) =
      outline inHunk n (some st) ((' ' :: remark) :: rest) := by
  rw [outline_continuation, outline_continuation]
  rfl

theorem exists_mixed_of_marker {st : Statement} (edited : st.edit ≠ .kept) (inHunk : Bool) (n : Nat)
    (remark : List Char) (rest : List (List Char)) :
    ∃ st' ∈ (outline inHunk n (some st) (('\\' :: remark) :: rest)).statements,
      ¬ st'.Uniform := by
  have mixed : ¬ (st.join n ('\\' :: remark)).Uniform := fun uniform =>
    edited (uniform .kept (List.mem_append_right _ (List.mem_singleton_self _))).symm
  rw [outline_continuation]
  split
  · exact exists_mixed mixed
  · exact ⟨_, List.mem_cons_self, mixed⟩

section Marker

variable {text : String} {above below : List (List Char)} {remark : List Char}
  (marker : lines text.toList = above ++ ('\\' :: remark) :: below)
include marker

theorem parsedAlike_withoutLine (waits : (Outline.ofLines above).waiting? = none) :
    ParsedAlike text (withoutLine above.length text) := by
  refine parsedAlike_of_alike ?_
  rw [Outline.ofText_eq_append marker, Outline.ofText_eq_append (lines_withoutLine marker), waits,
    outline_remark]
  exact (Outline.Alike.refl _).append (outline_alike _ _ _ _)

theorem parse_ne_ok_of_marker {st : Statement}
    (waits : (Outline.ofLines above).waiting? = some st) (edited : st.edit ≠ .kept)
    (path commit : String) (t : Tree) : parse text path commit ≠ .ok (.ok t) := by
  intro parsed
  obtain ⟨hunk, -, -, sound, -⟩ := passes_of_parse parsed
  rw [Outline.ofText_eq_append marker, waits] at sound
  obtain ⟨st', listed, mixed⟩ := exists_mixed_of_marker edited _ _ _ _
  exact mixed (sound st' (List.mem_append_right _ listed)).1

/-- A line that starts with a backslash can be taken out of a patch, unless a directive before it
asks for one more line: the patches are accepted alike, with one tree up to line numbers. Where one
does, a patch is refused if the directive is added or removed, and otherwise it is the patch with
that line as a line without edit. -/
theorem parse_without_marker :
    ((Outline.ofLines above).waiting? = none →
      ParsedAlike text (withoutLine above.length text)) ∧
    ∀ st, (Outline.ofLines above).waiting? = some st →
      (st.edit ≠ .kept → ∀ path commit t, parse text path commit ≠ .ok (.ok t)) ∧
      ∀ other : String, lines other.toList = above ++ (' ' :: remark) :: below →
        ∀ path commit t,
          parse text path commit = .ok (.ok t) ↔ parse other path commit = .ok (.ok t) := by
  refine ⟨parsedAlike_withoutLine marker, fun st waits =>
    ⟨fun edited path commit t => parse_ne_ok_of_marker marker waits edited path commit t, ?_⟩⟩
  intro other split path commit t
  have same : Outline.ofText text = Outline.ofText other := by
    rw [Outline.ofText_eq_append marker, Outline.ofText_eq_append split, waits,
      outline_marker_waiting]
  exact ⟨parse_of_ofText_eq same, parse_of_ofText_eq same.symm⟩

end Marker

/-- The marker stands behind a line of code, and behind a directive that asks for one more line. -/
theorem parse_without_marker_endif :
    ParsedAlike "@@ -1,1 +1,1 @@\n-x\n\\ No newline at end of file\n+x\n"
        "@@ -1,1 +1,1 @@\n-x\n+x\n" ∧
      ∃ t, parse " #if A\n x\n #endif \\\n\\ No newline at end of file\n" "f" "c" =
        .ok (.ok t) := by
  constructor
  · have marker : lines "@@ -1,1 +1,1 @@\n-x\n\\ No newline at end of file\n+x\n".toList =
        ["@@ -1,1 +1,1 @@".toList, "-x".toList] ++
          ('\\' :: " No newline at end of file".toList) :: ["+x".toList] := by decide +kernel
    exact (parse_without_marker marker).1 (Outline.settled_iff.mp (by decide +kernel))
  · have marker : lines " #if A\n x\n #endif \\\n\\ No newline at end of file\n".toList =
        [" #if A".toList, " x".toList, " #endif \\".toList] ++
          ('\\' :: " No newline at end of file".toList) :: [] := by decide +kernel
    obtain ⟨st, waits⟩ := Option.isSome_iff_exists.mp (show (Outline.ofLines
      [" #if A".toList, " x".toList, " #endif \\".toList]).waiting?.isSome by decide +kernel)
    have parses : parsesTo " #if A\n x\n #endif \\\n  No newline at end of file\n" "f" "c"
        (fun _ => true) := by decide +kernel
    obtain ⟨t, parsed, -⟩ := exists_of_parsesTo parses
    have same := ((parse_without_marker marker).2 st waits).2
      " #if A\n x\n #endif \\\n  No newline at end of file\n" (by decide +kernel)
    exact ⟨t, (same "f" "c" t).mpr parsed⟩

/-- Behind an added directive that asks for one more line the marker is read as a line without
edit. -/
theorem not_parse_without_marker :
    ¬ ∀ (text : String) (above : List (List Char)) (remark : List Char) (below : List (List Char)),
      lines text.toList = above ++ ('\\' :: remark) :: below →
        ParsedAlike text (withoutLine above.length text) := by
  intro alike
  have marker :
      lines
        "@@ -1,3 +1,3 @@\n #if A\n x\n-#endif\n+#endif \\\n\\ No newline at end of file\n".toList =
        ["@@ -1,3 +1,3 @@".toList, " #if A".toList, " x".toList, "-#endif".toList,
            "+#endif \\".toList] ++
          ('\\' :: " No newline at end of file".toList) :: [] := by decide +kernel
  have refused :
      parse
        "@@ -1,3 +1,3 @@\n #if A\n x\n-#endif\n+#endif \\\n\\ No newline at end of file\n"
        "f" "c" = .ok (.error (.mixedContinuation 6)) := by decide +kernel
  have parses : parsesTo (withoutLine 5
      "@@ -1,3 +1,3 @@\n #if A\n x\n-#endif\n+#endif \\\n\\ No newline at end of file\n")
      "f" "c" (fun _ => true) := by decide +kernel
  obtain ⟨t, parsed, -⟩ := exists_of_parsesTo parses
  obtain ⟨u, accepted⟩ := ((alike _ _ _ _ marker).accepted "f" "c").mpr ⟨t, parsed⟩
  rw [refused] at accepted
  cases accepted

end Patch

end Variability
