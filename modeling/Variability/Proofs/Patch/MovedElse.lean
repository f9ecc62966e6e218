import Variability.Proofs.Patch.Sequel
import Variability.Proofs.Tree.MovedElse

/-!
Moved `else` branches of two patches, one behind the other. Conditionals that stand at the top of
both have one scope. An `else` that one patch adds there can be taken together with one that the
other removes; everything else is matched as it is in its own patch.
-/

namespace Variability

open Variability.Tree (later)

namespace Patch

/-- The `else` branches of a patch are matched as they are alone, and so are those of a patch behind
it, unless one of the two removes an `else` at the top where the other adds one. These have a
common scope: the added `else` is matched with the removed one if a line changed between one of
them and an `if` or `elif` branch there. -/
theorem parse_append_movedElses {first second path commit : String} (joins : Joins first second)
    {t u : Tree} (parsed : parse first path commit = .ok (.ok t))
    (parsedToo : parse second path commit = .ok (.ok u)) :
    ∃ v, v = t.followedBy u (lineCount first) ∧
      parse (first ++ second) path commit = .ok (.ok v) ∧
      (∀ i < t.size,
        (i ∈ t.topElses .added → t.topElses .removed = [] → u.topElses .removed = []) →
          v.movedElse? i = t.movedElse? i) ∧
      (∀ i < u.size, (i ∈ u.topElses .added → t.topElses .removed = []) →
        v.movedElse? (later (t.size - 1) i) =
          (u.movedElse? i).map (SemanticMatch.later (t.size - 1) (lineCount first))) ∧
      (∀ found ∈ t.movedElses, found ∈ v.movedElses) ∧
      ((t.topElses .added ≠ [] → t.topElses .removed = [] → u.topElses .removed = []) →
        (u.topElses .added ≠ [] → t.topElses .removed = []) →
          v.movedElses = t.movedElses ++
            u.movedElses.map (SemanticMatch.later (t.size - 1) (lineCount first))) ∧
      (∀ i r, i ∈ t.topElses .added → t.topElses .removed = [] → u.topElses .removed = [r] →
        v.movedElse? i =
          if t.exchanges .after 0 i || u.exchanges .before 0 r then
            some ⟨"MoveElse", i,
              (t.node i).lines.around ((u.node r).lines.later (lineCount first))⟩
          else none) ∧
      ∀ i r, i ∈ u.topElses .added → u.topElses .removed = [] → t.topElses .removed = [r] →
        v.movedElse? (later (t.size - 1) i) =
          if u.exchanges .after 0 i || t.exchanges .before 0 r then
            some ⟨"MoveElse", later (t.size - 1) i,
              ((u.node i).lines.later (lineCount first)).around (t.node r).lines⟩
          else none := by
  have accepted := accepted_of_parse parsed
  have acceptedToo := accepted_of_parse parsedToo
  have meet := accepted.meet acceptedToo
  have whole := (accepted.sequel acceptedToo (lineCount first)).linked
  refine ⟨_, rfl, joins.parse_eq parsed parsedToo,
    fun i inside => meet.movedElse?_first whole inside,
    fun i inside => meet.movedElse?_second whole inside, ?_,
    meet.movedElses_followedBy whole, ?_, ?_⟩
  · intro found listed
    obtain ⟨i, member, matched⟩ := List.mem_filterMap.mp listed
    have inside := List.mem_range.mp member
    exact List.mem_filterMap.mpr ⟨i, List.mem_range.mpr (meet.lt_size_first inside),
      meet.movedElse?_of_found whole inside matched⟩
  · intro i r added none only
    have inside := (Tree.mem_positions.mp added).1
    rw [meet.movedElse?_across_first whole added none only, accepted.overlays.id_eq inside]
  · intro i r added _ only
    have inside := (Tree.mem_positions.mp added).1
    rw [meet.movedElse?_across_second whole added only, acceptedToo.overlays.id_eq inside]

theorem parse_append_movedElses_nested :
    ∃ v, parse ("@@ -1,6 +1,6 @@\n #if A\n a\n-#else\n b\n+#else\n c\n #endif\n" ++
        "@@ -9,8 +9,8 @@\n #if B\n #if C\n d\n-#else\n e\n+#else\n f\n #endif\n #endif\n")
        "f" "c" = .ok (.ok v) ∧
      v.movedElses = [⟨"MoveElse", 5, ⟨4, 6⟩⟩, ⟨"MoveElse", 13, ⟨13, 15⟩⟩] := by
  have joins : Joins "@@ -1,6 +1,6 @@\n #if A\n a\n-#else\n b\n+#else\n c\n #endif\n"
      "@@ -9,8 +9,8 @@\n #if B\n #if C\n d\n-#else\n e\n+#else\n f\n #endif\n #endif\n" := by
    decide +kernel
  have parses : parsesTo "@@ -1,6 +1,6 @@\n #if A\n a\n-#else\n b\n+#else\n c\n #endif\n" "f" "c"
      (fun t => t.size = 8 && t.topElses .removed = [3] &&
        t.movedElses = [⟨"MoveElse", 5, ⟨4, 6⟩⟩]) := by decide +kernel
  have parsesToo : parsesTo
      "@@ -9,8 +9,8 @@\n #if B\n #if C\n d\n-#else\n e\n+#else\n f\n #endif\n #endif\n" "f" "c"
      (fun u => u.topElses .added = [] && u.movedElses = [⟨"MoveElse", 6, ⟨5, 7⟩⟩]) := by
    decide +kernel
  obtain ⟨t, parsed, facts⟩ := exists_of_parsesTo parses
  obtain ⟨u, parsedToo, factsToo⟩ := exists_of_parsesTo parsesToo
  simp only [Bool.and_eq_true, decide_eq_true_eq] at facts factsToo
  obtain ⟨⟨size, removed⟩, matches'⟩ := facts
  obtain ⟨none, matchesToo⟩ := factsToo
  obtain ⟨v, -, parsedBoth, -, -, -, apart, -⟩ := parse_append_movedElses joins parsed parsedToo
  refine ⟨v, parsedBoth, ?_⟩
  rw [apart (fun _ empty => absurd (removed.symm.trans empty) (by decide))
    (fun added => absurd none added), matches', matchesToo, size]
  decide +kernel

/-- Neither of these patches moves an `else`, but together they do. -/
theorem not_movedElses_append :
    ∃ t u v,
      Joins "@@ -1,5 +1,4 @@\n #if A\n a\n-#else\n b\n #endif\n"
        "@@ -6,4 +5,5 @@\n #if B\n c\n+#else\n d\n #endif\n" ∧
      parse "@@ -1,5 +1,4 @@\n #if A\n a\n-#else\n b\n #endif\n" "f" "c" = .ok (.ok t) ∧
      parse "@@ -6,4 +5,5 @@\n #if B\n c\n+#else\n d\n #endif\n" "f" "c" = .ok (.ok u) ∧
      parse ("@@ -1,5 +1,4 @@\n #if A\n a\n-#else\n b\n #endif\n" ++
        "@@ -6,4 +5,5 @@\n #if B\n c\n+#else\n d\n #endif\n") "f" "c" = .ok (.ok v) ∧
      v.movedElses = [⟨"MoveElse", 8, ⟨4, 10⟩⟩] ∧
      v.movedElses ≠ t.movedElses ++ u.movedElses.map
        (SemanticMatch.later (t.size - 1)
          (lineCount "@@ -1,5 +1,4 @@\n #if A\n a\n-#else\n b\n #endif\n")) := by
  have parses : parsesTo "@@ -1,5 +1,4 @@\n #if A\n a\n-#else\n b\n #endif\n" "f" "c"
      (fun t => t.movedElses = []) := by decide +kernel
  have parsesToo : parsesTo "@@ -6,4 +5,5 @@\n #if B\n c\n+#else\n d\n #endif\n" "f" "c"
      (fun u => u.movedElses = []) := by decide +kernel
  have parsesBoth : parsesTo ("@@ -1,5 +1,4 @@\n #if A\n a\n-#else\n b\n #endif\n" ++
      "@@ -6,4 +5,5 @@\n #if B\n c\n+#else\n d\n #endif\n") "f" "c"
      (fun v => v.movedElses = [⟨"MoveElse", 8, ⟨4, 10⟩⟩]) := by decide +kernel
  obtain ⟨t, parsed, nothing⟩ := exists_of_parsesTo parses
  obtain ⟨u, parsedToo, nothingToo⟩ := exists_of_parsesTo parsesToo
  obtain ⟨v, parsedBoth, found⟩ := exists_of_parsesTo parsesBoth
  rw [decide_eq_true_eq] at nothing nothingToo found
  refine ⟨t, u, v, by decide +kernel, parsed, parsedToo, parsedBoth, found, ?_⟩
  rw [found, nothing, nothingToo]
  exact List.cons_ne_nil _ _

end Patch

end Variability
