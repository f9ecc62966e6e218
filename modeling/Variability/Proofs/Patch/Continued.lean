import Variability.Proofs.Guard.Respacing
import Variability.Proofs.Patch.Bounds
import Variability.Proofs.Patch.Unnumbered

/-!
Directives written on several lines. The lines of a directive are joined to a text with the words
that stand on them, and a directive without quotes is read off its words. So a directive that is cut
at blanks and continued from line to line is the directive that it was.
-/

namespace Variability

namespace Patch

open Directive (isDirective)
open Guard (Quoteless)
open Text (words trimStart trimEnd)

/-! Where statements begin. -/

/-- The statements of an outline begin on its lines, but for a directive that is being continued. -/
theorem first_of_mem_outline (inHunk : Bool) (n : Nat) {opened : Option Statement}
    (asks : ∀ st ∈ opened, st.Asks) {lines : List (List Char)} (whole : ∀ line ∈ lines, '\n' ∉ line)
    {st : Statement} (listed : st ∈ (outline inHunk n opened lines).statements) :
    (∃ waiting ∈ opened, st.lines.first = waiting.lines.first) ∨
      n + opened.isSome.toNat ≤ st.lines.first ∧ st.lines.first < n + lines.length := by
  induction lines generalizing inHunk n opened with
  | nil =>
      cases opened with
      | none => cases listed
      | some waiting =>
          obtain rfl := List.mem_singleton.mp listed
          exact .inl ⟨st, rfl, rfl⟩
  | cons line rest ih =>
      obtain ⟨wholeLine, wholeRest⟩ := List.forall_mem_cons.mp whole
      have later (inHunk : Bool) (listed : st ∈ (outline inHunk (n + 1) none rest).statements) :
          n + opened.isSome.toNat ≤ st.lines.first ∧
            st.lines.first < n + (line :: rest).length := by
        have bounds := (ih inHunk (n + 1) (by simp) wholeRest listed).resolve_left (by simp)
        have one := Bool.toNat_le opened.isSome
        simp only [List.length_cons, Option.isSome_none, Bool.toNat_false] at bounds ⊢
        omega
      have begun {own : Statement} (begins : own.lines.first = opened.elim n (·.lines.first)) :
          (∃ waiting ∈ opened, own.lines.first = waiting.lines.first) ∨
            n + opened.isSome.toNat ≤ own.lines.first ∧
              own.lines.first < n + (line :: rest).length := by
        cases opened with
        | none =>
            rw [begins]
            exact .inr (by simp)
        | some waiting => exact .inl ⟨waiting, rfl, begins⟩
      cases outlineEffect inHunk n asks wholeLine with
      | skip outlines =>
          rw [outlines] at listed
          exact .inr (later inHunk listed)
      | header range outlines =>
          rw [outlines] at listed
          exact .inr (later true listed)
      | asks own ownAsks begins outlines =>
          rw [outlines] at listed
          rcases ih inHunk (n + 1) (by simpa using ownAsks) wholeRest listed with
            ⟨_, ⟨⟩, same⟩ | bounds
          · exact same ▸ begun begins
          · refine .inr ?_
            have one := Bool.toNat_le opened.isSome
            simp only [List.length_cons, Option.isSome_some, Bool.toNat_true] at bounds ⊢
            omega
      | ends own alone begins outlines =>
          rw [outlines] at listed
          rcases List.mem_cons.mp listed with rfl | below
          · exact begun begins
          · exact .inr (later inHunk below)

theorem Outline.mem_of_waiting? {o : Outline} {st : Statement} (waits : o.waiting? = some st) :
    st ∈ o.statements := by
  rw [waiting?, Option.filter_eq_some_iff] at waits
  exact List.mem_of_getLast? waits.1

theorem Outline.finished_subset (o : Outline) : o.finished.statements ⊆ o.statements := by
  unfold finished
  split
  · exact List.dropLast_subset _
  · exact List.Subset.refl _

/-- A line with which a statement begins: no directive above asks for it, and it is no remark. -/
theorem begins_of_first {text : String} {above below : List (List Char)} {line : List Char}
    (split : Text.lines text.toList = above ++ line :: below) {st : Statement}
    (listed : st ∈ (Outline.ofText text).statements) (first : st.lines.first = above.length + 1) :
    (Outline.ofLines above).waiting? = none ∧ ¬ Text.startsWith ['\\'] line := by
  have whole : ∀ l ∈ above ++ line :: below, '\n' ∉ l := fun l member =>
    Text.newline_not_mem_of_mem_lines (split ▸ member)
  obtain ⟨wholeAbove, wholeBehind⟩ := List.forall_mem_append.mp whole
  have before {own : Statement} (member : own ∈ (Outline.ofLines above).statements) :
      own.lines.first < 1 + above.length :=
    ((first_of_mem_outline false 1 (by simp) wholeAbove member).resolve_left (by simp)).2
  rw [Outline.ofText_eq_append split] at listed
  have behind := (List.mem_append.mp listed).resolve_left fun early => by
    have bound := before (Outline.finished_subset _ early)
    omega
  cases waits : (Outline.ofLines above).waiting? with
  | some waiting =>
      rw [waits] at behind
      have bound := before (Outline.mem_of_waiting? waits)
      rcases first_of_mem_outline _ _ (by simpa using Outline.asks_of_waiting? waits) wholeBehind
        behind with ⟨_, ⟨⟩, same⟩ | bounds
      · omega
      · simp only [Option.isSome_some, Bool.toNat_true] at bounds
        omega
  | none =>
      refine ⟨rfl, fun remark => ?_⟩
      obtain ⟨rest, after⟩ := Option.isSome_iff_exists.mp remark
      obtain rfl := Text.after?_eq_some_iff.mp after
      rw [waits, List.singleton_append, outline_remark] at behind
      have wholeBelow : ∀ l ∈ below, '\n' ∉ l := (List.forall_mem_cons.mp wholeBehind).2
      have bounds :=
        (first_of_mem_outline _ _ (by simp) wholeBelow behind).resolve_left (by simp)
      omega

/-! Directives. -/

theorem blank_or_mark {c : Char} {cs : List Char} (directive : isDirective (c :: cs)) :
    Text.isBlank c ∨ c = '#' := by
  obtain ⟨rest, mark, -⟩ := Directive.isDirective_iff.mp directive
  cases blank : Text.isBlank c with
  | true => exact .inl rfl
  | false =>
      rw [trimStart, List.dropWhile_cons_of_neg (by simp [blank])] at mark
      exact .inr (List.cons.inj mark).1

/-- A directive is no header, whatever its marker. -/
theorem outline_directive {marker : Char} {text : List Char} (noRemark : marker ≠ '\\')
    (directive : isDirective text) (inHunk : Bool) (n : Nat) (rest : List (List Char)) :
    outline inHunk n none ((marker :: text) :: rest) =
      if (continued? text).isSome then
        outline inHunk (n + 1) (some (.single n (marker :: text))) rest
      else
        { outline inHunk (n + 1) none rest with
          statements := .single n (marker :: text) ::
            (outline inHunk (n + 1) none rest).statements } := by
  have second {c d : Char} {head : List Char}
      (starts : Text.startsWith (c :: d :: head) (marker :: text)) : Text.isBlank d ∨ d = '#' := by
    obtain ⟨more, after⟩ := Option.isSome_iff_exists.mp starts
    obtain ⟨-, rfl⟩ := List.cons.inj (Text.after?_eq_some_iff.mp after)
    exact blank_or_mark directive
  have noHeader : ¬ Text.startsWith ['@', '@'] (marker :: text) := by
    intro starts
    have other := second starts
    revert other
    decide
  have noFile : isFileHeader (marker :: text) = false := by
    have heads : ∀ head ∈ fileHeaders, ∃ c d rest, head.toList = c :: d :: rest ∧
        ¬ (Text.isBlank d ∨ d = '#') := by
      simp [fileHeaders]
      decide
    rw [isFileHeader, List.any_eq_false]
    intro head listed starts
    obtain ⟨c, d, rest, chars, other⟩ := heads head listed
    rw [chars] at starts
    exact other (second starts)
  have noBackslash : ¬ Text.startsWith ['\\'] (marker :: text) := by
    simp [Text.startsWith, Text.after?, Ne.symm noRemark]
  have here : (Statement.single n (marker :: text)).text = text := rfl
  rw [outline_line, if_neg noHeader, if_neg noBackslash, noFile, Bool.and_false,
    if_neg Bool.false_ne_true, here, directive, Bool.true_and]

/-! Lines that continue a directive. -/

/-- Pieces of a directive on lines of their own, all of which but the last ask for one more. -/
def continuedLines (marker : Char) : List (List Char) → List (List Char)
  | [] => []
  | [piece] => [marker :: piece]
  | piece :: next :: pieces =>
    (marker :: (piece ++ [' ', '\\'])) :: continuedLines marker (next :: pieces)

/-- Words of which the last one does not end in a backslash. -/
def Complete (ws : List (List Char)) : Prop :=
  ∀ word ∈ ws.getLast?, word.getLast? ≠ some '\\'

theorem complete_words_iff {text : List Char} : Complete (words text) ↔ continued? text = none := by
  have ends : continued? text = none ↔ (trimEnd text).getLast? ≠ some '\\' := by
    rw [Option.eq_none_iff_forall_ne_some, ne_eq, List.getLast?_eq_some_iff, not_exists]
    simp only [continued?, ne_eq, Text.before?_eq_some_iff]
  rw [ends, Text.getLast?_trimEnd, Complete]
  cases (words text).getLast? <;> simp

theorem continued?_backslash (front : List Char) :
    continued? (front ++ [' ', '\\']) = some (front ++ [' ']) := by
  have trimmed : trimEnd (front ++ [' ', '\\']) = front ++ [' ', '\\'] :=
    Text.trimEnd_eq_self_iff.mpr (by simp; decide)
  rw [continued?, trimmed, Text.before?_eq_some_iff, List.append_assoc]
  rfl

/-- A statement that was joined of lines with this marker, and the words on them. -/
structure Statement.Gathers (st : Statement) (marker : Char) (ws : List (List Char)) : Prop where
  edit : st.edit = .ofMarker marker
  uniform : st.Uniform
  words : words st.text = ws
  whole : '\n' ∉ st.text

namespace Statement.Gathers

variable {st : Statement} {marker : Char} {ws : List (List Char)}

theorem single {text : List Char} (whole : '\n' ∉ text) (n : Nat) :
    (Statement.single n (marker :: text)).Gathers marker (Text.words text) where
  edit := rfl
  uniform := nofun
  words := rfl
  whole := whole

theorem join {front : List Char} (gathers : st.Gathers marker ws)
    (asks : st.text = front ++ [' ', '\\']) {text : List Char} (whole : '\n' ∉ text) (n : Nat) :
    (st.join n (marker :: text)).Gathers marker (Text.words front ++ Text.words text) ∧
      (st.join n (marker :: text)).text = front ++ ' ' :: ' ' :: trimStart text := by
  have joined : (st.join n (marker :: text)).text = front ++ ' ' :: ' ' :: trimStart text := by
    rw [Statement.join, asks, continued?_backslash, Option.getD_some, List.append_assoc]
    rfl
  refine ⟨⟨gathers.edit, ?_, ?_, ?_⟩, joined⟩
  · intro edit member
    rcases List.mem_append.mp member with early | last
    · exact gathers.uniform edit early
    · rw [List.mem_singleton.mp last]
      exact gathers.edit.symm
  · rw [joined, Text.words_append_blank (by decide), Text.words_blank_cons (by decide),
      Text.words_trimStart]
  · have lineFront : '\n' ∉ front := fun newline =>
      gathers.whole (asks ▸ List.mem_append_left _ newline)
    have lineText : '\n' ∉ trimStart text := fun newline =>
      whole ((List.dropWhile_sublist _).subset newline)
    simp [joined, lineFront, lineText]

end Statement.Gathers

/-- A piece that asks for one more line leaves a text that does. -/
theorem exists_front (front piece : List Char) :
    ∃ frontToo, front ++ ' ' :: ' ' :: trimStart (piece ++ [' ', '\\']) =
      frontToo ++ [' ', '\\'] ∧ words frontToo = words front ++ words piece := by
  by_cases visible : trimStart piece = []
  · refine ⟨front ++ [' '], ?_, ?_⟩
    · have blank : trimStart (piece ++ [' ', '\\']) = ['\\'] := by
        rw [trimStart, List.dropWhile_append, ← trimStart, visible]
        decide
      rw [blank, List.append_assoc]
      rfl
    · rw [Text.words_append_blank (by decide), ← Text.words_trimStart piece, visible]
  · refine ⟨front ++ ' ' :: ' ' :: trimStart piece, ?_, ?_⟩
    · rw [Text.trimStart_append visible, List.append_assoc]
      rfl
    · rw [Text.words_append_blank (by decide), Text.words_blank_cons (by decide),
        Text.words_trimStart]

section Pieces

variable {marker : Char} {piece : List Char} {pieces : List (List Char)}
  (whole : ∀ p ∈ piece :: pieces, '\n' ∉ p)
include whole

theorem exists_gathers_continued {st : Statement} {ws : List (List Char)} {front : List Char}
    (gathers : st.Gathers marker ws) (asks : st.text = front ++ [' ', '\\'])
    (complete : Complete (words front ++ (piece :: pieces).flatMap words)) (inHunk : Bool) (n : Nat)
    (below : List (List Char)) :
    ∃ st' : Statement, st'.Gathers marker (words front ++ (piece :: pieces).flatMap words) ∧
      outline inHunk n (some st) (continuedLines marker (piece :: pieces) ++ below) =
        { outline inHunk (n + pieces.length + 1) none below with
          statements :=
            st' :: (outline inHunk (n + pieces.length + 1) none below).statements } := by
  induction pieces generalizing st ws front piece n with
  | nil =>
      obtain ⟨joined, -⟩ := gathers.join asks (whole piece List.mem_cons_self) n
      rw [List.flatMap_singleton] at complete ⊢
      have ends : continued? (st.join n (marker :: piece)).text = none :=
        complete_words_iff.mp (joined.words ▸ complete)
      refine ⟨_, joined, ?_⟩
      rw [continuedLines, List.singleton_append, outline_continuation, ends]
      rfl
  | cons next pieces ih =>
      obtain ⟨wholeHere, wholeBehind⟩ := List.forall_mem_cons.mp whole
      have lineHere : '\n' ∉ piece ++ [' ', '\\'] := by simp [wholeHere]
      obtain ⟨joined, text⟩ := gathers.join asks lineHere n
      obtain ⟨frontToo, further, read⟩ := exists_front front piece
      have asksToo := text.trans further
      rw [List.flatMap_cons, ← List.append_assoc, ← read] at complete ⊢
      obtain ⟨st', gathered, outlines⟩ := ih wholeBehind joined asksToo complete (n + 1)
      have count : n + 1 + pieces.length = n + (next :: pieces).length := by
        rw [List.length_cons]
        omega
      refine ⟨st', gathered, ?_⟩
      rw [continuedLines, List.cons_append, outline_continuation, asksToo, continued?_backslash,
        Option.isSome_some, if_pos rfl, outlines, count]

/-- A directive in pieces is one statement, with the words of the pieces. -/
theorem exists_gathers (noRemark : marker ≠ '\\') (directive : isDirective piece)
    (complete : Complete ((piece :: pieces).flatMap words)) (inHunk : Bool) (n : Nat)
    (below : List (List Char)) :
    ∃ st : Statement, st.Gathers marker ((piece :: pieces).flatMap words) ∧
      outline inHunk n none (continuedLines marker (piece :: pieces) ++ below) =
        { outline inHunk (n + pieces.length + 1) none below with
          statements := st :: (outline inHunk (n + pieces.length + 1) none below).statements } := by
  obtain ⟨wholeHere, wholeBehind⟩ := List.forall_mem_cons.mp whole
  cases pieces with
  | nil =>
      rw [List.flatMap_singleton] at complete ⊢
      refine ⟨_, .single wholeHere n, ?_⟩
      rw [continuedLines, List.singleton_append, outline_directive noRemark directive,
        complete_words_iff.mp complete]
      rfl
  | cons next pieces =>
      have lineHere : '\n' ∉ piece ++ [' ', '\\'] := by simp [wholeHere]
      have longer : isDirective (piece ++ [' ', '\\']) :=
        Directive.isDirective_of_words (Text.words_append_blank (by decide) piece ['\\']) directive
          lineHere
      rw [List.flatMap_cons] at complete ⊢
      obtain ⟨st, gathered, outlines⟩ := exists_gathers_continued wholeBehind
        (.single lineHere n) rfl complete inHunk (n + 1) below
      have count : n + 1 + pieces.length = n + (next :: pieces).length := by
        rw [List.length_cons]
        omega
      refine ⟨st, gathered, ?_⟩
      rw [continuedLines, List.cons_append, outline_directive noRemark longer,
        continued?_backslash, Option.isSome_some, if_pos rfl, outlines, count]

end Pieces

theorem Statement.Gathers.alike {st st' : Statement} {marker : Char} {ws : List (List Char)}
    (gathers : st.Gathers marker ws) (gathersToo : st'.Gathers marker ws)
    (directive : isDirective st.text) (quoteless : Quoteless st.text) : st.Alike st' := by
  refine alike_of_text (iff_of_true gathers.uniform gathersToo.uniform)
    (gathers.edit.trans gathersToo.edit.symm) ?_ directive
  exact (Directive.ofLine_of_words directive quoteless
    (gathersToo.words.trans gathers.words.symm) gathersToo.whole).symm

/-- A directive on one line and the same directive in pieces are outlined alike. -/
theorem outline_alike_continued {marker : Char} (noRemark : marker ≠ '\\') {content : List Char}
    (whole : '\n' ∉ content) (quoteless : Quoteless content) (complete : continued? content = none)
    {piece : List Char} {pieces : List (List Char)} (wholeToo : ∀ p ∈ piece :: pieces, '\n' ∉ p)
    (keyword : isDirective piece) (cut : words content = (piece :: pieces).flatMap words)
    (inHunk : Bool) (n : Nat) (below : List (List Char)) :
    (outline inHunk n none ((marker :: content) :: below)).Alike
      (outline inHunk n none (continuedLines marker (piece :: pieces) ++ below)) := by
  have directive : isDirective content :=
    Directive.isDirective_of_words (by rw [cut, List.flatMap_cons]) keyword whole
  have finished : Complete ((piece :: pieces).flatMap words) :=
    cut ▸ complete_words_iff.mpr complete
  obtain ⟨st, gathers, outlines⟩ :=
    exists_gathers wholeToo noRemark keyword finished inHunk n below
  rw [← cut] at gathers
  have single : (Statement.single n (marker :: content)).Gathers marker (words content) :=
    .single whole n
  rw [outlines, outline_directive noRemark directive, complete]
  have behind := outline_alike inHunk (n + 1) (n + pieces.length + 1) below
  exact ⟨behind.hunks, .cons (single.alike gathers directive quoteless) behind.statements⟩

theorem subset_of_mem_continuedLines (marker : Char) {pieces : List (List Char)} {piece : List Char}
    (listed : piece ∈ pieces) : ∃ line ∈ continuedLines marker pieces, piece ⊆ line := by
  induction pieces with
  | nil => cases listed
  | cons first pieces ih =>
      cases pieces with
      | nil =>
          obtain rfl := List.mem_singleton.mp listed
          exact ⟨marker :: piece, List.mem_cons_self, List.subset_cons_self marker piece⟩
      | cons next pieces =>
          rcases List.mem_cons.mp listed with rfl | behind
          · refine ⟨_, List.mem_cons_self, ?_⟩
            exact List.Subset.trans (List.subset_append_left piece _)
              (List.subset_cons_self marker _)
          · obtain ⟨line, member, inside⟩ := ih behind
            exact ⟨line, List.mem_cons_of_mem _ member, inside⟩

/-- The line at which a node begins is the line at which a statement does. -/
theorem exists_statement_of_parse {text path commit : String} {t : Tree}
    (parsed : parse text path commit = .ok (.ok t)) {i : Nat}
    (numbered : 0 < (t.node i).lines.first) :
    ∃ st ∈ (Outline.ofText text).statements, st.lines.first = (t.node i).lines.first := by
  have overlays := (accepted_of_parse parsed).overlays
  obtain ⟨hunk, -, -, -, entries⟩ := passes_of_parse parsed
  have inside : i < t.size := by
    by_contra outside
    rw [Tree.node_of_size_le (Nat.le_of_not_lt outside)] at numbered
    exact absurd numbered (Nat.lt_irrefl 0)
  have line : i ≠ 0 := by
    rintro rfl
    rw [show (t.node 0).lines = ⟨0, 0⟩ from congrArg Node.lines overlays.root] at numbered
    exact absurd numbered (Nat.lt_irrefl 0)
  obtain ⟨k, e, rfl, lookup⟩ := overlays.lookup inside line
  have member := List.mem_of_getElem? lookup
  rw [entries] at member
  obtain ⟨st, listed, made⟩ := List.mem_filterMap.mp member
  refine ⟨st, listed, ?_⟩
  have read : Entry.ofText st.edit st.lines st.text = .ok e := by
    rw [Statement.line?] at made
    cases result : Entry.ofText st.edit st.lines st.text with
    | error err => simp [result, Except.toOption] at made
    | ok f =>
        rw [result] at made
        rw [Option.some.inj made]
  rw [show (t.node (k + 1)).lines = e.lines from congrArg Node.lines (overlays.entry lookup),
    Entry.ofText_lines read]

/-- A directive on one line, without quotes and with no backslash at its end, can be cut at blanks
behind its keyword and continued from line to line: the patch is accepted as before, and its tree is
the same but for the numbers of lines. -/
theorem parse_continued {text joined path commit : String} {t : Tree}
    (parsed : parse text path commit = .ok (.ok t)) {above below : List (List Char)} {marker : Char}
    {content : List Char} (split : Text.lines text.toList = above ++ (marker :: content) :: below)
    {i : Nat} (own : (t.node i).lines = ⟨above.length + 1, above.length + 1⟩)
    (quoteless : Quoteless content) (complete : continued? content = none) {piece : List Char}
    {pieces : List (List Char)} (keyword : isDirective piece)
    (cut : words content = (piece :: pieces).flatMap words)
    (splitToo : Text.lines joined.toList =
      above ++ continuedLines marker (piece :: pieces) ++ below) :
    ∃ u, parse joined path commit = .ok (.ok u) ∧ u.unnumbered = t.unnumbered := by
  obtain ⟨st, listed, first⟩ := exists_statement_of_parse parsed (i := i) (by rw [own]; simp)
  rw [own] at first
  obtain ⟨waits, remark⟩ := begins_of_first split listed first
  have noRemark : marker ≠ '\\' := by
    rintro rfl
    exact remark (by simp [Text.startsWith, Text.after?])
  have whole : '\n' ∉ content := by
    intro newline
    have inside : marker :: content ∈ Text.lines text.toList := by simp [split]
    exact Text.newline_not_mem_of_mem_lines inside (List.mem_cons_of_mem marker newline)
  have wholeToo : ∀ p ∈ piece :: pieces, '\n' ∉ p := by
    intro p member newline
    obtain ⟨line, standing, subset⟩ := subset_of_mem_continuedLines marker member
    have inside : line ∈ Text.lines joined.toList := by simp [splitToo, standing]
    exact Text.newline_not_mem_of_mem_lines inside (subset newline)
  refine exists_parse_of_alike ?_ parsed
  rw [List.append_assoc] at splitToo
  rw [Outline.ofText_eq_append split, Outline.ofText_eq_append splitToo, waits]
  exact (Outline.Alike.refl _).append
    (outline_alike_continued noRemark whole quoteless complete wholeToo keyword cut _ _ below)

/-- A guard that is cut inside of a comment. -/
theorem parse_continued_comment :
    ∃ t u, parse "+#if A /* a b */ && B\n+x\n+#endif\n" "f" "c" = .ok (.ok t) ∧
      parse "+#if A /* a \\\n+b */ && \\\n+ B\n+x\n+#endif\n" "f" "c" = .ok (.ok u) ∧
      (t.node 1).label = "A && B" ∧ u.unnumbered = t.unnumbered := by
  have parses : parsesTo "+#if A /* a b */ && B\n+x\n+#endif\n" "f" "c" (fun t =>
      (t.node 1).label = "A && B" && (t.node 1).lines = ⟨1, 1⟩) := by decide +kernel
  obtain ⟨t, parsed, facts⟩ := exists_of_parsesTo parses
  simp only [Bool.and_eq_true, decide_eq_true_eq] at facts
  obtain ⟨label, own⟩ := facts
  have split : Text.lines "+#if A /* a b */ && B\n+x\n+#endif\n".toList =
      [] ++ ('+' :: "#if A /* a b */ && B".toList) :: ["+x".toList, "+#endif".toList] := by
    decide +kernel
  have splitToo : Text.lines "+#if A /* a \\\n+b */ && \\\n+ B\n+x\n+#endif\n".toList =
      [] ++ continuedLines '+' ["#if A /* a".toList, "b */ &&".toList, " B".toList] ++
        ["+x".toList, "+#endif".toList] := by decide +kernel
  obtain ⟨u, parsedToo, same⟩ := parse_continued parsed split own (by decide +kernel)
    (by decide +kernel) (by decide +kernel) (by decide +kernel) splitToo
  exact ⟨t, u, parsed, parsedToo, label, same⟩

end Patch

end Variability
