import Variability.Proofs.Patch.Bounds
import Variability.Proofs.Patch.Seam

/-!
The lines of a patch and the nodes of its tree. A patch is its skipped lines and, between them, the
lines of its entries, in the order of the text; so every line is skipped for a reason or belongs to
exactly one node, and the nodes stand in the order of their lines.
-/

namespace Variability

/-- Line `n` is one of the lines of a span. -/
def LineSpan.Contains (span : LineSpan) (n : Nat) : Prop :=
  span.first ≤ n ∧ n ≤ span.last

namespace Patch

open Text (startsWith)

theorem Entry.ofText_code {edit : Edit} {lines : LineSpan} {text : List Char} {e : Entry}
    (read : Entry.ofText edit lines text = .ok e) (code : e.kind = .code) :
    e.label = String.ofList text ∧ ¬ Directive.isDirective text := by
  unfold ofText at read
  cases found : Directive.ofLine text with
  | error err => simp [found, Except.map] at read
  | ok directive =>
      rw [found] at read
      obtain _ | directive := directive
      · cases read
        refine ⟨rfl, fun directive => ?_⟩
        obtain ⟨⟨keyword, rest⟩, split⟩ := Option.isSome_iff_exists.mp directive
        simp only [Directive.ofLine, split] at found
        cases readAs : keyword.read rest <;> simp [readAs, Except.map] at found
      · have isDirective := (Directive.ofLine_ok found).1
        have kind : e.kind = directive.kind := by
          obtain ⟨kind, _ | guard⟩ := directive <;> cases read <;> rfl
        rw [← kind, code] at isDirective
        cases isDirective

/-- A statement and the lines that it consists of, from number `n` on. -/
structure Statement.Spans (st : Statement) (n : Nat) (block : List (List Char)) : Prop where
  first : st.lines.first = n
  behind : st.lines.last + 1 = n + block.length
  edits : block.map (fun line => (splitMarker line).1) = st.edit :: st.continuations
  text : Directive.isDirective st.text ∨ ∃ line, block = [line] ∧ st.text = (splitMarker line).2

theorem Statement.spans_single (n : Nat) (line : List Char) :
    (Statement.single n line).Spans n [line] :=
  ⟨rfl, rfl, rfl, .inr ⟨line, rfl, rfl⟩⟩

theorem Statement.Spans.join {st : Statement} {n : Nat} {block : List (List Char)}
    (spans : st.Spans n block) (asks : st.Asks) {line : List Char} (whole : '\n' ∉ line) :
    (st.join (n + block.length) line).Spans n (block ++ [line]) where
  first := spans.first
  behind := by simp [Statement.join, Nat.add_assoc]
  edits := by rw [List.map_append, spans.edits]; rfl
  text := .inl (asks.isDirective_join _ whole)

/-- An entry and the lines that it was made of, from number `n` on. -/
structure Entry.Spans (e : Entry) (n : Nat) (block : List (List Char)) : Prop where
  written : block ≠ []
  first : e.lines.first = n
  behind : e.lines.last + 1 = n + block.length
  edit : ∀ line ∈ block, (splitMarker line).1 = e.edit
  code : e.kind = .code → ∃ line, block = [line] ∧ e.label = String.ofList (splitMarker line).2

theorem Statement.Spans.entry {st : Statement} {n : Nat} {block : List (List Char)}
    (spans : st.Spans n block) (uniform : st.Uniform) (readable : st.Readable) :
    ∃ e, st.line? = some e ∧ e.Spans n block := by
  obtain ⟨e, read⟩ := Statement.readable_iff.mp readable
  have lines : e.lines = st.lines := Entry.ofText_lines read
  refine ⟨e, Statement.line?_eq read, ?_, lines ▸ spans.first, lines ▸ spans.behind, ?_, ?_⟩
  · rintro rfl
    cases spans.edits
  · intro line member
    have listed : (splitMarker line).1 ∈ st.edit :: st.continuations :=
      spans.edits ▸ List.mem_map_of_mem member
    rw [Entry.ofText_edit read]
    rcases List.mem_cons.mp listed with same | further
    · exact same
    · exact uniform _ further
  · intro code
    obtain ⟨label, noDirective⟩ := Entry.ofText_code read code
    rcases spans.text with directive | ⟨line, alone, text⟩
    · exact absurd directive noDirective
    · exact ⟨line, alone, by rw [label, text]⟩

/-- Lines that make no node. -/
def Skipped (inHunk : Bool) (line : List Char) : Prop :=
  startsWith ['@', '@'] line ∨ startsWith ['\\'] line ∨ inHunk = false ∧ isFileHeader line

/-- The lines from number `n` on are skipped lines and the lines of these entries, in order. A
header that can be read starts the hunks. -/
inductive Divides : (inHunk : Bool) → (n : Nat) → List (List Char) → List Entry → Prop where
  | done {inHunk : Bool} {n : Nat} : Divides inHunk n [] []
  | skip {inHunk : Bool} {n : Nat} {line : List Char} {rest : List (List Char)} {es : List Entry}
      (skipped : Skipped inHunk line)
      (below : Divides (inHunk || (HunkRange.ofHeader? line).isSome) (n + 1) rest es) :
      Divides inHunk n (line :: rest) es
  | entry {inHunk : Bool} {n : Nat} {block rest : List (List Char)} {e : Entry} {es : List Entry}
      (spans : e.Spans n block) (below : Divides inHunk (n + block.length) rest es) :
      Divides inHunk n (block ++ rest) (e :: es)

/-- What a line that continues nothing gives to the statements of an outline. -/
inductive FirstLine (inHunk : Bool) (n : Nat) (line : List Char) (rest : List (List Char)) :
    List Statement → Prop where
  | skipped (skipped : Skipped inHunk line) :
      FirstLine inHunk n line rest
        (outline (inHunk || (HunkRange.ofHeader? line).isSome) (n + 1) none rest).statements
  | opens (asks : (Statement.single n line).Asks) :
      FirstLine inHunk n line rest
        (outline inHunk (n + 1) (some (.single n line)) rest).statements
  | alone :
      FirstLine inHunk n line rest
        (.single n line :: (outline inHunk (n + 1) none rest).statements)

theorem firstLine_outline (inHunk : Bool) (n : Nat) (line : List Char) (rest : List (List Char)) :
    FirstLine inHunk n line rest (outline inHunk n none (line :: rest)).statements := by
  have other (skipped : Skipped inHunk line) (unread : HunkRange.ofHeader? line = none) :
      FirstLine inHunk n line rest (outline inHunk (n + 1) none rest).statements := by
    have skips : FirstLine inHunk n line rest _ := .skipped skipped
    rwa [unread, Option.isSome_none, Bool.or_false] at skips
  rw [outline_line]
  split
  · next header =>
    cases range : HunkRange.ofHeader? line with
    | none => exact other (.inl header) range
    | some hunk =>
        have skips : FirstLine inHunk n line rest _ := .skipped (.inl header)
        rwa [range, Option.isSome_some, Bool.or_true] at skips
  · next noHeader =>
    have unread : HunkRange.ofHeader? line = none := by
      rw [Option.eq_none_iff_forall_ne_some]
      exact fun range header => noHeader (Remarking.startsWith_of_ofHeader? header)
    split
    · next marker => exact other (.inr (.inl marker)) unread
    · split
      · next file =>
        rw [Bool.and_eq_true, Bool.not_eq_true'] at file
        exact other (.inr (.inr file)) unread
      · split
        · next more =>
          rw [Bool.and_eq_true] at more
          exact .opens ⟨more.1, more.2⟩
        · exact .alone

/-- The lines before an outline, when a statement is being continued. -/
inductive Pending : Option Statement → (first n : Nat) → List (List Char) → Prop where
  | none {n : Nat} : Pending none n n []
  | some {st : Statement} {first : Nat} {block : List (List Char)} (spans : st.Spans first block)
      (asks : st.Asks) : Pending (some st) first (first + block.length) block

/-- A statement that ends and the entries behind it. -/
theorem Divides.statement {inHunk : Bool} {n : Nat} {st : Statement} {sts : List Statement}
    {block rest : List (List Char)} (spans : st.Spans n block)
    (sound : ∀ other ∈ st :: sts, other.Uniform ∧ other.Readable)
    (below : (∀ other ∈ sts, other.Uniform ∧ other.Readable) →
      Divides inHunk (n + block.length) rest (sts.filterMap (·.line?))) :
    Divides inHunk n (block ++ rest) ((st :: sts).filterMap (·.line?)) := by
  obtain ⟨⟨uniform, readable⟩, soundRest⟩ := List.forall_mem_cons.mp sound
  obtain ⟨e, made, spansEntry⟩ := spans.entry uniform readable
  rw [List.filterMap_cons_some made]
  exact .entry spansEntry (below soundRest)

theorem divides_outline {inHunk : Bool} {first n : Nat} {opened : Option Statement}
    {block lines : List (List Char)} (pending : Pending opened first n block)
    (whole : ∀ line ∈ lines, '\n' ∉ line)
    (sound : ∀ st ∈ (outline inHunk n opened lines).statements, st.Uniform ∧ st.Readable) :
    Divides inHunk first (block ++ lines)
      ((outline inHunk n opened lines).statements.filterMap (·.line?)) := by
  induction lines generalizing inHunk first n opened block with
  | nil =>
      cases pending with
      | none => exact .done
      | some spans asks => exact .statement spans sound fun _ => .done
  | cons line rest ih =>
      obtain ⟨wholeLine, wholeRest⟩ := List.forall_mem_cons.mp whole
      cases pending with
      | none =>
          have reads := firstLine_outline inHunk first line rest
          generalize (outline inHunk first none (line :: rest)).statements = sts at *
          have single := Statement.spans_single first line
          cases reads with
          | skipped skipped => exact .skip skipped (ih .none wholeRest sound)
          | opens asks => exact ih (.some single asks) wholeRest sound
          | alone =>
              have ends := Divides.statement single sound (ih .none wholeRest)
              exact ends
      | some spans asks =>
          have joined := spans.join asks wholeLine
          have behind : first + block.length + 1 = first + (block ++ [line]).length := by
            simp [Nat.add_assoc]
          rw [outline_continuation, behind] at sound ⊢
          rw [List.append_cons]
          split at sound
          · next more =>
            rw [if_pos more]
            exact ih (.some joined ⟨asks.isDirective_join _ wholeLine, more⟩) wholeRest sound
          · next alone =>
            rw [if_neg alone]
            exact .statement joined sound (ih .none wholeRest)

namespace Entry.Spans

variable {e : Entry} {n : Nat} {block : List (List Char)} (spans : e.Spans n block)
include spans

theorem contains_iff {k : Nat} : e.lines.Contains (n + k) ↔ k < block.length := by
  have first := spans.first
  have behind := spans.behind
  unfold LineSpan.Contains
  omega

theorem ordered : e.lines.first ≤ e.lines.last := by
  have inside := (spans.contains_iff (k := 0)).mpr (List.length_pos_iff.mpr spans.written)
  exact inside.1.trans inside.2

end Entry.Spans

namespace Divides

variable {inHunk : Bool} {n : Nat} {lines : List (List Char)} {es : List Entry}
  (divides : Divides inHunk n lines es)
include divides

theorem within : ∀ e ∈ es, n ≤ e.lines.first ∧ e.lines.last < n + lines.length := by
  induction divides with
  | done => simp
  | skip _ _ ih =>
      intro e member
      have := ih e member
      rw [List.length_cons]
      omega
  | entry spans _ ih =>
      rw [List.length_append]
      refine List.forall_mem_cons.mpr ⟨?_, fun e member => ?_⟩
      · have first := spans.first
        have behind := spans.behind
        omega
      · have := ih e member
        omega

theorem ascending : es.Pairwise fun e f => e.lines.last < f.lines.first := by
  induction divides with
  | done => exact .nil
  | skip _ _ ih => exact ih
  | entry spans below ih =>
      refine .cons (fun f member => ?_) ih
      have behind := spans.behind
      have := (below.within f member).1
      omega

/-- The lines of an entry stand in the text where its span says. -/
theorem exists_block : ∀ e ∈ es,
    ∃ block, e.Spans e.lines.first block ∧ block <+: lines.drop (e.lines.first - n) := by
  induction divides with
  | done => simp
  | @skip inHunk n line rest es _ below ih =>
      intro e member
      obtain ⟨block, spans, stands⟩ := ih e member
      refine ⟨block, spans, ?_⟩
      have := (below.within e member).1
      rwa [show e.lines.first - n = e.lines.first - (n + 1) + 1 by omega, List.drop_succ_cons]
  | @entry inHunk n block rest e es spans below ih =>
      refine List.forall_mem_cons.mpr ⟨⟨block, spans.first.symm ▸ spans, ?_⟩, fun f member => ?_⟩
      · rw [spans.first, Nat.sub_self, List.drop_zero]
        exact List.prefix_append block rest
      · obtain ⟨part, spansPart, stands⟩ := ih f member
        refine ⟨part, spansPart, ?_⟩
        have := (below.within f member).1
        rwa [show f.lines.first - n = block.length + (f.lines.first - (n + block.length)) by omega,
          List.drop_length_add_append]

theorem exists_line {e : Entry} (member : e ∈ es) {k : Nat}
    (contains : e.lines.Contains (n + k)) :
    ∃ line, lines[k]? = some line ∧ (splitMarker line).1 = e.edit := by
  obtain ⟨block, spans, before, behind⟩ := divides.exists_block e member
  obtain ⟨i, same⟩ := Nat.exists_eq_add_of_le contains.1
  rw [same, spans.contains_iff] at contains
  have first := (divides.within e member).1
  have place : k = e.lines.first - n + i := by omega
  refine ⟨block[i], ?_, spans.edit _ (List.getElem_mem contains)⟩
  rw [place, ← List.getElem?_drop, ← behind, List.getElem?_append_left contains,
    List.getElem?_eq_getElem contains]

theorem exists_code_line {e : Entry} (member : e ∈ es) (code : e.kind = .code) :
    ∃ k line, e.lines = ⟨n + k, n + k⟩ ∧ lines[k]? = some line ∧
      e.edit = (splitMarker line).1 ∧ e.label = String.ofList (splitMarker line).2 := by
  obtain ⟨block, spans, before, behind⟩ := divides.exists_block e member
  obtain ⟨line, rfl, label⟩ := spans.code code
  obtain ⟨k, first⟩ := Nat.exists_eq_add_of_le (divides.within e member).1
  have last : e.lines.last = n + k := Nat.succ.inj (first ▸ spans.behind)
  refine ⟨k, line, ?_, ?_, (spans.edit line (by simp)).symm, label⟩
  · rw [show e.lines = ⟨e.lines.first, e.lines.last⟩ from rfl, first, last]
  · have stands : (lines.drop k)[0]? = some line := by
      rw [show k = e.lines.first - n by omega, ← behind]
      rfl
    rwa [List.getElem?_drop] at stands

/-- A line that belongs to no entry was skipped, and as part of a file header only if no header of
a hunk was read before. -/
theorem skipped_of_outside {k : Nat} {line : List Char} (listed : lines[k]? = some line)
    (outside : ∀ e ∈ es, ¬ e.lines.Contains (n + k)) :
    startsWith ['@', '@'] line ∨ startsWith ['\\'] line ∨
      isFileHeader line ∧ inHunk = false ∧ ∀ j < k, ∀ header, lines[j]? = some header →
        (∀ e ∈ es, ¬ e.lines.Contains (n + j)) → HunkRange.ofHeader? header = none := by
  induction divides generalizing k with
  | done => simp at listed
  | @skip inHunk n first rest es skipped _ ih =>
      cases k with
      | zero =>
          obtain rfl : first = line := by simpa using listed
          rcases skipped with header | marker | ⟨noHunk, file⟩
          · exact .inl header
          · exact .inr (.inl marker)
          · exact .inr (.inr ⟨file, noHunk, by simp⟩)
      | succ k =>
          rw [List.getElem?_cons_succ] at listed
          rw [← Nat.succ_add_eq_add_succ] at outside
          refine (ih listed outside).imp_right (Or.imp_right ?_)
          rintro ⟨file, noHunk, noHeader⟩
          obtain ⟨noHunk, unread⟩ := Bool.or_eq_false_iff.mp noHunk
          refine ⟨file, noHunk, fun j before header listed outside => ?_⟩
          cases j with
          | zero =>
              obtain rfl : first = header := by simpa using listed
              simpa using unread
          | succ j =>
              rw [← Nat.succ_add_eq_add_succ] at outside
              exact noHeader j (Nat.lt_of_succ_lt_succ before) header listed outside
  | @entry inHunk n block rest e es spans _ ih =>
      -- a line outside the entry stands behind it
      have further {j : Nat} (outside : ∀ f ∈ e :: es, ¬ f.lines.Contains (n + j)) :
          ∃ i, j = block.length + i ∧ ∀ f ∈ es, ¬ f.lines.Contains (n + block.length + i) := by
        obtain ⟨alone, outside⟩ := List.forall_mem_cons.mp outside
        rw [spans.contains_iff, Nat.not_lt] at alone
        obtain ⟨i, rfl⟩ := Nat.exists_eq_add_of_le alone
        exact ⟨i, rfl, by rwa [Nat.add_assoc]⟩
      obtain ⟨k, rfl, outsideRest⟩ := further outside
      rw [List.getElem?_append_right (Nat.le_add_right _ _), Nat.add_sub_cancel_left] at listed
      refine (ih listed outsideRest).imp_right (Or.imp_right ?_)
      rintro ⟨file, noHunk, noHeader⟩
      refine ⟨file, noHunk, fun j before header listed outside => ?_⟩
      obtain ⟨j, rfl, outsideRest⟩ := further outside
      rw [List.getElem?_append_right (Nat.le_add_right _ _), Nat.add_sub_cancel_left] at listed
      exact noHeader j (Nat.lt_of_add_lt_add_left before) header listed outsideRest

end Divides

theorem divides_of_parse {text path commit : String} {t : Tree}
    (parsed : parse text path commit = .ok (.ok t)) :
    Divides false 1 (Text.lines text.toList) (entriesOf text) := by
  obtain ⟨built, hunk, -, ending, -⟩ := (Reading.toTree_ok_iff (entriesOf_proper text)).mp parsed
  obtain ⟨-, sound, entries⟩ := (read_ends_iff none (by simp) _).mp ⟨rfl, ending⟩
  have divides := divides_outline (Pending.none (n := 1))
    (fun line member => Text.newline_not_mem_of_mem_lines member) sound
  have same : entriesOf text =
      (outline false 1 none (Text.lines text.toList)).statements.filterMap (·.line?) := entries
  rwa [same]

/-- No node of a tree comes from line `n`; the root comes from none. -/
def Unowned (t : Tree) (n : Nat) : Prop :=
  ∀ i, 0 < i → i < t.size → ¬ (t.node i).lines.Contains n

/-- The lines of a patch, counted from 1, are accounted for by the nodes of its tree. -/
structure Accounted (lines : List (List Char)) (t : Tree) : Prop where
  rooted : 0 < t.size ∧ ∀ i < t.size, (t.node i).kind = .root ↔ i = 0
  numbered : ∀ i < t.size, (t.node i).id = i
  within : ∀ i, 0 < i → i < t.size →
    0 < (t.node i).lines.first ∧ (t.node i).lines.first ≤ (t.node i).lines.last ∧
      (t.node i).lines.last ≤ lines.length
  ascending : ∀ i j, 0 < i → i < j → j < t.size →
    (t.node i).lines.last < (t.node j).lines.first
  /-- A line of no node is a hunk header or a remark, or it describes the file and no hunk header
  that can be read comes before it, those apart that continue a directive. -/
  skipped : ∀ k line, lines[k]? = some line → Unowned t (k + 1) →
    startsWith ['@', '@'] line ∨ startsWith ['\\'] line ∨
      isFileHeader line ∧ ∀ j < k, ∀ header, lines[j]? = some header → Unowned t (j + 1) →
        HunkRange.ofHeader? header = none
  code : ∀ i < t.size, (t.node i).kind = .code →
    ∃ k line, (t.node i).lines = ⟨k + 1, k + 1⟩ ∧ lines[k]? = some line ∧
      (t.node i).edit = (splitMarker line).1 ∧
      (t.node i).label = String.ofList (splitMarker line).2
  marked : ∀ i, 0 < i → i < t.size → ∀ k, (t.node i).lines.Contains (k + 1) →
    ∃ line, lines[k]? = some line ∧ (splitMarker line).1 = (t.node i).edit

namespace Overlays

variable {t : Tree} {es : List Entry} (overlays : Overlays t es)
include overlays

theorem exists_entry {i : Nat} (behind : 0 < i) (inside : i < t.size) :
    ∃ k e, i = k + 1 ∧ es[k]? = some e ∧ e ∈ es := by
  obtain ⟨k, e, same, lookup⟩ := overlays.lookup inside (Nat.ne_of_gt behind)
  exact ⟨k, e, same, lookup, List.mem_of_getElem? lookup⟩

theorem lines_entry {k : Nat} {e : Entry} (lookup : es[k]? = some e) :
    (t.node (k + 1)).lines = e.lines :=
  congrArg Node.lines (overlays.entry lookup)

theorem unowned_iff {n : Nat} : Unowned t n ↔ ∀ e ∈ es, ¬ e.lines.Contains n := by
  constructor
  · intro unowned e member
    obtain ⟨k, lookup⟩ := List.getElem?_of_mem member
    have inside := (List.getElem?_eq_some_iff.mp lookup).1
    rw [← overlays.lines_entry lookup]
    exact unowned (k + 1) k.succ_pos (by rw [overlays.size]; omega)
  · intro outside i behind inside
    obtain ⟨k, e, rfl, lookup, member⟩ := overlays.exists_entry behind inside
    rw [overlays.lines_entry lookup]
    exact outside e member

section Lines

variable {lines : List (List Char)} (divides : Divides false 1 lines es)
include divides

theorem lines_within {i : Nat} (behind : 0 < i) (inside : i < t.size) :
    0 < (t.node i).lines.first ∧ (t.node i).lines.first ≤ (t.node i).lines.last ∧
      (t.node i).lines.last ≤ lines.length := by
  obtain ⟨k, e, rfl, lookup, member⟩ := overlays.exists_entry behind inside
  obtain ⟨block, spans, -⟩ := divides.exists_block e member
  have within := divides.within e member
  have ordered := spans.ordered
  rw [overlays.lines_entry lookup]
  omega

theorem lines_ascending {i j : Nat} (behind : 0 < i) (before : i < j) (inside : j < t.size) :
    (t.node i).lines.last < (t.node j).lines.first := by
  obtain ⟨k, e, rfl, lookup, -⟩ := overlays.exists_entry behind (Nat.lt_trans before inside)
  obtain ⟨l, f, rfl, lookupToo, -⟩ :=
    overlays.exists_entry (Nat.lt_trans behind before) inside
  rw [overlays.lines_entry lookup, overlays.lines_entry lookupToo]
  obtain ⟨insideEntries, rfl⟩ := List.getElem?_eq_some_iff.mp lookup
  obtain ⟨insideToo, rfl⟩ := List.getElem?_eq_some_iff.mp lookupToo
  exact List.pairwise_iff_getElem.mp divides.ascending k l insideEntries insideToo
    (Nat.lt_of_succ_lt_succ before)

theorem skipped_of_unowned {k : Nat} {line : List Char} (listed : lines[k]? = some line)
    (unowned : Unowned t (k + 1)) :
    startsWith ['@', '@'] line ∨ startsWith ['\\'] line ∨
      isFileHeader line ∧ ∀ j < k, ∀ header, lines[j]? = some header → Unowned t (j + 1) →
        HunkRange.ofHeader? header = none := by
  rw [overlays.unowned_iff, Nat.add_comm] at unowned
  refine (divides.skipped_of_outside listed unowned).imp_right (Or.imp_right ?_)
  rintro ⟨file, -, noHeader⟩
  refine ⟨file, fun j before header listed unowned => ?_⟩
  rw [overlays.unowned_iff, Nat.add_comm] at unowned
  exact noHeader j before header listed unowned

theorem code_line {i : Nat} (inside : i < t.size) (code : (t.node i).kind = .code) :
    ∃ k line, (t.node i).lines = ⟨k + 1, k + 1⟩ ∧ lines[k]? = some line ∧
      (t.node i).edit = (splitMarker line).1 ∧
      (t.node i).label = String.ofList (splitMarker line).2 := by
  have behind : 0 < i := by
    rw [Nat.pos_iff_ne_zero]
    rintro rfl
    rw [overlays.kind_root] at code
    cases code
  obtain ⟨k, e, rfl, lookup, member⟩ := overlays.exists_entry behind inside
  rw [overlays.kind_entry lookup] at code
  obtain ⟨n, line, lines, listed, edit, label⟩ := divides.exists_code_line member code
  have node := overlays.entry lookup
  refine ⟨n, line, ?_, listed, ?_, ?_⟩
  · rw [overlays.lines_entry lookup, lines, Nat.add_comm]
  · exact (congrArg Node.edit node).trans edit
  · exact (congrArg Node.label node).trans label

theorem marked_line {i : Nat} (behind : 0 < i) (inside : i < t.size) {k : Nat}
    (contains : (t.node i).lines.Contains (k + 1)) :
    ∃ line, lines[k]? = some line ∧ (splitMarker line).1 = (t.node i).edit := by
  obtain ⟨l, e, rfl, lookup, member⟩ := overlays.exists_entry behind inside
  rw [overlays.lines_entry lookup, Nat.add_comm] at contains
  obtain ⟨line, listed, edit⟩ := divides.exists_line member contains
  exact ⟨line, listed, edit.trans (congrArg Node.edit (overlays.entry lookup)).symm⟩

end Lines

end Overlays

/-- Parsing neither loses nor duplicates a line. -/
theorem lines_accounted {text path commit : String} {t : Tree}
    (parsed : parse text path commit = .ok (.ok t)) :
    Accounted (Text.lines text.toList) t := by
  have accepted := accepted_of_parse parsed
  have divides := divides_of_parse parsed
  have overlays := accepted.overlays
  exact {
    rooted := ⟨by simp [overlays.size], fun i _ => accepted.kind_eq_root_iff⟩
    numbered := fun i => overlays.id_eq
    within := fun i => overlays.lines_within divides
    ascending := fun i j => overlays.lines_ascending divides
    skipped := fun k line => overlays.skipped_of_unowned divides
    code := fun i => overlays.code_line divides
    marked := fun i behind inside k => overlays.marked_line divides behind inside }

theorem lines_accounted_continued :
    ∃ t, parse "--- a\n #if A \\\n@@ -1 +1 @@\n--- b\n@@ -1 +1 @@\n+x\n #endif\n\\ end"
        "f" "c" = .ok (.ok t) ∧ (t.node 1).lines = ⟨2, 3⟩ ∧
      Accounted ["--- a".toList, " #if A \\".toList, "@@ -1 +1 @@".toList, "--- b".toList,
        "@@ -1 +1 @@".toList, "+x".toList, " #endif".toList, "\\ end".toList] t := by
  have parses : parsesTo
      "--- a\n #if A \\\n@@ -1 +1 @@\n--- b\n@@ -1 +1 @@\n+x\n #endif\n\\ end" "f" "c"
      (fun t => (t.node 1).lines = ⟨2, 3⟩) := by decide +kernel
  obtain ⟨t, parsed, lines⟩ := exists_of_parsesTo parses
  exact ⟨t, parsed, of_decide_eq_true lines, lines_accounted parsed⟩

end Patch

end Variability
