import Variability.LineGraph.Writer
import Variability.Proofs.HunkRange
import Variability.Proofs.Tree.Flawless

/-!
Labels that are written and read again. A node label brings back the edit, the kind and, in the
labeled format, the text of its node, less a carriage return at the end of the line; a tree label
brings back the source that it was made of.
-/

namespace Variability

namespace LineGraph

open Text (dropReturn fields)

/-- A source whose label can be read again: nothing in the path or the commit looks like a
separator or the end of a line, and the hunk is made of words. -/
structure Writable (source : Source) : Prop where
  path_mark : '$' ∉ source.path.toList
  path_line : '\n' ∉ source.path.toList
  commit_mark : '$' ∉ source.commit.toList
  commit_line : '\n' ∉ source.commit.toList
  commit_end : source.commit.toList.getLast? ≠ some '\r'
  hunk : ∀ range ∈ source.hunk, range.InWords

theorem fields_sourceMark {left : List Char} (absent : '$' ∉ left) (count : Nat)
    (right : List Char) :
    fields sourceMark (count + 1) (left ++ sourceMark ++ right) =
      left :: fields sourceMark count right := by
  have cut : Text.cut? sourceMark (left ++ sourceMark ++ right) = some (left, right) :=
    Text.cut?_append absent ['$', '$'] right
  rw [fields, cut]

theorem fields_of_unmarked {cs : List Char} (absent : '$' ∉ cs) (count : Nat) :
    fields sourceMark count cs = [cs] := by
  cases count with
  | zero => rfl
  | succ count =>
      have uncut : Text.cut? sourceMark cs = none := Text.cut?_eq_none absent ['$', '$']
      rw [fields, uncut]

namespace Writable

variable {source : Source} (writable : Writable source)
include writable

theorem fields_printSource :
    fields sourceMark 2 (printSource source) =
      source.path.toList :: source.commit.toList ::
        source.hunk.elim [] fun range => [range.print] := by
  obtain ⟨path, commit, hunk⟩ := source
  cases hunk with
  | none =>
      rw [printSource, Option.elim_none, List.append_nil, fields_sourceMark writable.path_mark,
        fields_of_unmarked writable.commit_mark]
      rfl
  | some range =>
      have unmarked : '$' ∉ range.print := HunkRange.not_mem_print (by decide) (by decide)
      rw [printSource, Option.elim_some, List.append_assoc,
        fields_sourceMark writable.path_mark, ← List.append_assoc,
        fields_sourceMark writable.commit_mark, fields_of_unmarked unmarked]
      rfl

theorem readSource_printSource : readSource (printSource source) = source := by
  obtain ⟨path, commit, hunk⟩ := source
  rw [readSource, writable.fields_printSource]
  cases hunk with
  | none => simp
  | some range => simp [HunkRange.read?_print (writable.hunk range rfl)]

theorem getLast?_printSource : (printSource source).getLast? ≠ some '\r' := by
  obtain ⟨path, commit, hunk⟩ := source
  cases hunk with
  | none =>
      rw [printSource, Option.elim_none, List.append_nil]
      cases ending : commit.toList with
      | nil => simp [sourceMark]
      | cons c cs =>
          rw [List.getLast?_append_of_ne_nil _ (by simp), ← ending]
          exact writable.commit_end
  | some range =>
      obtain ⟨c, last, digit⟩ := range.getLast?_print
      rw [printSource, Option.elim_some, ← List.append_assoc,
        List.getLast?_append_of_ne_nil _ (by rintro empty; simp [empty] at last), last]
      rintro same
      obtain rfl := Option.some.inj same
      simp at digit

theorem newline_not_mem_printSource : '\n' ∉ printSource source := by
  obtain ⟨path, commit, hunk⟩ := source
  have line := writable.path_line
  have lineToo := writable.commit_line
  cases hunk with
  | none => simp_all [printSource, sourceMark]
  | some range =>
      have plain : '\n' ∉ range.print := HunkRange.not_mem_print (by decide) (by decide)
      simp_all [printSource, sourceMark]

end Writable

/-- A label with a separator in it tells the same source when it is written from that source. -/
theorem readSource_printSource_readSource {label : List Char}
    (separated : sourceMark <:+: label) :
    readSource (printSource (readSource label)) = readSource label := by
  obtain ⟨path, rest, cut⟩ := Text.exists_cut?_of_infix separated
  have again (rest : List Char) : fields sourceMark 2 (path ++ sourceMark ++ rest) =
      path :: fields sourceMark 1 rest := by
    rw [fields, Text.cut?_behind cut]
  have parts : fields sourceMark 2 label = path :: fields sourceMark 1 rest := by
    rw [fields, cut]
  cases cutToo : Text.cut? sourceMark rest with
  | none =>
      have last : fields sourceMark 1 rest = [rest] := by rw [fields, cutToo]
      have source : readSource label = ⟨String.ofList path, String.ofList rest, none⟩ := by
        rw [readSource, parts, last]
        rfl
      rw [source, readSource, printSource]
      simp only [String.toList_ofList, Option.elim_none, List.append_nil, again, last]
      rfl
  | some more =>
      obtain ⟨commit, hunk⟩ := more
      have last : fields sourceMark 1 rest = [commit, hunk] := by
        rw [fields, cutToo]
        rfl
      have source : readSource label =
          ⟨String.ofList path, String.ofList commit, HunkRange.read? hunk⟩ := by
        rw [readSource, parts, last]
        rfl
      rw [source, readSource, printSource]
      cases read : HunkRange.read? hunk with
      | none =>
          have alone : fields sourceMark 1 commit = [commit] := by
            rw [fields, Text.cut?_left_eq_none (by decide) cutToo]
          simp only [String.toList_ofList, Option.elim_none, List.append_nil, again, alone]
          rfl
      | some range =>
          have both : fields sourceMark 1 (commit ++ sourceMark ++ range.print) =
              [commit, range.print] := by
            rw [fields, Text.cut?_behind cutToo]
            rfl
          simp only [String.toList_ofList, Option.elim_some, List.append_assoc] at again both ⊢
          rw [again, both]
          simp [HunkRange.read?_print (HunkRange.inWords_of_read? read)]

/-- Writing a source puts nothing between the parts of its label but separators and a hunk. -/
theorem not_mem_printSource_readSource {c : Char} {label : List Char} (absent : c ∉ label)
    (unmarked : c ∉ sourceMark) (digit : c.isDigit = false) (other : c ∉ ['-', '+', ',', ' ']) :
    c ∉ printSource (readSource label) := by
  have part (i : Nat) : c ∉ (fields sourceMark 2 label)[i]?.getD [] :=
    fun member => absent (Text.getD_fields_subset sourceMark 2 i label member)
  have hunk (range : HunkRange) : c ∉ range.print := HunkRange.not_mem_print digit other
  rw [printSource, readSource]
  simp only [String.toList_ofList]
  cases (fields sourceMark 2 label)[2]?.bind HunkRange.read? <;>
    simp only [Option.elim_none, Option.elim_some, List.mem_append, not_or] <;>
    simp [part, hunk, unmarked]

namespace NodeFormat

/-- What a node is once it is written and read again. -/
def reread (format : NodeFormat) (n : Node) : Node :=
  match format with
  | labeled =>
    let text := dropReturn n.label.toList
    { n with
      label := String.ofList text
      guard := (readGuard n.kind text).toOption.join
      lines := ⟨0, 0⟩ }
  | typeOnly => n.frame

/-- Text that is written stays on its line, and the guard in it can be read again. -/
def Readable (format : NodeFormat) (n : Node) : Prop :=
  format = labeled →
    '\n' ∉ n.label.toList ∧ ∃ guard, readGuard n.kind (dropReturn n.label.toList) = .ok guard

@[simp] theorem frame_reread (format : NodeFormat) (n : Node) :
    (format.reread n).frame = n.frame := by
  cases format <;> rfl

@[simp] theorem id_reread (format : NodeFormat) (n : Node) : (format.reread n).id = n.id := by
  cases format <;> rfl

@[simp] theorem parent_reread (format : NodeFormat) (n : Node) (s : Side) :
    (format.reread n).parent s = n.parent s := by
  cases format <;> cases s <;> rfl

@[simp] theorem children_reread (format : NodeFormat) (n : Node) (s : Side) :
    (format.reread n).children s = n.children s := by
  cases format <;> cases s <;> rfl

theorem underscore_not_mem_edit (e : Edit) : '_' ∉ e.token.toList := by
  cases e <;> decide

theorem underscore_not_mem_kind (k : NodeKind) : '_' ∉ k.token.toList := by
  cases k <;> decide

theorem fields_underscore {left : List Char} (absent : '_' ∉ left) (count : Nat)
    (right : List Char) :
    fields ['_'] (count + 1) (left ++ '_' :: right) = left :: fields ['_'] count right := by
  have cut := Text.cut?_append absent [] right
  rw [List.append_assoc, List.singleton_append] at cut
  rw [fields, cut]

theorem fields_types (n : Node) :
    fields ['_'] 2 (types n) = [n.edit.token.toList, n.kind.token.toList] := by
  have last : fields ['_'] 1 n.kind.token.toList = [n.kind.token.toList] := by
    rw [fields, Text.cut?_eq_none (underscore_not_mem_kind n.kind)]
  rw [types, fields_underscore (underscore_not_mem_edit n.edit), last]

theorem fields_types_append (n : Node) (text : List Char) :
    fields ['_'] 2 (types n ++ '_' :: text) =
      [n.edit.token.toList, n.kind.token.toList, text] := by
  rw [types, List.append_assoc, List.cons_append,
    fields_underscore (underscore_not_mem_edit n.edit),
    fields_underscore (underscore_not_mem_kind n.kind), fields]

theorem readTypes_token (e : Edit) (k : NodeKind) :
    readTypes e.token.toList k.token.toList = .ok (e, k) := by
  simp [readTypes]

theorem getLast?_types (n : Node) : (types n).getLast? ≠ some '\r' := by
  rw [types]
  cases n.kind <;> simp [NodeKind.token]

theorem newline_not_mem_types (n : Node) : '\n' ∉ types n := by
  rw [types]
  cases n.edit <;> cases n.kind <;> simp [NodeKind.token, Edit.token]

/-- The parts of a label, less a carriage return at its end. -/
theorem fields_dropReturn_print (n : Node) :
    fields ['_'] 2 (dropReturn (print labeled n)) =
      n.edit.token.toList :: n.kind.token.toList ::
        if n.label.isEmpty then [] else [dropReturn n.label.toList] := by
  rw [print]
  split
  · rw [Text.dropReturn_eq_self_iff.mpr (getLast?_types n), fields_types]
  · next nonempty =>
    have written : n.label.toList ≠ [] := by simpa using nonempty
    rw [List.append_cons, Text.dropReturn_append _ written, ← List.append_cons,
      fields_types_append]

theorem read_print {format : NodeFormat} {n : Node} (readable : format.Readable n) :
    format.read n.id (dropReturn (format.print n)) = .ok (format.reread n).bare := by
  cases format with
  | typeOnly =>
      rw [print, Text.dropReturn_eq_self_iff.mpr (getLast?_types n), read, fields_types]
      simp only [List.getElem?_cons_zero, List.getElem?_cons_succ, Option.getD_some,
        readTypes_token]
      rfl
  | labeled =>
      obtain ⟨-, guard, readGuard⟩ := readable rfl
      have text : (if n.label.isEmpty then [] else [dropReturn n.label.toList])[0]?.getD [] =
          dropReturn n.label.toList := by
        split
        · next empty => simp [String.isEmpty_iff.mp empty, dropReturn]
        · rfl
      rw [read, fields_dropReturn_print]
      simp only [List.getElem?_cons_zero, List.getElem?_cons_succ, Option.getD_some,
        readTypes_token, text, readGuard]
      rw [reread, readGuard]
      rfl

theorem newline_not_mem_print {format : NodeFormat} {n : Node} (readable : format.Readable n) :
    '\n' ∉ format.print n := by
  have types := newline_not_mem_types n
  cases format with
  | typeOnly => exact types
  | labeled =>
      have line := (readable rfl).1
      rw [print]
      split <;> simp [types, line]

theorem print_ne_nil (format : NodeFormat) (n : Node) : format.print n ≠ [] := by
  cases format with
  | typeOnly => simp [print, types]
  | labeled =>
      rw [print]
      split <;> simp [types]

/-- A node that was read off a line is written so that it is read as the same node. -/
theorem reread_of_read {format : NodeFormat} {id : Nat} {label : List Char} {n : Node}
    (read : format.read id label = .ok n) (line : '\n' ∉ label) (returnless : '\r' ∉ label) :
    format.Readable n ∧ format.reread n = n := by
  have part := Text.getD_fields_subset ['_'] 2 2 label
  simp only [NodeFormat.read] at read
  generalize (fields ['_'] 2 label)[2]?.getD [] = text at part read
  split at read
  · cases read
  · next edit kind _ =>
    cases format with
    | typeOnly =>
        obtain rfl := Except.ok.inj read
        exact ⟨nofun, rfl⟩
    | labeled =>
        simp only at read
        split at read
        · cases read
        · next guard decoded =>
          obtain rfl := Except.ok.inj read
          have whole : dropReturn (String.ofList text).toList = text := by
            rw [String.toList_ofList, Text.dropReturn_eq_self_iff]
            exact fun last => returnless (part (List.mem_of_getLast? last))
          have newline : '\n' ∉ (String.ofList text).toList := by
            rw [String.toList_ofList]
            exact fun newline => line (part newline)
          have again : readGuard kind (dropReturn (String.ofList text).toList) = .ok guard := by
            rw [whole, decoded]
          refine ⟨fun _ => ⟨newline, guard, again⟩, ?_⟩
          simp only [reread, Node.fresh, whole, decoded]
          rfl

end NodeFormat

end LineGraph

end Variability
