import Mathlib.Data.List.DropRight
import Variability.Proofs.MiningResult.Append
import Variability.Proofs.MiningResult.Snapshot

/-!
Failures that are recorded and read back. A message goes into a result on one line, which nothing in
it can end early. Every line of the message leaves what it has between its blanks, and a blank
before it, also one that has nothing. So a message of several lines of which the last is blank ends
in a blank on its one line, and that blank does not come back from a snapshot.
-/

namespace Variability

namespace Text

theorem trimEnd_trim (cs : List Char) : trimEnd (trim cs) = trim cs :=
  List.rdropWhile_idempotent isBlank (trimStart cs)

theorem trim_eq_nil_iff {cs : List Char} : trim cs = [] ↔ cs.all isBlank := by
  have start : trim cs = [] ↔ ∀ c ∈ trimStart cs, isBlank c :=
    List.rdropWhile_eq_nil_iff (p := isBlank) (l := trimStart cs)
  rw [start, List.all_eq_true, trimStart]
  refine ⟨fun blank => List.dropWhile_eq_nil_iff.mp ?_, fun blank c member =>
    blank c ((List.dropWhile_sublist isBlank).subset member)⟩
  by_contra visible
  have head := List.head_dropWhile_not isBlank visible
  rw [blank _ (List.head_mem visible)] at head
  cases head

end Text

namespace KeyMap

variable {α : Type}

theorem mem_insert {m : KeyMap α} {k : String} {v : α} {e : String × α}
    (member : e ∈ (m.insert k v).entries) : e = (k, v) ∨ e ∈ m.entries := by
  obtain ⟨es, ascending⟩ := m
  simp only [insert, insertWith] at member ⊢
  clear ascending
  induction es with
  | nil => exact .inl (List.mem_singleton.mp member)
  | cons a es ih =>
      rw [Entries.insertWith] at member
      split at member
      · exact List.mem_cons.mp member
      · split at member
        · next same =>
          rcases List.mem_cons.mp member with rfl | later
          · exact .inl rfl
          · exact .inr (List.mem_cons_of_mem a later)
        · rcases List.mem_cons.mp member with rfl | later
          · exact .inr List.mem_cons_self
          · exact (ih later).imp_right (List.mem_cons_of_mem a)

end KeyMap

namespace MiningResult

/-! Messages on one line. -/

def oneLine (lines : List (List Char)) : List Char :=
  [' '].intercalate (lines.map Text.trim)

theorem toList_singleLine (message : String) :
    (singleLine message).toList = oneLine (Text.lines message.toList) :=
  String.toList_ofList

theorem oneLine_singleton (line : List Char) : oneLine [line] = Text.trim line :=
  List.intercalate_singleton

theorem oneLine_cons (line : List Char) {lines : List (List Char)} (more : lines ≠ []) :
    oneLine (line :: lines) = Text.trim line ++ ' ' :: oneLine lines := by
  obtain ⟨next, lines, rfl⟩ := List.exists_cons_of_ne_nil more
  rw [oneLine, List.map_cons, List.map_cons, List.intercalate_cons_cons, List.append_assoc]
  rfl

theorem oneLine_concat {lines : List (List Char)} (more : lines ≠ []) (line : List Char) :
    oneLine (lines ++ [line]) = oneLine lines ++ ' ' :: Text.trim line := by
  induction lines with
  | nil => exact absurd rfl more
  | cons first lines ih =>
      by_cases alone : lines = []
      · rw [alone, List.singleton_append, oneLine_cons first (List.cons_ne_nil line []),
          oneLine_singleton, oneLine_singleton]
      · rw [List.cons_append, oneLine_cons first (by simp), ih alone, oneLine_cons first alone,
          List.append_assoc, List.cons_append]

theorem newline_not_mem_oneLine {lines : List (List Char)} (whole : ∀ line ∈ lines, '\n' ∉ line) :
    '\n' ∉ oneLine lines := by
  induction lines with
  | nil => exact List.not_mem_nil
  | cons first lines ih =>
      obtain ⟨here, rest⟩ := List.forall_mem_cons.mp whole
      have inside : '\n' ∉ Text.trim first := fun member =>
        here ((List.dropWhile_sublist _).subset (Text.trimEnd_subset _ member))
      by_cases alone : lines = []
      · rwa [alone, oneLine_singleton]
      · rw [oneLine_cons first alone, List.mem_append, List.mem_cons, not_or, not_or]
        exact ⟨inside, by decide, ih rest⟩

theorem trimEnd_oneLine_concat {line : List Char} (visible : ¬ line.all Text.isBlank)
    (lines : List (List Char)) :
    Text.trimEnd (oneLine (lines ++ [line])) = oneLine (lines ++ [line]) := by
  by_cases alone : lines = []
  · rw [alone, List.nil_append, oneLine_singleton, Text.trimEnd_trim]
  · have words : Text.trimEnd (Text.trim line) ≠ [] := by
      rwa [Text.trimEnd_trim, ne_eq, Text.trim_eq_nil_iff]
    rw [oneLine_concat alone, List.append_cons, Text.trimEnd_append _ words, Text.trimEnd_trim]

/-- Of a message on one line, what its blank last lines left is gone without the blanks at the
end. -/
theorem trimEnd_oneLine (lines : List (List Char)) :
    Text.trimEnd (oneLine lines) = oneLine (lines.rdropWhile (·.all Text.isBlank)) := by
  induction lines using List.reverseRecOn with
  | nil => rfl
  | append_singleton lines line ih =>
      by_cases blank : line.all Text.isBlank
      · rw [List.rdropWhile_concat, if_pos blank, ← ih]
        have empty := Text.trim_eq_nil_iff.mpr blank
        by_cases alone : lines = []
        · rw [alone, List.nil_append, oneLine_singleton, empty]
          rfl
        · rw [oneLine_concat alone, empty, Text.trimEnd_concat_blank _ (by decide)]
      · rw [List.rdropWhile_concat, if_neg blank, trimEnd_oneLine_concat blank]

/-- A message on one line ends where it can be seen unless its last line is blank and not alone. -/
theorem trimEnd_oneLine_eq_self_iff {lines : List (List Char)} :
    Text.trimEnd (oneLine lines) = oneLine lines ↔
      ∀ line ∈ lines.getLast?, line.all Text.isBlank → lines.length = 1 := by
  rcases List.eq_nil_or_concat' lines with rfl | ⟨lines, line, rfl⟩
  · exact ⟨fun _ => nofun, fun _ => rfl⟩
  · simp only [List.getLast?_concat, Option.mem_some_iff, forall_eq', List.length_append,
      List.length_singleton, Nat.add_eq_right, List.length_eq_zero_iff]
    by_cases blank : line.all Text.isBlank
    · have empty := Text.trim_eq_nil_iff.mpr blank
      refine ⟨fun same _ => not_not.mp fun more => ?_, fun alone => ?_⟩
      · rw [oneLine_concat more, empty, Text.trimEnd_eq_self_iff, List.getLast?_concat] at same
        exact absurd (same ' ' rfl) (by decide)
      · rw [alone blank, List.nil_append, oneLine_singleton, Text.trimEnd_trim]
    · exact ⟨fun _ isBlank => absurd isBlank blank, fun _ => trimEnd_oneLine_concat blank lines⟩

/-! Results with one more failure. -/

variable {r r' : MiningResult} {commit message : String}

theorem eq_of_recordFailure (recorded : r.recordFailure commit message = .ok r') :
    r' = { r with
      failedCommits := r.failedCommits + 1
      failures := r.failures.insert commit (singleLine message) } ∧ r'.Fits := by
  rw [recordFailure, append, total?] at recorded
  split at recorded
  · next fits =>
    obtain rfl := Except.ok.inj recorded
    exact ⟨by simp [merge, empty, KeyMap.add], fits⟩
  · cases recorded

theorem Presentable.recordFailure (presentable : r.Presentable) (keyed : Keyed commit)
    (recorded : r.recordFailure commit message = .ok r') :
    r'.trimmed.Presentable ∧ ∀ e ∈ r'.failures.entries, '\n' ∉ e.2.toList := by
  obtain ⟨rfl, fits⟩ := eq_of_recordFailure recorded
  have whole : '\n' ∉ (singleLine message).toList := by
    rw [toList_singleLine]
    exact newline_not_mem_oneLine fun line => Text.newline_not_mem_of_mem_lines
  have failures : ∀ e ∈ (r.failures.insert commit (singleLine message)).entries,
      Keyed e.1 ∧ '\n' ∉ e.2.toList := by
    intro e member
    rcases KeyMap.mem_insert member with rfl | earlier
    · exact ⟨keyed, whole⟩
    · exact ⟨(presentable.failures e earlier).1, (presentable.failures e earlier).2.1⟩
  refine ⟨⟨fits, presentable.times, presentable.nodes, presentable.patterns,
    presentable.filterHits, presentable.diffErrors, ?_⟩, fun e member => (failures e member).2⟩
  intro e member
  obtain ⟨⟨k, m⟩, listed, same⟩ := List.mem_filterMap.mp member
  cases same
  obtain ⟨keyed, whole⟩ := failures _ listed
  rw [Datum.trimMessage, String.toList_ofList]
  refine ⟨keyed, fun inside => whole (Text.trimEnd_subset _ inside), ?_⟩
  exact Text.trimEnd_eq_self_iff.mp (List.rdropWhile_idempotent Text.isBlank m.toList)

/-- The blanks at the end of messages are all that is lost, and only the new message can have
some. -/
theorem Presentable.trimmed_eq_iff (presentable : r.Presentable)
    (recorded : r.recordFailure commit message = .ok r') :
    r'.trimmed = r' ↔ Datum.trimMessage (singleLine message) = singleLine message := by
  obtain ⟨rfl, -⟩ := eq_of_recordFailure recorded
  have others (k : String) :
      ((r.failures.get? k).bind fun m => some (Datum.trimMessage m)) = r.failures.get? k := by
    rw [← KeyMap.get?_filterMap]
    exact congrArg (fun r => r.failures.get? k) presentable.trimmed_eq
  refine ⟨fun same => ?_, fun same => ?_⟩
  · have found := congrArg (fun r => r.failures.get? commit) same
    simpa [trimmed, KeyMap.get?_filterMap] using found
  · rw [trimmed]
    congr 1
    ext1 k
    rw [KeyMap.get?_filterMap, KeyMap.get?_insert]
    split
    · rw [Option.bind_some, same]
    · exact others k

/-- A failure of a fresh result is read back without what the blank last lines of its message left,
and as it was recorded just when there are none. -/
theorem recordFailure_reads_back_iff (commit message : String) (keyed : Keyed commit) :
    ∃ r, empty.recordFailure commit message = .ok r ∧
      ofSnapshot r.toSnapshot = .ok r.trimmed ∧
      r.trimmed.failures.get? commit = some (String.ofList
        (oneLine ((Text.lines message.toList).rdropWhile (·.all Text.isBlank)))) ∧
      (ofSnapshot r.toSnapshot = .ok r ↔
        ∀ line ∈ (Text.lines message.toList).getLast?, line.all Text.isBlank →
          (Text.lines message.toList).length = 1) := by
  have presentable : empty.Presentable :=
    ⟨fits_empty, nofun, nofun, nofun, nofun, nofun, nofun⟩
  have fits : (empty.merge { empty with failedCommits := 1 }).Fits := by decide
  have recorded : empty.recordFailure commit message =
      .ok { empty.merge { empty with failedCommits := 1 } with
        failures := KeyMap.empty.insert commit (singleLine message) } := by
    rw [recordFailure, append_of_fits fits]
    rfl
  obtain ⟨trimmed, lines⟩ := presentable.recordFailure keyed recorded
  have read := ofSnapshot_toSnapshot trimmed lines
  have kept := presentable.trimmed_eq_iff recorded
  refine ⟨_, recorded, read, ?_, ?_⟩
  · simp [MiningResult.trimmed, KeyMap.get?_filterMap, Datum.trimMessage, toList_singleLine,
      trimEnd_oneLine]
  · rw [read, Except.ok.injEq, kept, ← trimEnd_oneLine_eq_self_iff, ← String.toList_inj,
      Datum.trimMessage, String.toList_ofList, toList_singleLine]

/-- A line feed at the end of a message starts no line. -/
theorem recordFailure_reads_back_lines :
    Keyed "c" ∧ ∃ r, empty.recordFailure "c" "git failed\n  exit status 128\n" = .ok r ∧
      ofSnapshot r.toSnapshot = .ok r := by
  have keyed : Keyed "c" := by decide
  obtain ⟨r, recorded, -, -, readsBack⟩ :=
    recordFailure_reads_back_iff "c" "git failed\n  exit status 128\n" keyed
  exact ⟨keyed, r, recorded, readsBack.mpr (by decide +kernel)⟩

/-- Two line feeds leave a blank that is not read back. -/
theorem not_recordFailure_reads_back :
    ¬ ∀ commit message, Keyed commit → ∀ r, empty.recordFailure commit message = .ok r →
      ofSnapshot r.toSnapshot = .ok r := by
  intro readsBack
  let r : MiningResult := { empty with failedCommits := 1, failures := .single "c" "a " }
  have recorded : empty.recordFailure "c" "a\n\n" = .ok r := by decide +kernel
  have lost : ofSnapshot r.toSnapshot =
      .ok { empty with failedCommits := 1, failures := .single "c" "a" } := by decide +kernel
  have same := Except.ok.inj (lost.symm.trans (readsBack "c" "a\n\n" (by decide) r recorded))
  revert same
  decide +kernel

end MiningResult

end Variability
