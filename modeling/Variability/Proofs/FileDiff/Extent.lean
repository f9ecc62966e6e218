import Mathlib.Algebra.Order.BigOperators.Group.List
import Mathlib.Algebra.Order.Ring.Nat
import Variability.Proofs.FileDiff.Headers

/-!
How much of a diff its files take. Every file starts at a line of its own and every line of its
patch is another one, so the files together have no more lines than the diff; and what they have of
it, paths and patches, is made of its lines.
-/

namespace Variability.FileDiff

open Text (after?)

/-- The lines that a file takes of a diff: those of its patch and the one that starts it. -/
def extent (d : FileDiff) : Nat :=
  (Text.lines d.patch.toList).length + 1

/-- A path without line ends. -/
def OnLine (path : Option String) : Prop :=
  ∀ p ∈ path, '\n' ∉ p.toList

theorem onLine_ofList {line path : List Char} (whole : '\n' ∉ line) (part : path ⊆ line) :
    OnLine (some (String.ofList path)) := by
  rintro p ⟨⟩
  rw [String.toList_ofList]
  exact fun newline => whole (part newline)

theorem stripSide_subset (path : List Char) : stripSide path ⊆ path := by
  rw [stripSide]
  cases first : after? "a/".toList path with
  | some rest => exact Text.after?_subset first
  | none =>
      cases second : after? "b/".toList path with
      | some rest => exact Text.after?_subset second
      | none => exact List.Subset.refl path

theorem onLine_namedPath {text : List Char} (whole : '\n' ∉ text) : OnLine (namedPath text) := by
  unfold namedPath
  dsimp only
  split
  · exact nofun
  · refine onLine_ofList whole (List.Subset.trans (stripSide_subset _) ?_)
    exact List.Subset.trans (Text.trimEnd_subset _) (List.takeWhile_sublist _).subset

namespace Draft

/-- A file that is being read off lines: nothing it has so far holds a line end. -/
structure Lined (d : Draft) : Prop where
  oldPath : OnLine d.oldPath
  newPath : OnLine d.newPath
  body : ∀ l ∈ d.body, '\n' ∉ l

variable {d : Draft} {line : List Char}

theorem lined_blank : blank.Lined :=
  ⟨nofun, nofun, nofun⟩

theorem Lined.setPath (lined : d.Lined) (s : Side) {path : Option String} (onLine : OnLine path) :
    (d.setPath s path).Lined := by
  cases s with
  | before => exact ⟨onLine, lined.newPath, lined.body⟩
  | after => exact ⟨lined.oldPath, onLine, lined.body⟩

theorem Lined.addLine (lined : d.Lined) (whole : '\n' ∉ line) : (d.addLine line).Lined :=
  ⟨lined.oldPath, lined.newPath, List.forall_mem_cons.mpr ⟨whole, lined.body⟩⟩

theorem lined_ofLine (whole : '\n' ∉ line) : (ofLine line).Lined := by
  unfold ofLine
  split
  · exact lined_blank
  · next old new parts =>
    obtain ⟨rest, marked, cut⟩ := Option.bind_eq_some_iff.mp parts
    have inside := Text.after?_subset marked
    obtain ⟨left, right⟩ := Text.cut?_subset cut
    exact ⟨onLine_ofList whole (List.Subset.trans (stripSide_subset old)
        (List.Subset.trans left inside)), onLine_ofList whole (List.Subset.trans right inside),
      nofun⟩

theorem Lined.move? (lined : d.Lined) (whole : '\n' ∉ line) {moved : Draft}
    (move : d.move? line = some moved) : moved.Lined := by
  obtain ⟨⟨head, change, side?⟩, -, fits⟩ := List.exists_of_findSome?_eq_some move
  obtain ⟨path, starts, rfl⟩ := Option.map_eq_some_iff.mp fits
  have changed : ({ d with change := some change } : Draft).Lined :=
    ⟨lined.oldPath, lined.newPath, lined.body⟩
  cases side? with
  | none => exact changed
  | some s => exact changed.setPath s (onLine_ofList whole (Text.after?_subset starts))

theorem Lined.addHeader (lined : d.Lined) (whole : '\n' ∉ line) : (d.addHeader line).Lined := by
  have named {head path : List Char} (starts : after? head line = some path) :
      OnLine (namedPath path) :=
    onLine_namedPath fun newline => whole (Text.after?_subset starts newline)
  unfold Draft.addHeader
  split
  · next move => exact lined.move? whole move
  · split
    · next starts => exact lined.setPath .before (named starts)
    · split
      · next starts => exact lined.setPath .after (named starts)
      · split
        · exact ⟨lined.oldPath, lined.newPath, lined.body⟩
        · exact lined

theorem Lined.finish? (lined : d.Lined) {f : FileDiff} (finished : d.finish? = some f) :
    '\n' ∉ f.path.toList ∧ f.extent = d.body.length + 1 := by
  unfold Draft.finish? at finished
  split at finished
  · cases finished
  · cases finished
    constructor
    · rw [path]
      cases new : d.newPath with
      | some p => exact lined.newPath p new
      | none =>
          cases old : d.oldPath with
          | some p => exact lined.oldPath p old
          | none => simp
    · rw [extent, String.toList_ofList, Text.lines_unlines (by simpa using lined.body),
        List.length_map, List.length_reverse]

end Draft

theorem lined_start {line : List Char} (whole : '\n' ∉ line) : (start line).Lined := by
  unfold start
  split
  · exact Draft.lined_ofLine whole
  · exact Draft.lined_blank.addHeader whole

theorem body_start (line : List Char) : (start line).body = [] := by
  unfold start
  split
  · exact body_ofLine line
  · exact (kept_addHeader .blank line).1

/-- Files whose paths have no line ends, and that take at most so many lines together. -/
def Within (files : List FileDiff) (lines : Nat) : Prop :=
  (∀ f ∈ files, '\n' ∉ f.path.toList) ∧ (files.map extent).sum ≤ lines

theorem Within.append {files more : List FileDiff} {m n : Nat} (first : Within files m)
    (second : Within more n) : Within (files ++ more) (m + n) := by
  constructor
  · intro f member
    exact (List.mem_append.mp member).elim (first.1 f) (second.1 f)
  · rw [List.map_append, List.sum_append]
    exact Nat.add_le_add first.2 second.2

theorem Within.mono {files : List FileDiff} {m n : Nat} (within : Within files m) (more : m ≤ n) :
    Within files n :=
  ⟨within.1, within.2.trans more⟩

theorem Within.sublist {files part : List FileDiff} {n : Nat} (within : Within files n)
    (fewer : part.Sublist files) : Within part n :=
  ⟨fun f member => within.1 f (fewer.subset member),
    ((fewer.map extent).sum_le_sum fun _ _ => Nat.zero_le _).trans within.2⟩

/-- The lines that the file that is being read has taken. -/
def taken (current : Option Draft) : Nat :=
  current.elim 0 fun d => d.body.length + 1

theorem finishAll_within {current : Option Draft} (lined : ∀ d ∈ current, d.Lined) :
    Within (finishAll current) (taken current) := by
  cases current with
  | none => exact ⟨nofun, Nat.le_refl 0⟩
  | some d =>
      rw [finishAll, Option.bind_some]
      cases finished : d.finish? with
      | none => exact ⟨nofun, Nat.zero_le _⟩
      | some f =>
          obtain ⟨line, size⟩ := (lined d rfl).finish? finished
          exact ⟨by simpa using line, by simp [taken, size]⟩

/-- Every line goes into at most one file. -/
theorem splitLines_within {current : Option Draft} {remaining : Remaining}
    {lines : List (List Char)} (lined : ∀ d ∈ current, d.Lined) (whole : ∀ l ∈ lines, '\n' ∉ l) :
    Within (splitLines current remaining lines) (taken current + lines.length) := by
  fun_induction splitLines current remaining lines with
  | case1 current remaining => exact finishAll_within lined
  | case2 current remaining line rest _ ih =>
      obtain ⟨first, others⟩ := List.forall_mem_cons.mp whole
      refine (ih ?_ others).mono (by cases current <;> simp +arith [taken, Draft.addLine])
      intro d member
      obtain ⟨d, listed, rfl⟩ := Option.map_eq_some_iff.mp member
      exact (lined d listed).addLine first
  | case3 current remaining line rest _ _ ih =>
      obtain ⟨first, others⟩ := List.forall_mem_cons.mp whole
      refine ((finishAll_within lined).append (ih ?_ others)).mono
        (by simp +arith [taken, body_start])
      rintro d ⟨⟩
      exact lined_start first
  | case4 remaining line rest _ _ ih =>
      exact (ih nofun (List.forall_mem_cons.mp whole).2).mono (by simp +arith)
  | case5 remaining line rest _ d _ _ _ ih | case7 remaining line rest _ d _ _ _ _ ih =>
      obtain ⟨first, others⟩ := List.forall_mem_cons.mp whole
      refine (ih ?_ others).mono (by simp +arith [taken, Draft.addLine])
      rintro d ⟨⟩
      exact (lined _ rfl).addLine first
  | case6 remaining line rest _ d _ _ empty ih =>
      obtain ⟨first, others⟩ := List.forall_mem_cons.mp whole
      refine (ih ?_ others).mono (by simp +arith [taken, (kept_addHeader d line).1])
      rintro d ⟨⟩
      exact (lined _ rfl).addHeader first
  | case8 remaining line rest _ d _ _ _ _ ih =>
      exact (ih lined (List.forall_mem_cons.mp whole).2).mono (by simp +arith)

/-- The files of a diff have paths without line ends and no more lines than the diff. -/
theorem split_within (diff : String) : Within (split diff) (Text.lines diff.toList).length := by
  have nothing : ∀ d ∈ (none : Option Draft), d.Lined := nofun
  have whole : ∀ l ∈ Text.lines diff.toList, '\n' ∉ l := fun _ member =>
    Text.newline_not_mem_of_mem_lines member
  have within : Within (splitLines none .zero (Text.lines diff.toList)) _ :=
    splitLines_within nothing whole
  exact within.mono (Nat.zero_add _).le

end Variability.FileDiff
