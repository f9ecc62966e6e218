import Variability.Proofs.Patch.Acceptance
import Variability.Proofs.Patch.Lineage
import Variability.Proofs.Presence.Memory

/-!
Conditional compilation of one side, line by line. The preprocessor keeps a stack of the
conditionals it is in and emits the code in active branches. What it emits under an assignment of
the features is what the presence conditions say.
-/

namespace Variability

/-- A conditional that the preprocessor is in. -/
structure Frame where
  /-- Whether lines around the conditional are emitted. -/
  parentActive : Bool
  /-- Whether one of its branches was active so far. -/
  taken : Bool
  /-- Whether the branch that it is in is active. -/
  active : Bool
  deriving DecidableEq, Repr

namespace Frame

def enter (around guard : Bool) : Frame :=
  ⟨around, around && guard, around && guard⟩

/-- The next branch of a conditional. -/
def next (frame : Frame) (guard : Bool) : Frame :=
  let active := frame.parentActive && !frame.taken && guard
  ⟨frame.parentActive, frame.taken || active, active⟩

end Frame

namespace Preprocessor

open Patch

/-- Whether lines are emitted inside the conditionals, innermost first. -/
def active : List Frame → Bool
  | [] => true
  | frame :: _ => frame.active

def holds (env : String → Bool) (e : Entry) : Bool :=
  e.guard.any (·.eval env)

/-- The conditionals behind a line. -/
def step (env : String → Bool) (frames : List Frame) (e : Entry) : List Frame :=
  match e.kind, frames with
  | .ifBranch, frames => .enter (active frames) (holds env e) :: frames
  | .elifBranch, frame :: frames => frame.next (holds env e) :: frames
  | .elseBranch, frame :: frames => frame.next true :: frames
  | .endif, frames => frames.tail
  | .elifBranch, [] | .elseBranch, [] | .root, _ | .code, _ => frames

/-- Whether a line of code is emitted, or the body of the branch that a directive opens. -/
def emits (env : String → Bool) (frames : List Frame) (e : Entry) : Bool :=
  e.kind ≠ .endif && active (step env frames e)

/-- The numbers of the lines of code that are emitted, and of the branches whose bodies are. -/
def emitted (env : String → Bool) : List Frame → List (Entry × Nat) → List Nat
  | _, [] => []
  | frames, (e, i) :: lines =>
    let below := emitted env (step env frames e) lines
    if emits env frames e then i :: below else below

def framesBehind (env : String → Bool) (lines : List (Entry × Nat)) : List Frame :=
  lines.foldl (fun frames (e, _) => step env frames e) []

theorem framesBehind_append (env : String → Bool) (lines : List (Entry × Nat)) (e : Entry)
    (i : Nat) : framesBehind env (lines ++ [(e, i)]) = step env (framesBehind env lines) e := by
  rw [framesBehind, List.foldl_append, ← framesBehind]
  rfl

theorem emitted_append (env : String → Bool) (frames : List Frame) (lines : List (Entry × Nat))
    (e : Entry) (i : Nat) :
    emitted env frames (lines ++ [(e, i)]) =
      emitted env frames lines ++
        if emits env (lines.foldl (fun frames (e, _) => step env frames e) frames) e then [i]
        else [] := by
  induction lines generalizing frames with
  | nil => rfl
  | cons line lines ih =>
      rw [List.cons_append, emitted, emitted, ih, List.foldl_cons]
      split
      · rw [List.cons_append]
      · rfl

theorem mem_emitted_iff (env : String → Bool) (s : Side) (es : List Entry) (i : Nat) :
    i ∈ emitted env [] (sideLines s es) ↔
      ∃ k e, i = k + 1 ∧ es[k]? = some e ∧ e.edit.existsOn s ∧
        emits env (framesBehind env (sideLines s (es.take k))) e := by
  induction es using List.reverseRecOn with
  | nil => simp [sideLines, emitted]
  | append_singleton es last ih =>
      have old {k : Nat} {e : Entry} (inside : k < es.length) :
          ((es ++ [last])[k]? = some e ∧ e.edit.existsOn s ∧
            emits env (framesBehind env (sideLines s ((es ++ [last]).take k))) e) ↔
          es[k]? = some e ∧ e.edit.existsOn s ∧
            emits env (framesBehind env (sideLines s (es.take k))) e := by
        rw [List.getElem?_append_left inside, List.take_append_of_le_length (Nat.le_of_lt inside)]
      have new : i ∈ (if last.edit.existsOn s ∧
          emits env (framesBehind env (sideLines s es)) last then [es.length + 1] else []) ↔
          i = es.length + 1 ∧ last.edit.existsOn s ∧
            emits env (framesBehind env (sideLines s es)) last := by
        split <;> simp_all
      have split : emitted env [] (sideLines s (es ++ [last])) =
          emitted env [] (sideLines s es) ++
            if last.edit.existsOn s ∧ emits env (framesBehind env (sideLines s es)) last then
              [es.length + 1]
            else [] := by
        rw [sideLines_append]
        by_cases present : last.edit.existsOn s
        · rw [if_pos present, emitted_append]
          simp [present, framesBehind]
        · simp [present]
      rw [split, List.mem_append, ih, new]
      constructor
      · rintro (⟨k, e, rfl, lookup, rest⟩ | ⟨rfl, rest⟩)
        · have inside := (List.getElem?_eq_some_iff.mp lookup).1
          exact ⟨k, e, rfl, (old inside).mpr ⟨lookup, rest⟩⟩
        · exact ⟨es.length, last, rfl, by simp, by simpa using rest⟩
      · rintro ⟨k, e, rfl, lookup, rest⟩
        have bound := (List.getElem?_eq_some_iff.mp lookup).1
        rw [List.length_append, List.length_singleton] at bound
        rcases Nat.lt_or_eq_of_le (Nat.le_of_lt_succ bound) with inside | rfl
        · exact .inl ⟨k, e, rfl, (old inside).mp ⟨lookup, rest⟩⟩
        · obtain rfl : last = e := by simpa using lookup
          exact .inr ⟨rfl, by simpa using rest⟩

/-- Conditionals that the preprocessor is in, and the open branches of a tree that they are: lines
are emitted in a branch when it and everything around it admits. -/
def Tracks (t : Tree) (env : String → Bool) (s : Side) : List Frame → List Nat → Prop
  | [], [] => True
  | frame :: frames, b :: outer =>
    frame.parentActive = outer.all (t.admits env s) ∧
      frame.active = (frame.parentActive && t.admits env s b) ∧
      ((t.node b).kind ≠ .elseBranch →
        frame.taken = (frame.parentActive && (b :: t.rivals s b).any (t.holds env))) ∧
      Tracks t env s frames outer
  | [], _ :: _ | _ :: _, [] => False

variable {t : Tree} {env : String → Bool} {s : Side}

theorem Tracks.active_eq {frames : List Frame} {opened : List Nat}
    (tracks : Tracks t env s frames opened) : active frames = opened.all (t.admits env s) := by
  cases frames with
  | nil =>
      cases opened with
      | nil => rfl
      | cons b outer => exact tracks.elim
  | cons frame frames =>
      cases opened with
      | nil => exact tracks.elim
      | cons b outer =>
          obtain ⟨around, here, -⟩ := tracks
          rw [active, here, around, List.all_cons, Bool.and_comm]

theorem Tracks.tail {frames : List Frame} {opened : List Nat}
    (tracks : Tracks t env s frames opened) : Tracks t env s frames.tail opened.tail := by
  cases frames <;> cases opened
  · exact tracks
  · exact tracks.elim
  · exact tracks.elim
  · exact tracks.2.2.2

theorem Tracks.enter {frames : List Frame} {opened : List Nat}
    (tracks : Tracks t env s frames opened) {i : Nat} (kind : (t.node i).kind = .ifBranch) :
    Tracks t env s (.enter (active frames) (t.holds env i) :: frames) (i :: opened) := by
  refine ⟨tracks.active_eq, ?_, fun _ => ?_, tracks⟩
  · simp [Frame.enter, Tree.admits, Tree.rivals, kind, NodeKind.hasGuard]
  · simp [Frame.enter, Tree.rivals, kind]

theorem Tracks.next {frame : Frame} {frames : List Frame} {b : Nat} {outer : List Nat}
    (tracks : Tracks t env s (frame :: frames) (b :: outer))
    (continued : (t.node b).kind = .ifBranch ∨ (t.node b).kind = .elifBranch) {i : Nat}
    (rivals : t.rivals s i = b :: t.rivals s b) {guard : Bool}
    (own : (!(t.node i).kind.hasGuard || t.holds env i) = guard)
    (last : (t.node i).kind ≠ .elseBranch → t.holds env i = guard) :
    Tracks t env s (frame.next guard :: frames) (i :: outer) := by
  obtain ⟨around, -, taken, outside⟩ := tracks
  have taken := taken (by rcases continued with kind | kind <;> simp [kind])
  refine ⟨around, ?_, fun kind => ?_, outside⟩
  · simp only [Frame.next, Tree.admits, rivals, own, taken, List.any_cons, List.all_cons]
    cases frame.parentActive <;> cases guard <;> cases t.holds env b <;>
      simp [List.all_eq_not_any_not]
  · simp only [Frame.next, rivals, taken, List.any_cons, last kind]
    cases frame.parentActive <;> cases guard <;> cases t.holds env b <;> simp

end Preprocessor

namespace Patch

theorem Overlays.guard_entry {t : Tree} {es : List Entry} (overlays : Overlays t es) {k : Nat}
    {e : Entry} (lookup : es[k]? = some e) : (t.node (k + 1)).guard = e.guard := by
  rw [← Node.bare_guard, overlays.entry lookup]
  rfl

namespace Accepted

open Preprocessor

variable {t : Tree} {es : List Entry} (accepted : Accepted es t)
include accepted

theorem guarded : t.Guarded := by
  intro i kind
  obtain ⟨k, e, rfl, lookup⟩ := accepted.exists_directive
    (i := i) (by rintro same; simp [same, NodeKind.hasGuard] at kind)
    (by rintro same; simp [same, NodeKind.hasGuard] at kind)
  rw [accepted.overlays.kind_entry lookup] at kind
  rw [accepted.overlays.guard_entry lookup,
    (accepted.proper e (List.mem_of_getElem? lookup)).guarded, kind]

/-- Every side on which an entry exists allows it. -/
theorem exists_allowed {k : Nat} {e : Entry} (lookup : es[k]? = some e) {s : Side}
    (present : e.edit.existsOn s) :
    ∃ scopes, advance ((openBranches s (es.take k)).map fun b => (t.node b).kind) e.kind =
      some scopes := by
  obtain ⟨inside, rfl⟩ := List.getElem?_eq_some_iff.mp lookup
  have allowed : (scopes? s (es.take (k + 1))).isSome := by
    have whole : scopes? s (es.take (k + 1) ++ es.drop (k + 1)) = some [] := by
      rw [List.take_append_drop, accepted.closed]
    exact isSome_scopes?_of_append (by rw [whole]; rfl)
  rw [List.take_succ_eq_append_getElem inside, scopes?_append, if_pos present] at allowed
  obtain ⟨scopes, hScopes⟩ := Option.isSome_iff_exists.mp (Option.isSome_of_isSome_bind allowed)
  rw [hScopes, Option.bind_some] at allowed
  rw [(accepted.overlays.split k).kinds_openBranches hScopes]
  exact Option.isSome_iff_exists.mp allowed

/-- A further branch of a conditional finds the branch open that it follows, on every side on which
it exists, and stands beside it. -/
theorem exists_continued {k : Nat} {e : Entry} (lookup : es[k]? = some e) {s : Side}
    (present : e.edit.existsOn s) (further : e.kind = .elifBranch ∨ e.kind = .elseBranch) :
    ∃ b outer, openBranches s (es.take k) = b :: outer ∧
      ((t.node b).kind = .ifBranch ∨ (t.node b).kind = .elifBranch) ∧
      t.rivals s (k + 1) = b :: t.rivals s b := by
  have inside := (List.getElem?_eq_some_iff.mp lookup).1
  obtain ⟨scopes, advanced⟩ := accepted.exists_allowed lookup present
  obtain ⟨last, rest, kinds, continued, -⟩ := exists_continues_of_advance further advanced
  cases opened : openBranches s (es.take k) with
  | nil => simp [opened] at kinds
  | cons b outer =>
      rw [opened, List.map_cons] at kinds
      obtain ⟨rfl, -⟩ := List.cons.inj kinds
      have beside := accepted.overlays.parent_next lookup present further opened
      have earlier := accepted.overlays.earlierBranches_next (Nat.le_of_lt inside) opened beside
        continued
      refine ⟨b, outer, rfl, continued, ?_⟩
      rw [Tree.rivals, accepted.overlays.kind_entry lookup]
      rcases further with kind | kind <;> rw [kind] <;> exact earlier

theorem tracks_step {k : Nat} {e : Entry} (lookup : es[k]? = some e) {s : Side}
    (present : e.edit.existsOn s) {env : String → Bool} {frames : List Frame}
    (before : Tracks t env s frames (openBranches s (es.take k))) :
    Tracks t env s (step env frames e) (e.behind (k + 1) (openBranches s (es.take k))) := by
  have kind := accepted.overlays.kind_entry lookup
  have own : t.holds env (k + 1) = Preprocessor.holds env e := by
    rw [Tree.holds, accepted.overlays.guard_entry lookup, Preprocessor.holds]
  have further (continues : e.kind = .elifBranch ∨ e.kind = .elseBranch) :
      ∃ frame outside b outer, frames = frame :: outside ∧
        openBranches s (es.take k) = b :: outer ∧
        ∀ guard, (!(t.node (k + 1)).kind.hasGuard || t.holds env (k + 1)) = guard →
          ((t.node (k + 1)).kind ≠ .elseBranch → t.holds env (k + 1) = guard) →
          Tracks t env s (frame.next guard :: outside) ((k + 1) :: outer) := by
    obtain ⟨b, outer, opened, continued, rivals⟩ :=
      accepted.exists_continued lookup present continues
    rw [opened] at before
    cases frames with
    | nil => exact before.elim
    | cons frame outside =>
        exact ⟨frame, outside, b, outer, rfl, opened, fun guard => before.next continued rivals⟩
  unfold Entry.behind Entry.around
  cases entryKind : e.kind with
  | root => exact absurd entryKind (accepted.line lookup)
  | code =>
      simp only [step, entryKind]
      exact before
  | endif =>
      simp only [step, entryKind]
      exact before.tail
  | ifBranch =>
      simp only [step, entryKind, ← own]
      exact before.enter (kind.trans entryKind)
  | elifBranch =>
      obtain ⟨frame, outside, b, outer, rfl, opened, next⟩ := further (.inl entryKind)
      simp only [step, entryKind, opened, List.tail_cons, ← own]
      exact next _ (by rw [kind, entryKind]; rfl) fun _ => rfl
  | elseBranch =>
      obtain ⟨frame, outside, b, outer, rfl, opened, next⟩ := further (.inr entryKind)
      simp only [step, entryKind, opened, List.tail_cons]
      exact next _ (by rw [kind, entryKind]; rfl) fun other => absurd (kind.trans entryKind) other

theorem tracks (env : String → Bool) (s : Side) {k : Nat} (inside : k ≤ es.length) :
    Tracks t env s (framesBehind env (sideLines s (es.take k))) (openBranches s (es.take k)) := by
  induction k with
  | zero => trivial
  | succ k ih =>
      have ih := ih (Nat.le_of_succ_le inside)
      have lookup : es[k]? = some es[k] := List.getElem?_eq_getElem inside
      have length : (es.take k).length = k := List.length_take_of_le (Nat.le_of_succ_le inside)
      rw [List.take_succ_eq_append_getElem inside, sideLines_append, openBranches_append, length]
      generalize es[k] = e at lookup
      by_cases present : e.edit.existsOn s
      · rw [if_pos present, if_pos present, framesBehind_append]
        exact accepted.tracks_step lookup present ih
      · rw [if_neg present, if_neg present, List.append_nil]
        exact ih

theorem emits_eq {k : Nat} {e : Entry} (lookup : es[k]? = some e) {s : Side}
    (present : e.edit.existsOn s) (notEndif : e.kind ≠ .endif) (env : String → Bool) :
    emits env (framesBehind env (sideLines s (es.take k))) e =
      ((k + 1) :: e.around (openBranches s (es.take k)) ++ [0]).all (t.admits env s) := by
  have inside := (List.getElem?_eq_some_iff.mp lookup).1
  have behind := accepted.tracks_step lookup present
    (accepted.tracks env s (Nat.le_of_lt inside))
  have root : t.admits env s 0 := by
    simp [Tree.admits, Tree.rivals, accepted.overlays.kind_root, NodeKind.hasGuard]
  have line : e.kind ≠ .root := accepted.line lookup
  have kind := accepted.overlays.kind_entry lookup
  have here : (e.behind (k + 1) (openBranches s (es.take k))).all (t.admits env s) =
      (t.admits env s (k + 1) &&
        (e.around (openBranches s (es.take k))).all (t.admits env s)) := by
    unfold Entry.behind Entry.around
    cases entryKind : e.kind with
    | root => exact absurd entryKind line
    | endif => exact absurd entryKind notEndif
    | code =>
        have free : t.admits env s (k + 1) = true := by
          simp [Tree.admits, Tree.rivals, kind, entryKind, NodeKind.hasGuard]
        rw [free, Bool.true_and]
    | ifBranch | elifBranch | elseBranch => exact List.all_cons
  simp only [emits, behind.active_eq, here, notEndif, ne_eq, not_false_eq_true, decide_true,
    Bool.true_and, List.cons_append, List.all_cons, List.all_append, List.all_nil, root,
    Bool.and_true]

theorem exists_condition (o : Oracle) {s : Side} {i : Nat} {chain : List Nat}
    (present : (t.node i).existsOn s) (lineage : t.lineage? s i = some chain) :
    ∃ f, (⟨t, o⟩ : Analysis).condition s i = .ok f ∧
      ∀ env, f.eval env = chain.all (t.admits env s) :=
  Analysis.exists_condition (a := ⟨t, o⟩) accepted.guarded lineage fun _ member =>
    accepted.overlays.existsOn_of_mem_lineage present lineage member

end Accepted

/-- Presence conditions mean what the preprocessor does: on each of its sides a line of code, or
the body of a branch, is emitted exactly when the condition of its node is true. -/
theorem presence_iff_emitted {text path commit : String} {t : Tree}
    (parsed : parse text path commit = .ok (.ok t)) (o : Oracle) {s : Side} {i : Nat}
    (inside : i < t.size) (present : (t.node i).existsOn s) (line : (t.node i).kind ≠ .root)
    (notEndif : (t.node i).kind ≠ .endif) :
    (∃ e, (e, i) ∈ sideLines s (entriesOf text) ∧ (t.node i).bare = Nesting.node e i) ∧
      ∃ f, (⟨t, o⟩ : Analysis).condition s i = .ok f ∧
        ∀ env, f.eval env ↔ i ∈ Preprocessor.emitted env [] (sideLines s (entriesOf text)) := by
  have accepted := accepted_of_parse parsed
  have notRoot : i ≠ 0 := by
    rintro rfl
    exact line accepted.overlays.kind_root
  obtain ⟨k, e, rfl, lookup⟩ := accepted.overlays.lookup inside notRoot
  have presentEntry := present
  rw [accepted.overlays.kind_entry lookup] at line notEndif
  rw [accepted.overlays.existsOn_entry lookup] at presentEntry
  have entryPresent : e.edit.existsOn s := by simpa [line] using presentEntry
  have listed : (e, k + 1) ∈ sideLines s (entriesOf text) := by
    rw [sideLines, List.mem_filter]
    exact ⟨List.mk_mem_zipIdx_iff_le_and_getElem?_sub.mpr ⟨by omega, by simpa using lookup⟩,
      entryPresent⟩
  refine ⟨⟨e, listed, accepted.overlays.entry lookup⟩, ?_⟩
  obtain ⟨f, condition, meaning⟩ := accepted.exists_condition o present
    (accepted.overlays.lineage_entry lookup entryPresent)
  refine ⟨f, condition, fun env => ?_⟩
  rw [meaning, ← accepted.emits_eq lookup entryPresent notEndif, Preprocessor.mem_emitted_iff]
  constructor
  · intro emits
    exact ⟨k, e, rfl, lookup, entryPresent, emits⟩
  · rintro ⟨k', e', same, lookup', -, emits⟩
    obtain rfl : k = k' := Nat.succ.inj same
    obtain rfl : e = e' := Option.some.inj (lookup.symm.trans lookup')
    exact emits

theorem presence_iff_emitted_alternative :
    ∃ t f, parse " #if A\n+a\n #else\n b\n #endif\n" "f" "c" = .ok (.ok t) ∧
      (⟨t, .bounded Oracle.defaultMaxVariables⟩ : Analysis).condition .after 4 = .ok f ∧
      ∀ env, f.eval env ↔ 4 ∈ Preprocessor.emitted env []
        (sideLines .after (entriesOf " #if A\n+a\n #else\n b\n #endif\n")) := by
  have parses : parsesTo " #if A\n+a\n #else\n b\n #endif\n" "f" "c" (fun t =>
      4 < t.size && (t.node 4).existsOn .after && (t.node 4).kind = .code) := by decide +kernel
  obtain ⟨t, parsed, code⟩ := exists_of_parsesTo parses
  simp only [Bool.and_eq_true, decide_eq_true_eq] at code
  obtain ⟨⟨inside, present⟩, kind⟩ := code
  obtain ⟨-, f, condition, meaning⟩ := presence_iff_emitted parsed
    (.bounded Oracle.defaultMaxVariables) inside present (by simp [kind]) (by simp [kind])
  exact ⟨t, f, parsed, condition, meaning⟩

end Patch

end Variability
