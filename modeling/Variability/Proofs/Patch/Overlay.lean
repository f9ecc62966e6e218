import Mathlib.Data.List.Induction
import Variability.Patch
import Variability.Proofs.Tree.Nodes

/-!
The tree of a list of entries, without the walk that builds it. On each side the entries alone
tell which branches are open behind them, and with that the parent of every entry; the children of
a node are the nodes that have it as their parent, in order.
-/

namespace Variability

@[simp] theorem Edit.sides_added : Edit.added.sides = [.after] := rfl

@[simp] theorem Edit.sides_removed : Edit.removed.sides = [.before] := rfl

@[simp] theorem Edit.sides_kept : Edit.kept.sides = [.before, .after] := rfl

namespace Patch

/-- The branches that stay open around an entry: a further branch of a conditional stands outside
the branch before it. -/
def Entry.around (e : Entry) (opened : List Nat) : List Nat :=
  match e.kind with
  | .elifBranch | .elseBranch => opened.tail
  | .root | .ifBranch | .endif | .code => opened

def Entry.scope (e : Entry) (opened : List Nat) : Nat :=
  (e.around opened).headD 0

/-- The branches that are open behind an entry with number `i`. -/
def Entry.behind (e : Entry) (i : Nat) (opened : List Nat) : List Nat :=
  match e.kind with
  | .endif => opened.tail
  | .code => opened
  | .root | .ifBranch | .elifBranch | .elseBranch => i :: e.around opened

def sideLines (s : Side) (es : List Entry) : List (Entry × Nat) :=
  (es.zipIdx 1).filter fun (e, _) => e.edit.existsOn s

/-- The branches of a side that are open behind some entries, innermost first. -/
def openBranches (s : Side) (es : List Entry) : List Nat :=
  (sideLines s es).foldl (fun opened (e, i) => e.behind i opened) []

/-- The parent of a node on a side on which its entry exists. -/
def parentIn (s : Side) (es : List Entry) : Nat → Option Nat
  | 0 => none
  | k + 1 =>
    es[k]?.bind fun e =>
      if e.edit.existsOn s then some (e.scope (openBranches s (es.take k))) else none

/-- A tree is what some entries make up: a root, and behind it one node for each entry. -/
structure Overlays (t : Tree) (es : List Entry) : Prop where
  size : t.size = es.length + 1
  shape : t.shape = .tree
  root : (t.node 0).bare = .fresh 0 .root .kept ""
  entry : ∀ {k : Nat} {e : Entry}, es[k]? = some e →
    (t.node (k + 1)).bare = Nesting.node e (k + 1)
  parent : ∀ s i, t.parent s i = parentIn s es i
  children : ∀ s p, t.children s p = (List.range t.size).filter (t.parent s · = some p)

theorem sideLines_append (s : Side) (es : List Entry) (e : Entry) :
    sideLines s (es ++ [e]) =
      sideLines s es ++ if e.edit.existsOn s then [(e, es.length + 1)] else [] := by
  rw [sideLines, List.zipIdx_append, List.filter_append, sideLines]
  by_cases present : e.edit.existsOn s <;> simp [present, Nat.add_comm]

@[simp] theorem openBranches_nil (s : Side) : openBranches s [] = [] := rfl

theorem openBranches_append (s : Side) (es : List Entry) (e : Entry) :
    openBranches s (es ++ [e]) =
      if e.edit.existsOn s then e.behind (es.length + 1) (openBranches s es)
      else openBranches s es := by
  rw [openBranches, sideLines_append, List.foldl_append, openBranches]
  split <;> rfl

theorem openBranches_take_succ {es : List Entry} {k : Nat} {e : Entry} (lookup : es[k]? = some e)
    (s : Side) :
    openBranches s (es.take (k + 1)) =
      if e.edit.existsOn s then e.behind (k + 1) (openBranches s (es.take k))
      else openBranches s (es.take k) := by
  obtain ⟨inside, rfl⟩ := List.getElem?_eq_some_iff.mp lookup
  rw [List.take_succ_eq_append_getElem inside, openBranches_append,
    List.length_take_of_le (Nat.le_of_lt inside)]

theorem parentIn_append_of_le {es : List Entry} {i : Nat} (s : Side) (rest : List Entry)
    (old : i ≤ es.length) : parentIn s (es ++ rest) i = parentIn s es i := by
  cases i with
  | zero => rfl
  | succ k =>
      rw [parentIn, parentIn, List.getElem?_append_left old,
        List.take_append_of_le_length (by omega)]

theorem parentIn_append_length (s : Side) (es : List Entry) (e : Entry) :
    parentIn s (es ++ [e]) (es.length + 1) =
      if e.edit.existsOn s then some (e.scope (openBranches s es)) else none := by
  simp [parentIn]

theorem parentIn_of_length_lt {es : List Entry} {i : Nat} (s : Side) (outside : es.length < i) :
    parentIn s es i = none := by
  cases i with
  | zero => rfl
  | succ k => rw [parentIn, List.getElem?_eq_none (by omega), Option.bind_none]

theorem exists_entry_of_mem_openBranches {s : Side} {es : List Entry} {b : Nat}
    (opened : b ∈ openBranches s es) :
    ∃ k e, b = k + 1 ∧ es[k]? = some e ∧ e.edit.existsOn s ∧ e.kind.isScope := by
  induction es using List.reverseRecOn with
  | nil => simp at opened
  | append_singleton es e ih =>
      have earlier (old : b ∈ openBranches s es) :
          ∃ k f, b = k + 1 ∧ (es ++ [e])[k]? = some f ∧ f.edit.existsOn s ∧ f.kind.isScope := by
        obtain ⟨k, f, rfl, lookup, present, scope⟩ := ih old
        refine ⟨k, f, rfl, ?_, present, scope⟩
        rw [List.getElem?_append_left (List.getElem?_eq_some_iff.mp lookup).1, lookup]
      rw [openBranches_append] at opened
      split at opened
      · next present =>
          unfold Entry.behind Entry.around at opened
          cases kind : e.kind <;> simp only [kind, List.mem_cons] at opened
          case code => exact earlier opened
          case endif => exact earlier (List.mem_of_mem_tail opened)
          case elifBranch | elseBranch =>
              rcases opened with rfl | old
              · exact ⟨es.length, e, rfl, by simp, present, by rw [kind]; rfl⟩
              · exact earlier (List.mem_of_mem_tail old)
          case root | ifBranch =>
              rcases opened with rfl | old
              · exact ⟨es.length, e, rfl, by simp, present, by rw [kind]; rfl⟩
              · exact earlier old
      · exact earlier opened

theorem le_of_mem_openBranches {s : Side} {es : List Entry} {b : Nat}
    (opened : b ∈ openBranches s es) : b ≤ es.length := by
  obtain ⟨k, e, rfl, lookup, _⟩ := exists_entry_of_mem_openBranches opened
  exact (List.getElem?_eq_some_iff.mp lookup).1

theorem Entry.mem_of_mem_around {e : Entry} {opened : List Nat} {b : Nat}
    (member : b ∈ e.around opened) : b ∈ opened := by
  unfold around at member
  cases kind : e.kind <;> simp only [kind] at member <;>
    first | exact member | exact List.mem_of_mem_tail member

theorem Entry.mem_of_mem_behind {e : Entry} {opened : List Nat} {i b : Nat}
    (member : b ∈ e.behind i opened) : b = i ∨ b ∈ opened := by
  unfold behind at member
  cases kind : e.kind <;> simp only [kind] at member
  case code => exact .inr member
  case endif => exact .inr (List.mem_of_mem_tail member)
  all_goals exact (List.mem_cons.mp member).imp_right mem_of_mem_around

theorem scope_le (s : Side) (es : List Entry) (e : Entry) :
    e.scope (openBranches s es) ≤ es.length := by
  unfold Entry.scope
  cases around : e.around (openBranches s es) with
  | nil => simp
  | cons b rest =>
      have member : b ∈ e.around (openBranches s es) := by simp [around]
      simpa using le_of_mem_openBranches (Entry.mem_of_mem_around member)

theorem headD_openBranches_le (s : Side) (es : List Entry) :
    (openBranches s es).headD 0 ≤ es.length := by
  cases opened : openBranches s es with
  | nil => simp
  | cons b rest => exact le_of_mem_openBranches (s := s) (by simp [opened])

theorem Overlays.append {t t' : Tree} {es : List Entry} {e : Entry} (overlays : Overlays t es)
    (size : t'.size = es.length + 2) (shape : t'.shape = .tree)
    (bare : ∀ i, (t'.node i).bare =
      if i = es.length + 1 then Nesting.node e (es.length + 1) else (t.node i).bare)
    (parent : ∀ d i, t'.parent d i =
      if e.edit.existsOn d ∧ i = es.length + 1 then
        some (e.scope (openBranches d es))
      else t.parent d i)
    (children : ∀ d p, t'.children d p =
      if e.edit.existsOn d ∧ p = e.scope (openBranches d es) then
        t.children d p ++ [es.length + 1]
      else t.children d p) :
    Overlays t' (es ++ [e]) where
  size := by rw [size, List.length_append, List.length_singleton]
  shape := shape
  root := by rw [bare, if_neg (by omega), overlays.root]
  entry := by
    intro k f lookup
    rw [bare]
    by_cases last : k = es.length
    · subst last
      obtain rfl : e = f := by simpa using lookup
      rw [if_pos rfl]
    · have inside := (List.getElem?_eq_some_iff.mp lookup).1
      rw [List.length_append, List.length_singleton] at inside
      rw [List.getElem?_append_left (by omega)] at lookup
      rw [if_neg (by omega), overlays.entry lookup]
  parent := by
    intro d i
    rw [parent]
    rcases Nat.lt_trichotomy i (es.length + 1) with old | rfl | outside
    · rw [if_neg (by omega), parentIn_append_of_le d [e] (by omega), overlays.parent]
    · rw [parentIn_append_length]
      by_cases present : e.edit.existsOn d
      · simp [present]
      · simp only [present, Bool.false_eq_true, false_and, if_false]
        exact Tree.parent_of_size_le (Nat.le_of_eq overlays.size) d
    · rw [if_neg (by omega), parentIn_of_length_lt d (by simpa using outside)]
      exact Tree.parent_of_size_le (by rw [overlays.size]; omega) d
  children := by
    intro d p
    have last : t.parent d (es.length + 1) = none :=
      Tree.parent_of_size_le (Nat.le_of_eq overlays.size) d
    have old : (List.range (es.length + 1)).filter (t'.parent d · = some p) = t.children d p := by
      rw [overlays.children, overlays.size]
      apply List.filter_congr
      intro i inside
      rw [List.mem_range] at inside
      rw [parent, if_neg (by omega)]
    rw [children, size, List.range_succ, List.filter_append, old]
    by_cases present : e.edit.existsOn d
    · by_cases scope : p = e.scope (openBranches d es)
      · simp [parent, present, scope]
      · simp [parent, present, scope, Ne.symm scope]
    · simp [parent, present, last]

namespace Nesting

@[simp] theorem branches_setBranches (s : Nesting) (side d : Side) (l : List Nat) :
    (s.setBranches side l).branches d = if d = side then l else s.branches d := by
  cases side <;> cases d <;> rfl

theorem endBranch_ok {e : Entry} {s s' : Nesting} {side : Side}
    (ended : endBranch e s side = .ok s') : s' = s.closeBranch side := by
  unfold endBranch at ended
  split at ended <;> simp_all

theorem expectBranch_ok {e : Entry} {s s' : Nesting} {side : Side}
    (expected : expectBranch e s side = .ok s') : s' = s := by
  unfold expectBranch at expected
  split at expected <;> simp_all

def attached (i : Nat) (s : Nesting) (side : Side) : Nesting :=
  { s with tree := s.tree.addEdge side (s.top side) i }

theorem attach_ok {i : Nat} {s s' : Nesting} {side : Side}
    (linked : attach i s side = .ok s') : s' = attached i s side := by
  unfold attach at linked
  rw [Tree.link_eq] at linked
  split at linked
  · simp at linked
  · next linkEq =>
      split at linkEq <;> simp_all [attached]

private theorem foldlM_ok {σ ε : Type} {f : σ → Side → Except ε σ} {g : σ → Side → σ}
    (step : ∀ {s side s'}, f s side = .ok s' → s' = g s side) {sides : List Side} {s s' : σ}
    (folded : sides.foldlM f s = .ok s') : s' = sides.foldl g s := by
  induction sides generalizing s with
  | nil =>
      cases folded
      rfl
  | cons side sides ih =>
      rw [List.foldlM_cons] at folded
      cases first : f s side with
      | error e => simp [first, bind, Except.bind] at folded
      | ok next =>
          rw [first] at folded
          rw [List.foldl_cons, ← step first]
          exact ih folded

theorem branches_foldl_closeBranch (edit : Edit) (s : Nesting) (d : Side) :
    (edit.sides.foldl closeBranch s).branches d =
      if edit.existsOn d then (s.branches d).tail else s.branches d := by
  cases edit <;> cases d <;> rfl

theorem branches_foldl_openBranch (edit : Edit) (i : Nat) (s : Nesting) (d : Side) :
    (edit.sides.foldl (fun s side => s.openBranch side i) s).branches d =
      if edit.existsOn d then i :: s.branches d else s.branches d := by
  cases edit <;> cases d <;> rfl

theorem prepare_ok {e : Entry} {s s' : Nesting} (prepared : s.prepare e = .ok s') :
    s'.tree = s.tree ∧
      ∀ d, s'.branches d =
        if e.edit.existsOn d then e.around (s.branches d) else s.branches d := by
  unfold prepare at prepared
  unfold Entry.around
  cases kind : e.kind <;> simp only [kind] at prepared ⊢
  case elifBranch | elseBranch =>
      cases foldlM_ok endBranch_ok prepared
      refine ⟨?_, branches_foldl_closeBranch e.edit s⟩
      cases e.edit <;> rfl
  case endif =>
      have same : s' = s := by
        rw [foldlM_ok (g := fun s _ => s) expectBranch_ok prepared]
        cases e.edit <;> rfl
      simp [same]
  all_goals
    cases prepared
    simp

theorem tree_settle (e : Entry) (i : Nat) (s : Nesting) : (s.settle e i).tree = s.tree := by
  unfold settle
  cases e.kind <;> cases e.edit <;> rfl

theorem branches_settle {e : Entry} {s : Nesting} {d : Side} (opened : List Nat)
    (around : s.branches d = if e.edit.existsOn d then e.around opened else opened) (i : Nat) :
    (s.settle e i).branches d =
      if e.edit.existsOn d then e.behind i opened else opened := by
  unfold settle Entry.behind
  unfold Entry.around at *
  cases kind : e.kind <;> simp only [kind] at around ⊢ <;>
    simp only [branches_foldl_closeBranch, branches_foldl_openBranch, around] <;>
    split <;> rfl

def push (s : Nesting) (e : Entry) : Nesting :=
  { s with tree := s.tree.push (node e s.tree.size) }

@[simp] theorem branches_push (s : Nesting) (e : Entry) (d : Side) :
    (s.push e).branches d = s.branches d := by
  cases d <;> rfl

@[simp] theorem size_push (s : Nesting) (e : Entry) :
    (s.push e).tree.size = s.tree.size + 1 :=
  Tree.size_push _ _

theorem node_push (s : Nesting) (e : Entry) (i : Nat) :
    (s.push e).tree.node i = if i = s.tree.size then node e s.tree.size else s.tree.node i :=
  Tree.node_push i

@[simp] theorem parent_push (s : Nesting) (e : Entry) (d : Side) (i : Nat) :
    (s.push e).tree.parent d i = s.tree.parent d i :=
  Tree.parent_push (by cases d <;> rfl) i

@[simp] theorem children_push (s : Nesting) (e : Entry) (d : Side) (i : Nat) :
    (s.push e).tree.children d i = s.tree.children d i :=
  Tree.children_push (by cases d <;> rfl) i

theorem place_ok {e : Entry} {s s' : Nesting} (placed : s.place e = .ok s') :
    ∃ prepared, s.prepare e = .ok prepared ∧
      s' = (e.edit.sides.foldl (attached s.tree.size) (prepared.push e)).settle e
        s.tree.size := by
  unfold place at placed
  cases prepareEq : s.prepare e with
  | error err => simp [prepareEq, bind, Except.bind] at placed
  | ok prepared =>
      have sameTree := (prepare_ok prepareEq).1
      simp only [prepareEq, bind, Except.bind, sameTree] at placed
      split at placed
      · simp at placed
      · next linked =>
          cases placed
          refine ⟨prepared, rfl, ?_⟩
          rw [foldlM_ok attach_ok linked, push, sameTree]

@[simp] theorem top_attached (i : Nat) (s : Nesting) (side d : Side) :
    (attached i s side).top d = s.top d := by
  cases d <;> rfl

@[simp] theorem size_foldl_attached (edit : Edit) (i : Nat) (s : Nesting) :
    (edit.sides.foldl (attached i) s).tree.size = s.tree.size := by
  cases edit <;> simp [attached]

@[simp] theorem shape_foldl_attached (edit : Edit) (i : Nat) (s : Nesting) :
    (edit.sides.foldl (attached i) s).tree.shape = s.tree.shape := by
  cases edit <;> rfl

theorem branches_foldl_attached (edit : Edit) (i : Nat) (s : Nesting) (d : Side) :
    (edit.sides.foldl (attached i) s).branches d = s.branches d := by
  cases edit <;> cases d <;> rfl

@[simp] theorem bare_foldl_attached (edit : Edit) (i : Nat) (s : Nesting) (j : Nat) :
    ((edit.sides.foldl (attached i) s).tree.node j).bare = (s.tree.node j).bare := by
  cases edit <;> simp [attached]

theorem parent_foldl_attached {i : Nat} {s : Nesting} (inside : i < s.tree.size) (edit : Edit)
    (d : Side) (j : Nat) :
    (edit.sides.foldl (attached i) s).tree.parent d j =
      if edit.existsOn d ∧ j = i then some (s.top d) else s.tree.parent d j := by
  cases edit <;> cases d <;>
    simp [Edit.existsOn, attached, Tree.parent_addEdge, inside, top, branches]

theorem children_foldl_attached {s : Nesting} (inside : ∀ d, s.top d < s.tree.size) (edit : Edit)
    (i : Nat) (d : Side) (j : Nat) :
    (edit.sides.foldl (attached i) s).tree.children d j =
      if edit.existsOn d ∧ j = s.top d then s.tree.children d j ++ [i]
      else s.tree.children d j := by
  have before := inside .before
  have after := inside .after
  cases edit <;> cases d <;>
    simp_all [Edit.existsOn, attached, Tree.children_addEdge, top, branches]

/-- The state in which some entries leave the construction. -/
structure Built (s : Nesting) (es : List Entry) : Prop where
  tree : Overlays s.tree es
  branches : ∀ d, s.branches d = openBranches d es

theorem Built.start (source : Source) : Built (Nesting.start source) [] where
  tree := {
    size := rfl
    shape := rfl
    root := rfl
    entry := by simp
    parent := by
      intro s i
      cases i with
      | zero => cases s <;> rfl
      | succ k => exact Tree.parent_of_size_le (Nat.succ_le_succ (Nat.zero_le k)) s
    children := by
      intro s p
      have unlinked : (Nesting.start source).tree.parent s 0 = none := by cases s <;> rfl
      have alone : (Nesting.start source).tree.size = 1 := rfl
      cases p with
      | zero => cases s <;> rfl
      | succ k =>
          rw [Tree.children_of_size_le (by omega), alone]
          simp [unlinked] }
  branches := by
    intro d
    cases d <;> rfl

theorem Built.top_eq {s prepared : Nesting} {es : List Entry} {e : Entry} (built : Built s es)
    (prepareEq : s.prepare e = .ok prepared) (d : Side) :
    prepared.top d =
      if e.edit.existsOn d then e.scope (openBranches d es) else (openBranches d es).headD 0 := by
  rw [top, (prepare_ok prepareEq).2, built.branches]
  split <;> rfl

theorem Built.place {s s' : Nesting} {es : List Entry} {e : Entry} (built : Built s es)
    (placed : s.place e = .ok s') : Built s' (es ++ [e]) := by
  obtain ⟨prepared, prepareEq, rfl⟩ := place_ok placed
  obtain ⟨sameTree, around⟩ := prepare_ok prepareEq
  have size := built.tree.size
  have top (d : Side) : (prepared.push e).top d = prepared.top d := by
    rw [Nesting.top, branches_push, ← Nesting.top]
  have topInside (d : Side) : (prepared.push e).top d < (prepared.push e).tree.size := by
    rw [size_push, sameTree, size, top, built.top_eq prepareEq]
    split
    · exact Nat.lt_succ_of_le (Nat.le_succ_of_le (scope_le d es e))
    · exact Nat.lt_succ_of_le (Nat.le_succ_of_le (headD_openBranches_le d es))
  constructor
  · rw [tree_settle]
    apply built.tree.append
    · rw [size_foldl_attached, size_push, sameTree, size]
    · rw [shape_foldl_attached, ← built.tree.shape, ← sameTree]
      rfl
    · intro i
      rw [bare_foldl_attached, node_push, sameTree, size]
      split <;> rfl
    · intro d i
      rw [parent_foldl_attached (by rw [size_push, sameTree]; omega), parent_push, sameTree, size,
        top, built.top_eq prepareEq]
      by_cases present : e.edit.existsOn d <;> simp [present]
    · intro d p
      rw [children_foldl_attached topInside, children_push, sameTree, size, top,
        built.top_eq prepareEq]
      by_cases present : e.edit.existsOn d <;> simp [present]
  · intro d
    rw [branches_settle (openBranches d es), openBranches_append, size]
    rw [branches_foldl_attached, branches_push, around, built.branches]

theorem Built.foldlM {s s' : Nesting} {es rest : List Entry} (built : Built s es)
    (placed : rest.foldlM Nesting.place s = .ok s') : Built s' (es ++ rest) := by
  induction rest generalizing s es with
  | nil =>
      cases placed
      simpa using built
  | cons e rest ih =>
      rw [List.foldlM_cons] at placed
      cases first : s.place e with
      | error err => simp [first, bind, Except.bind] at placed
      | ok next =>
          rw [first] at placed
          have := ih (built.place first) placed
          rwa [List.append_assoc] at this

end Nesting

end Patch

end Variability
