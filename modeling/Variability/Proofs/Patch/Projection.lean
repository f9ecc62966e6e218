import Mathlib.Data.List.Forall2
import Variability.Proofs.Patch.Dissolution
import Variability.Proofs.Patch.Remark
import Variability.Proofs.Tree.Embedding

/-!
Each side of a tree is the tree of that side alone. The lines of a patch that a side has, marked as
kept, are a patch again, and its tree has the nodes of that side and no others, in their order, with
their links and presence conditions.
-/

namespace Variability

open Patch (Entry Remarking Accepted Overlays sideLines openBranches scopes?)

/-- A side without the other one: lines of the other side go, and those that stay are kept. -/
def Side.alone (s : Side) : Remarking where
  mark c :=
    match Edit.ofMarker c with
    | .kept => some c
    | edit => if edit.existsOn s then some ' ' else none
  edit e := if e.existsOn s then some .kept else none
  faithful := by
    intro c
    cases edit : Edit.ofMarker c <;> cases s <;> simp [edit, Edit.existsOn] <;> decide
  fixed := by
    intro c member d
    have other : c ≠ '+' ∧ c ≠ '-' ∧ c ≠ ' ' := by
      simp only [List.mem_cons, List.not_mem_nil, or_false] at member
      rcases member with rfl | rfl | rfl | rfl <;> decide
    constructor
    · intro marked
      cases edit : Edit.ofMarker d with
      | kept => simpa [edit] using marked
      | added | removed =>
          simp only [edit, Option.ite_none_right_eq_some, Option.some.injEq] at marked
          exact absurd marked.2.symm other.2.2
    · rintro rfl
      simp [Edit.ofMarker, other]

namespace Tree

/-- The nodes of a side, by their number there. -/
def onSide (t : Tree) (s : Side) (j : Nat) : Option Nat :=
  (t.positions (·.existsOn s))[j]?

/-- A tree is a side of another one, without the other side. -/
structure IsSide (t : Tree) (s : Side) (t' : Tree) : Prop where
  size : t'.size = (t.positions (·.existsOn s)).length
  kept : ∀ j, (t'.node j).edit = .kept
  kind : ∀ {i j}, t.onSide s j = some i → (t'.node j).kind = (t.node i).kind
  label : ∀ {i j}, t.onSide s j = some i → (t'.node j).label = (t.node i).label
  guard : ∀ {i j}, t.onSide s j = some i → (t'.node j).guard = (t.node i).guard
  parent : ∀ {i j}, t.onSide s j = some i → ∀ d,
    (t'.parent d j).map (t.onSide s) = (t.parent s i).map some
  children : ∀ {i j}, t.onSide s j = some i → ∀ d,
    (t'.children d j).map (t.onSide s) = (t.children s i).map some
  condition : ∀ {i j}, t.onSide s j = some i →
    ∃ f, t.presenceCondition s i = .ok f ∧ ∀ d, t'.presenceCondition d j = .ok f

/-- Where a node of a side stands among the nodes of that side. -/
def sidePlace? (t : Tree) (s : Side) : Nat → Option Nat :=
  t.place? fun _ n => n.existsOn s

variable {t : Tree} {s : Side}

theorem positions_side (t : Tree) (s : Side) : t.positions (·.existsOn s) =
    (List.range t.size).filter (t.stays fun _ n => n.existsOn s) := by
  rw [positions_eq]
  refine List.filter_congr fun i member => ?_
  simp [stays, List.mem_range.mp member]

theorem sidePlace?_eq_some_iff {i j : Nat} : t.sidePlace? s i = some j ↔ t.onSide s j = some i := by
  have positions := t.positions_side s
  have nodup : (t.positions (·.existsOn s)).Nodup := positions ▸ List.nodup_range.filter _
  have inside {i : Nat} (stays : t.stays (fun _ n => n.existsOn s) i) : i < t.size := by
    simp only [Tree.stays, Bool.and_eq_true, decide_eq_true_eq] at stays
    exact stays.1
  rw [sidePlace?, place?_eq_some_iff, onSide]
  constructor
  · rintro ⟨stays, rfl⟩
    rw [positions]
    exact filter_range_rank (inside stays) stays
  · intro found
    have member := List.mem_of_getElem? found
    rw [positions, List.mem_filter] at member
    have ranked := filter_range_rank (inside member.2) member.2
    rw [← positions, ← found] at ranked
    exact ⟨member.2, (List.getElem?_inj (List.getElem?_eq_some_iff.mp (ranked.trans found)).1
      nodup).mp ranked⟩

theorem isSome_sidePlace? {i : Nat} :
    (t.sidePlace? s i).isSome ↔ i < t.size ∧ (t.node i).existsOn s := by
  rw [sidePlace?, isSome_place?, stays, Bool.and_eq_true, decide_eq_true_eq]

end Tree

namespace Patch

private theorem getElem?_filter_countP {α : Type} {p : α → Bool} {l : List α} {k : Nat} {a : α}
    (lookup : l[k]? = some a) (passes : p a) : (l.filter p)[(l.take k).countP p]? = some a := by
  induction l generalizing k with
  | nil => simp at lookup
  | cons b l ih =>
      cases k with
      | zero =>
          obtain rfl : b = a := by simpa using lookup
          simp [passes]
      | succ k =>
          have found := ih (k := k) (by simpa using lookup)
          by_cases first : p b <;> simp [first, found]

private theorem exists_getElem?_of_forall₂ {α β : Type} {R : α → β → Prop} {as : List α}
    {bs : List β} (related : List.Forall₂ R as bs) {k : Nat} {a : α} (lookup : as[k]? = some a) :
    ∃ b, bs[k]? = some b ∧ R a b := by
  induction related generalizing k with
  | nil => simp at lookup
  | @cons a' b' as bs here _ ih =>
      cases k with
      | zero =>
          obtain rfl : a' = a := by simpa using lookup
          exact ⟨b', rfl, here⟩
      | succ k => exact ih (k := k) (by simpa using lookup)

namespace Entry

variable {R : Nat → Nat → Prop} {e e' : Entry} (kind : e'.kind = e.kind) {opened opened' : List Nat}
  (related : List.Forall₂ R opened opened')
include kind related

theorem around_forall₂ : List.Forall₂ R (e.around opened) (e'.around opened') := by
  have tail : List.Forall₂ R opened.tail opened'.tail := by
    cases related with
    | nil => exact .nil
    | cons _ rest => exact rest
  unfold around
  rw [kind]
  cases e.kind with
  | elifBranch | elseBranch => exact tail
  | root | ifBranch | endif | code => exact related

/-- Related branches are open behind entries of one kind. -/
theorem behind_forall₂ {i i' : Nat} (own : R i i') :
    List.Forall₂ R (e.behind i opened) (e'.behind i' opened') := by
  have around := around_forall₂ kind related
  unfold behind
  rw [kind]
  cases e.kind with
  | endif =>
      cases related with
      | nil => exact .nil
      | cons _ rest => exact rest
  | code => exact related
  | root | ifBranch | elifBranch | elseBranch => exact .cons own around

theorem scope_related (root : R 0 0) : R (e.scope opened) (e'.scope opened') := by
  have headed {around around' : List Nat} (related : List.Forall₂ R around around') :
      R (around.headD 0) (around'.headD 0) := by
    cases related with
    | nil => exact root
    | cons here _ => exact here
  exact headed (around_forall₂ kind related)

end Entry

section Alone

variable {s : Side}

theorem edit_alone (s : Side) (e : Edit) :
    s.alone.edit e = if e.existsOn s then some .kept else none := rfl

theorem stays_alone (s : Side) (e : Entry) : s.alone.stays e = e.edit.existsOn s := by
  rw [Remarking.stays, edit_alone]
  split
  · next present => rw [present, Option.isSome_some]
  · next absent => simp [absent]

theorem edit_of_becomes {e e' : Entry} (becomes : s.alone.Becomes e e') : e'.edit = .kept := by
  have edit := becomes.edit
  rw [edit_alone] at edit
  split at edit
  · exact (Option.some.inj edit).symm
  · cases edit

/-- The number of entries of a side among the first ones. -/
def sideCount (s : Side) (es : List Entry) (k : Nat) : Nat :=
  (es.take k).countP (·.edit.existsOn s)

theorem sideCount_succ {es : List Entry} {k : Nat} {e : Entry} (lookup : es[k]? = some e) :
    sideCount s es (k + 1) = sideCount s es k + if e.edit.existsOn s then 1 else 0 := by
  obtain ⟨inside, rfl⟩ := List.getElem?_eq_some_iff.mp lookup
  rw [sideCount, List.take_succ_eq_append_getElem inside, List.countP_append, List.countP_singleton,
    ← sideCount]

theorem turns_alone_iff {es es' : List Entry} :
    s.alone.Turns es es' ↔
      List.Forall₂ s.alone.Becomes (es.filter (·.edit.existsOn s)) es' := by
  rw [Remarking.Turns, funext (stays_alone s)]

variable {es es' : List Entry} (turns : s.alone.Turns es es')
include turns

theorem lookup_alone {k : Nat} {e : Entry} (lookup : es[k]? = some e)
    (present : e.edit.existsOn s) :
    ∃ e', es'[sideCount s es k]? = some e' ∧ s.alone.Becomes e e' :=
  exists_getElem?_of_forall₂ (turns_alone_iff.mp turns) (getElem?_filter_countP lookup present)

theorem length_alone : es'.length = sideCount s es es.length := by
  rw [← (turns_alone_iff.mp turns).length_eq, ← List.countP_eq_length_filter, sideCount,
    List.take_length]

theorem edit_of_mem_alone {e' : Entry} (member : e' ∈ es') : e'.edit = .kept := by
  obtain ⟨k, lookup⟩ := List.getElem?_of_mem member
  obtain ⟨e, -, becomes⟩ := exists_getElem?_of_forall₂ turns.flip lookup
  exact edit_of_becomes becomes

/-- Both sides of the patch of a side see the kinds that the side sees. -/
theorem scopes?_alone (d : Side) : scopes? d es' = scopes? s es := by
  have all : es'.filter (·.edit.existsOn d) = es' := by
    refine List.filter_eq_self.mpr fun e' member => ?_
    rw [edit_of_mem_alone turns member]
    rfl
  have kinds : List.Forall₂ (· = ·) ((es.filter (·.edit.existsOn s)).map (·.kind))
      (es'.map (·.kind)) :=
    List.forall₂_map_left_iff.mpr (List.forall₂_map_right_iff.mpr
      ((turns_alone_iff.mp turns).imp fun _ _ becomes => becomes.kind.symm))
  rw [List.forall₂_eq_eq_eq] at kinds
  rw [scopes?, scopes?, map_kind_sideLines, map_kind_sideLines, all, kinds]

end Alone

namespace Accepted

variable {s : Side} {es es' : List Entry} {t t' : Tree} (accepted : Accepted es t)
include accepted

theorem sidePlace?_zero : t.sidePlace? s 0 = some 0 := by
  have present : (t.node 0).existsOn s := by
    simp [Node.existsOn, accepted.overlays.kind_root]
  have inside : 0 < t.size := by
    rw [accepted.overlays.size]
    exact Nat.succ_pos _
  exact Tree.place?_eq_some_iff.mpr ⟨by simp [Tree.stays, inside, present], rfl⟩

theorem stays_entry {k : Nat} {e : Entry} (lookup : es[k]? = some e) :
    t.stays (fun _ n => n.existsOn s) (k + 1) = e.edit.existsOn s := by
  have inside : k + 1 < t.size := by
    have := (List.getElem?_eq_some_iff.mp lookup).1
    rw [accepted.overlays.size]
    omega
  simp [Tree.stays, inside, accepted.overlays.existsOn_entry lookup, accepted.line lookup]

theorem rank_entries {k : Nat} (inside : k ≤ es.length) :
    Tree.rank (t.stays fun _ n => n.existsOn s) (k + 1) = sideCount s es k + 1 := by
  induction k with
  | zero =>
      have root := (Tree.place?_eq_some_iff.mp (accepted.sidePlace?_zero (s := s))).1
      rw [Tree.rank_succ, if_pos root]
      rfl
  | succ k ih =>
      have lookup : es[k]? = some es[k] := List.getElem?_eq_getElem inside
      rw [Tree.rank_succ, ih (Nat.le_of_succ_le inside), accepted.stays_entry lookup,
        sideCount_succ lookup]
      omega

theorem sidePlace?_succ {k : Nat} {e : Entry} (lookup : es[k]? = some e) :
    t.sidePlace? s (k + 1) =
      if e.edit.existsOn s then some (sideCount s es k + 1) else none := by
  have inside := (List.getElem?_eq_some_iff.mp lookup).1
  rw [Tree.sidePlace?, Tree.place?, accepted.stays_entry lookup,
    accepted.rank_entries (Nat.le_of_lt inside)]

theorem isSome_sidePlace?_of_parent {c p : Nat} (linked : t.parent s c = some p) :
    (t.sidePlace? s p).isSome :=
  Tree.isSome_sidePlace?.mpr ⟨Nat.lt_trans (accepted.overlays.parentsFirst s c p linked)
    (Tree.lt_size_of_parent linked), (accepted.overlays.parent_owns linked).1⟩

theorem isSome_sidePlace?_of_mem_children {c p : Nat} (child : c ∈ t.children s p) :
    (t.sidePlace? s c).isSome := by
  have linked := accepted.overlays.mem_children.mp child
  have inside := Tree.lt_size_of_parent linked
  have line : c ≠ 0 := by
    rintro rfl
    rw [accepted.overlays.parent_root] at linked
    cases linked
  refine Tree.isSome_sidePlace?.mpr ⟨inside, ?_⟩
  rw [accepted.existsOn_iff_linked inside line, linked, Option.isSome_some]

section Projected

variable (turns : s.alone.Turns es es')
include turns

/-- The branches that are open on a side are open on both sides of the patch of that side. -/
theorem openBranches_alone {k : Nat} (inside : k ≤ es.length) (d : Side) :
    List.Forall₂ (fun b c => t.sidePlace? s b = some c) (openBranches s (es.take k))
      (openBranches d (es'.take (sideCount s es k))) := by
  induction k with
  | zero => exact .nil
  | succ k ih =>
      have ih := ih (Nat.le_of_succ_le inside)
      have lookup : es[k]? = some es[k] := List.getElem?_eq_getElem inside
      have length : (es.take k).length = k := List.length_take_of_le (Nat.le_of_succ_le inside)
      rw [List.take_succ_eq_append_getElem inside, openBranches_append, length,
        sideCount_succ lookup]
      split
      · next present =>
        obtain ⟨e', lookup', becomes⟩ := lookup_alone turns lookup present
        obtain ⟨inside', rfl⟩ := List.getElem?_eq_some_iff.mp lookup'
        have kept : (es'[sideCount s es k]).edit.existsOn d := by
          rw [edit_of_becomes becomes]
          rfl
        have own := accepted.sidePlace?_succ (s := s) lookup
        rw [if_pos present] at own
        rw [List.take_succ_eq_append_getElem inside', openBranches_append, if_pos kept,
          List.length_take_of_le (Nat.le_of_lt inside')]
        exact Entry.behind_forall₂ becomes.kind ih own
      · exact ih

/-- A node that has a place is the root or comes from an entry of the side. -/
theorem sidePlace?_cases {i j : Nat} (placed : t.sidePlace? s i = some j) :
    i = 0 ∧ j = 0 ∨ ∃ k e e', i = k + 1 ∧ j = sideCount s es k + 1 ∧ es[k]? = some e ∧
      e.edit.existsOn s ∧ es'[sideCount s es k]? = some e' ∧ s.alone.Becomes e e' := by
  rcases Nat.eq_zero_or_pos i with rfl | positive
  · rw [accepted.sidePlace?_zero] at placed
    exact .inl ⟨rfl, (Option.some.inj placed).symm⟩
  · have inside : i < t.size := (Tree.isSome_sidePlace?.mp (by rw [placed, Option.isSome_some])).1
    obtain ⟨k, e, rfl, lookup⟩ := accepted.overlays.lookup inside (by omega)
    rw [accepted.sidePlace?_succ lookup] at placed
    split at placed
    · next present =>
      obtain ⟨e', lookup', becomes⟩ := lookup_alone turns lookup present
      exact .inr ⟨k, e, e', rfl, (Option.some.inj placed).symm, lookup, present, lookup', becomes⟩
    · cases placed

variable (accepted' : Accepted es' t')
include accepted'

theorem content_alone {i j : Nat} (placed : t.sidePlace? s i = some j) :
    (t'.node j).kind = (t.node i).kind ∧ (t'.node j).label = (t.node i).label ∧
      (t'.node j).guard = (t.node i).guard := by
  rcases accepted.sidePlace?_cases turns placed with ⟨rfl, rfl⟩ |
    ⟨k, e, e', rfl, rfl, lookup, -, lookup', becomes⟩
  · have root := accepted.overlays.root
    have root' := accepted'.overlays.root
    exact ⟨(congrArg Node.kind root').trans (congrArg Node.kind root).symm,
      (congrArg Node.label root').trans (congrArg Node.label root).symm,
      (congrArg Node.guard root').trans (congrArg Node.guard root).symm⟩
  · have own := accepted.overlays.entry lookup
    have own' := accepted'.overlays.entry lookup'
    exact ⟨(congrArg Node.kind own').trans (becomes.kind.trans (congrArg Node.kind own).symm),
      (congrArg Node.label own').trans (becomes.label.trans (congrArg Node.label own).symm),
      (congrArg Node.guard own').trans (becomes.guard.trans (congrArg Node.guard own).symm)⟩

omit accepted in
theorem edit_alone_node (j : Nat) : (t'.node j).edit = .kept := by
  rcases Nat.lt_or_ge j t'.size with inside | outside
  · rcases Nat.eq_zero_or_pos j with rfl | positive
    · exact congrArg Node.edit accepted'.overlays.root
    · obtain ⟨k, e', rfl, lookup'⟩ := accepted'.overlays.lookup inside (by omega)
      exact (congrArg Node.edit (accepted'.overlays.entry lookup')).trans
        (edit_of_mem_alone turns (List.mem_of_getElem? lookup'))
  · rw [Tree.node_of_size_le outside]
    rfl

theorem size_alone : t'.size = Tree.rank (t.stays fun _ n => n.existsOn s) t.size := by
  rw [accepted'.overlays.size, length_alone turns, accepted.overlays.size,
    accepted.rank_entries (Nat.le_refl _)]

theorem parent_alone {i j : Nat} (placed : t.sidePlace? s i = some j) (d : Side) :
    t'.parent d j = (t.parent s i).bind (t.sidePlace? s) := by
  rcases accepted.sidePlace?_cases turns placed with ⟨rfl, rfl⟩ |
    ⟨k, e, e', rfl, rfl, lookup, present, lookup', becomes⟩
  · rw [accepted.overlays.parent_root, accepted'.overlays.parent_root]
    rfl
  · have kept : e'.edit.existsOn d := by
      rw [edit_of_becomes becomes]
      rfl
    have inside := Nat.le_of_lt (List.getElem?_eq_some_iff.mp lookup).1
    have scope := Entry.scope_related becomes.kind (accepted.openBranches_alone turns inside d)
      accepted.sidePlace?_zero
    rw [accepted.overlays.parent_entry lookup, accepted'.overlays.parent_entry lookup',
      if_pos present, if_pos kept, Option.bind_some, scope]

theorem children_alone {i j : Nat} (placed : t.sidePlace? s i = some j) (d : Side) :
    t'.children d j = (t.children s i).filterMap (t.sidePlace? s) := by
  have nodes : List.range t'.size = (List.range t.size).filterMap (t.sidePlace? s) := by
    rw [accepted.size_alone turns accepted']
    exact (t.filterMap_place? _ t.size).symm
  rw [accepted.overlays.children, accepted'.overlays.children, nodes, List.filter_filterMap,
    List.filterMap_filter]
  refine List.filterMap_congr fun c _ => ?_
  cases placedChild : t.sidePlace? s c with
  | none => simp
  | some c' =>
      have linked : t'.parent d c' = some j ↔ t.parent s c = some i := by
        rw [accepted.parent_alone turns accepted' placedChild, Option.bind_eq_some_iff]
        constructor
        · rintro ⟨p, linked, placedAbove⟩
          rw [Tree.sidePlace?_eq_some_iff] at placed placedAbove
          rw [linked, ← placed, placedAbove]
        · intro linked
          exact ⟨i, linked, placed⟩
      rw [Option.filter_some]
      simp only [linked]

theorem sideEmbeds (d : Side) : t.SideEmbeds s t' d (t.sidePlace? s) where
  ordered := Tree.place?_lt
  kind := fun placed => (accepted.content_alone turns accepted' placed).1
  guard := fun placed => (accepted.content_alone turns accepted' placed).2.2
  existsOn := by
    intro i j placed
    have present := (Tree.isSome_sidePlace?.mp (Option.isSome_of_eq_some placed)).2
    rw [present, Node.existsOn, edit_alone_node turns accepted' j]
    exact Bool.or_true _
  parent := fun placed => accepted.parent_alone turns accepted' placed d
  children := fun placed => accepted.children_alone turns accepted' placed d

theorem presenceCondition_alone {i j : Nat} (placed : t.sidePlace? s i = some j) :
    ∃ f, t.presenceCondition s i = .ok f ∧ ∀ d, t'.presenceCondition d j = .ok f := by
  have present := (Tree.isSome_sidePlace?.mp (Option.isSome_of_eq_some placed)).2
  obtain ⟨chain, lineage⟩ := accepted.overlays.parentsFirst.exists_lineage s i
  have presentChain : ∀ k ∈ chain, (t.node k).existsOn s := fun k member =>
    accepted.overlays.existsOn_of_mem_lineage present lineage member
  obtain ⟨f, condition, -⟩ := accepted.guarded.exists_presenceCondition lineage presentChain
  refine ⟨f, condition, fun d => ?_⟩
  rw [← condition]
  refine accepted.presenceCondition_place (accepted.sideEmbeds turns accepted' d)
    accepted'.overlays.parentsFirst (fun _ linked => accepted.isSome_sidePlace?_of_parent linked)
    (fun _ _ rival => ?_) placed present
  obtain ⟨p, -, child⟩ := Tree.mem_children_of_mem_rivals rival
  exact accepted.isSome_sidePlace?_of_mem_children child

theorem isSide : t.IsSide s t' where
  size := by
    rw [accepted.size_alone turns accepted', Tree.rank, List.countP_eq_length_filter,
      ← Tree.positions_side]
  kept := edit_alone_node turns accepted'
  kind := fun found =>
    (accepted.content_alone turns accepted' (Tree.sidePlace?_eq_some_iff.mpr found)).1
  label := fun found =>
    (accepted.content_alone turns accepted' (Tree.sidePlace?_eq_some_iff.mpr found)).2.1
  guard := fun found =>
    (accepted.content_alone turns accepted' (Tree.sidePlace?_eq_some_iff.mpr found)).2.2
  parent := by
    intro i j found d
    rw [accepted.parent_alone turns accepted' (Tree.sidePlace?_eq_some_iff.mpr found)]
    cases linked : t.parent s i with
    | none => rfl
    | some p =>
        obtain ⟨q, placedAbove⟩ :=
          Option.isSome_iff_exists.mp (accepted.isSome_sidePlace?_of_parent linked)
        rw [Option.bind_some, placedAbove, Option.map_some, Option.map_some,
          Tree.sidePlace?_eq_some_iff.mp placedAbove]
  children := by
    intro i j found d
    rw [accepted.children_alone turns accepted' (Tree.sidePlace?_eq_some_iff.mpr found)]
    have all : ∀ c ∈ t.children s i, (t.sidePlace? s c).isSome := fun c child =>
      accepted.isSome_sidePlace?_of_mem_children child
    generalize t.children s i = nodes at all
    induction nodes with
    | nil => rfl
    | cons c nodes ih =>
        obtain ⟨c', placed⟩ := Option.isSome_iff_exists.mp (all c (by simp))
        rw [List.filterMap_cons_some placed, List.map_cons, List.map_cons,
          Tree.sidePlace?_eq_some_iff.mp placed, ih fun k member => all k (by simp [member])]
  condition := fun found =>
    accepted.presenceCondition_alone turns accepted' (Tree.sidePlace?_eq_some_iff.mpr found)

end Projected

end Accepted

/-- Each side of a tree is the tree of that side alone. -/
theorem parse_alone {text path commit : String} {t : Tree}
    (first : ((Text.lines text.toList).head?.bind HunkRange.ofHeader?).isSome)
    (parsed : parse text path commit = .ok (.ok t)) (s : Side) :
    ∃ t', parse (s.alone.text text) path commit = .ok (.ok t') ∧ t.IsSide s t' := by
  have accepted := accepted_of_parse parsed
  obtain ⟨⟨hunk, ending⟩, -⟩ :=
    (Reading.exists_toTree_iff (entriesOf_proper text) ⟨path, commit, none⟩).mp ⟨t, parsed⟩
  obtain ⟨es', ⟨entries, ending'⟩, turns⟩ :=
    s.alone.carries_readLines first (entriesOf text) hunk ⟨rfl, ending⟩
  rw [← s.alone.lines_text] at entries ending'
  have same : entriesOf (s.alone.text text) = es' := entries
  have closed' (d : Side) : scopes? d (entriesOf (s.alone.text text)) = some [] := by
    rw [same, scopes?_alone turns, accepted.closed]
  obtain ⟨t', parsed'⟩ := (Reading.exists_toTree_iff (entriesOf_proper (s.alone.text text))
    ⟨path, commit, none⟩).mpr ⟨⟨hunk, ending'⟩, closed'⟩
  have accepted' := accepted_of_parse parsed'
  rw [same] at accepted'
  exact ⟨t', parsed', accepted.isSide turns accepted'⟩

theorem parse_alone_guard :
    ∃ t, parse "@@ -1,3 +1,3 @@\n-#if A\n+#if B\n x\n #endif\n" "f" "c" = .ok (.ok t) ∧
      (t.node 1).guard = some (.disj [.conj [.var "A"]]) ∧
      ∃ t', parse "@@ -1,3 +1,3 @@\n #if B\n x\n #endif\n" "f" "c" = .ok (.ok t') ∧
        t.IsSide .after t' := by
  have parses : parsesTo "@@ -1,3 +1,3 @@\n-#if A\n+#if B\n x\n #endif\n" "f" "c" (fun t =>
      (t.node 1).guard = some (.disj [.conj [.var "A"]])) := by decide +kernel
  obtain ⟨t, parsed, guard⟩ := exists_of_parsesTo parses
  have first : ((Text.lines
      "@@ -1,3 +1,3 @@\n-#if A\n+#if B\n x\n #endif\n".toList).head?.bind
        HunkRange.ofHeader?).isSome := by decide +kernel
  have alone : Side.after.alone.text "@@ -1,3 +1,3 @@\n-#if A\n+#if B\n x\n #endif\n" =
      "@@ -1,3 +1,3 @@\n #if B\n x\n #endif\n" := by decide +kernel
  obtain ⟨t', parsed', side⟩ := parse_alone first parsed .after
  rw [alone] at parsed'
  exact ⟨t, parsed, of_decide_eq_true guard, t', parsed', side⟩

end Patch

end Variability
