import Variability.MovedElse
import Variability.Proofs.Tree.Sequel

/-!
Moved `else` branches of two trees under one root. An `else` is matched with a removed one that has
the same parent, so all that the two trees can exchange are the branches right below the root.
There the first removed one counts, and this is one of the first tree if it has any.
-/

namespace Variability

/-- The lines from the first to the last of two spans. -/
def LineSpan.around (a b : LineSpan) : LineSpan :=
  ⟨min a.first b.first, max a.last b.last⟩

theorem LineSpan.around_later (n : Nat) (a b : LineSpan) :
    (a.later n).around (b.later n) = (a.around b).later n := by
  simp only [around, later, Nat.add_min_add_left, Nat.add_max_add_left]

def SemanticMatch.later (offset lines : Nat) (found : SemanticMatch) : SemanticMatch :=
  { found with nodeId := Tree.later offset found.nodeId, lines := found.lines.later lines }

private theorem guard_bind {α : Type} (p : Prop) [Decidable p] (next : Unit → Option α) :
    (guard p >>= next) = if p then next () else none := by
  unfold guard
  split <;> rfl

/-- Whether a node is an `else` branch that an edit adds or removes. -/
def Node.isElse (n : Node) (e : Edit) : Bool :=
  n.kind = .elseBranch && n.edit = e

theorem Node.isElse_iff {n : Node} {e : Edit} :
    n.isElse e ↔ n.kind = .elseBranch ∧ n.edit = e := by
  rw [isElse, Bool.and_eq_true, decide_eq_true_eq, decide_eq_true_eq]

namespace Tree

/-- The `else` branches right below the root that an edit adds or removes. -/
def topElses (t : Tree) (e : Edit) : List Nat :=
  t.positions fun n => n.isElse e && Side.all.any fun s => n.parent s = some 0

/-- The `else` branches that are removed from a scope. -/
def removedElses (t : Tree) (scope : Nat) : List Nat :=
  (t.children .before scope).filter fun c => (t.node c).isElse .removed

/-- What an added `else` makes of a removed one in its scope. -/
def matchOf? (t : Tree) (scope i r : Nat) : Option SemanticMatch :=
  if t.exchanges .after scope i || t.exchanges .before scope r then
    some ⟨"MoveElse", (t.node i).id, (t.node i).lines.around (t.node r).lines⟩
  else none

variable {t u : Tree} {lines : Nat}

theorem removedElse?_eq_head? (t : Tree) (scope : Nat) :
    t.removedElse? scope = (t.removedElses scope).head? :=
  List.head?_filter.symm

theorem movedElse?_eq (t : Tree) (i : Nat) :
    t.movedElse? i =
      if (t.node i).isElse .added then
        (t.parent .after i).bind fun scope =>
          (t.removedElses scope).head?.bind (t.matchOf? scope i)
      else none := by
  refine (guard_bind _ _).trans (if_congr Iff.rfl ?_ rfl)
  refine congrArg (Option.bind _) (funext fun scope => ?_)
  rw [← removedElse?_eq_head?]
  exact congrArg (Option.bind _) (funext fun r => guard_bind _ _)

theorem movedElse?_zero (linked : t.Linked) : t.movedElse? 0 = none := by
  rw [movedElse?_eq, linked.parent_zero]
  split <;> rfl

theorem filterMap_tail_range {α : Type} {f : Nat → Option α} (root : f 0 = none) (n : Nat) :
    (List.range n).tail.filterMap f = (List.range n).filterMap f := by
  cases n with
  | zero => rfl
  | succ n => rw [List.range_succ_eq_map, List.filterMap_cons_none root, List.tail_cons]

namespace Linked

variable (linked : t.Linked)
include linked

theorem mem_removedElses {scope r : Nat} :
    r ∈ t.removedElses scope ↔
      t.parent .before r = some scope ∧ (t.node r).isElse .removed := by
  rw [removedElses, List.mem_filter, linked.mem_children]

theorem inside_of_head?_removedElses {scope r : Nat}
    (removed : (t.removedElses scope).head? = some r) : 0 < r ∧ r < t.size := by
  have parent := (linked.mem_removedElses.mp (List.mem_of_mem_head? removed)).1
  exact ⟨Nat.zero_lt_of_lt (linked.ordered .before r scope parent), lt_size_of_parent parent⟩

/-- A branch right below the root that is on one side only is a child of the root on this side. -/
theorem mem_topElses {e : Edit} {s : Side} (absent : e.existsOn s.other = false) {i : Nat} :
    i ∈ t.topElses e ↔ t.parent s i = some 0 ∧ (t.node i).isElse e := by
  simp only [topElses, mem_positions, Bool.and_eq_true, List.any_eq_true, decide_eq_true_eq]
  constructor
  · rintro ⟨-, branch, d, -, parent⟩
    refine ⟨?_, branch⟩
    obtain ⟨kind, edit⟩ := Node.isElse_iff.mp branch
    have present := linked.child parent
    rw [Node.existsOn, kind, edit] at present
    have same : d ≠ s.other := by
      rintro rfl
      rw [absent] at present
      cases present
    obtain rfl : d = s := by cases d <;> cases s <;> first | rfl | exact absurd rfl same
    exact parent
  · rintro ⟨parent, branch⟩
    exact ⟨lt_size_of_parent parent, branch, s, Side.mem_all s, parent⟩

theorem mem_topElses_removed {r : Nat} : r ∈ t.topElses .removed ↔ r ∈ t.removedElses 0 := by
  rw [linked.mem_topElses (s := .before) rfl, linked.mem_removedElses]

theorem removedElses_zero_eq_nil : t.removedElses 0 = [] ↔ t.topElses .removed = [] := by
  rw [List.eq_nil_iff_forall_not_mem, List.eq_nil_iff_forall_not_mem]
  exact forall_congr' fun r => not_congr linked.mem_topElses_removed.symm

theorem head?_removedElses_of_only {r : Nat} (only : t.topElses .removed = [r]) :
    (t.removedElses 0).head? = some r := by
  cases removed : t.removedElses 0 with
  | nil =>
      rw [linked.removedElses_zero_eq_nil.mp removed] at only
      cases only
  | cons r' rest =>
      have member := linked.mem_topElses_removed.mpr (removed ▸ List.mem_cons_self)
      rw [only, List.mem_singleton] at member
      rw [member, List.head?_cons]

theorem isBranchOf_iff {scope i : Nat} :
    t.isBranchOf scope i ↔ (t.node i).kind.hasGuard ∧ ∃ s, t.parent s i = some scope := by
  simp [isBranchOf, linked.mem_children]

end Linked

theorem isElse_followedBy_first {i : Nat} (inside : i < t.size) (e : Edit) :
    ((t.followedBy u lines).node i).isElse e = (t.node i).isElse e := by
  rw [Node.isElse, kind_followedBy_first inside, edit_followedBy_first inside, Node.isElse]

namespace Meet

variable (meet : t.Meet u)
include meet

theorem isElse_second {i : Nat} (inside : i < u.size) (e : Edit) :
    ((t.followedBy u lines).node (later (t.size - 1) i)).isElse e = (u.node i).isElse e := by
  rw [Node.isElse, meet.kind_second inside, meet.edit_second inside, Node.isElse]

private theorem filter_first (scope : Nat) :
    (t.children .before scope).filter (fun c =>
        ((t.followedBy u lines).node c).isElse .removed) = t.removedElses scope :=
  List.filter_congr fun _ child =>
    isElse_followedBy_first (meet.linked.lt_size_of_mem_children child) .removed

private theorem filter_second (scope : Nat) :
    ((u.children .before scope).map (later (t.size - 1))).filter (fun c =>
        ((t.followedBy u lines).node c).isElse .removed) =
      (u.removedElses scope).map (later (t.size - 1)) := by
  rw [List.filter_map]
  exact congrArg _ (List.filter_congr fun _ child =>
    meet.isElse_second (meet.linkedToo.lt_size_of_mem_children child) .removed)

theorem removedElses_zero (lines : Nat) :
    (t.followedBy u lines).removedElses 0 =
      t.removedElses 0 ++ (u.removedElses 0).map (later (t.size - 1)) := by
  rw [removedElses, children_followedBy_zero, List.filter_append, meet.filter_first,
    meet.filter_second]

theorem removedElses_first {scope : Nat} (positive : 0 < scope) (inside : scope < t.size) :
    (t.followedBy u lines).removedElses scope = t.removedElses scope := by
  rw [removedElses, children_followedBy_first positive inside, meet.filter_first]

theorem removedElses_second {scope : Nat} (positive : 0 < scope) (inside : scope < u.size) :
    (t.followedBy u lines).removedElses (later (t.size - 1) scope) =
      (u.removedElses scope).map (later (t.size - 1)) := by
  rw [removedElses, children_followedBy_second positive inside, meet.filter_second]

variable (whole : (t.followedBy u lines).Linked)
include whole

theorem isBranchOf_first (scope : Nat) {i : Nat} (inside : i < t.size) :
    (t.followedBy u lines).isBranchOf scope i = t.isBranchOf scope i := by
  rw [Bool.eq_iff_iff, whole.isBranchOf_iff, meet.linked.isBranchOf_iff,
    kind_followedBy_first inside]
  simp only [parent_followedBy_first inside]

theorem isBranchOf_second (scope : Nat) {i : Nat} (inside : i < u.size) :
    (t.followedBy u lines).isBranchOf (later (t.size - 1) scope) (later (t.size - 1) i) =
      u.isBranchOf scope i := by
  have shifted (s : Side) :
      (u.parent s i).map (later (t.size - 1)) = some (later (t.size - 1) scope) ↔
        u.parent s i = some scope :=
    (Option.map_injective (later_injective (t.size - 1))).eq_iff (b := some scope)
  rw [Bool.eq_iff_iff, whole.isBranchOf_iff, meet.linkedToo.isBranchOf_iff,
    meet.kind_second inside]
  simp only [meet.parent_second inside, shifted]

theorem exchanges_first (s : Side) (scope : Nat) {i : Nat} (positive : 0 < i)
    (inside : i < t.size) :
    (t.followedBy u lines).exchanges s scope i = t.exchanges s scope i := by
  rw [Bool.eq_iff_iff, exchanges, exchanges, children_followedBy_first positive inside,
    List.any_eq_true, List.any_eq_true]
  refine exists_congr fun c => and_congr_right fun child => ?_
  have below := meet.linked.lt_size_of_mem_children child
  rw [parent_followedBy_first below]
  cases parent : t.parent s.other c with
  | none => rfl
  | some p =>
      have above := Nat.lt_trans (meet.linked.ordered _ c p parent) below
      rw [Option.any_some, Option.any_some, meet.isBranchOf_first whole scope above]

theorem exchanges_second (s : Side) (scope : Nat) {i : Nat} (positive : 0 < i)
    (inside : i < u.size) :
    (t.followedBy u lines).exchanges s (later (t.size - 1) scope) (later (t.size - 1) i) =
      u.exchanges s scope i := by
  rw [Bool.eq_iff_iff, exchanges, exchanges, children_followedBy_second positive inside,
    List.any_map, List.any_eq_true, List.any_eq_true]
  refine exists_congr fun c => and_congr_right fun child => ?_
  have below := meet.linkedToo.lt_size_of_mem_children child
  rw [Function.comp_apply, meet.parent_second below, Option.any_map]
  cases parent : u.parent s.other c with
  | none => rfl
  | some p =>
      have above := Nat.lt_trans (meet.linkedToo.ordered _ c p parent) below
      rw [Option.any_some, Option.any_some, meet.isBranchOf_second whole scope above]

theorem matchOf?_first (scope : Nat) {i r : Nat} (positive : 0 < i) (inside : i < t.size)
    (positiveToo : 0 < r) (insideToo : r < t.size) :
    (t.followedBy u lines).matchOf? scope i r = t.matchOf? scope i r := by
  rw [matchOf?, matchOf?, meet.exchanges_first whole .after scope positive inside,
    meet.exchanges_first whole .before scope positiveToo insideToo,
    node_followedBy_first positive inside, node_followedBy_first positiveToo insideToo]

theorem matchOf?_second (scope : Nat) {i r : Nat} (positive : 0 < i) (inside : i < u.size)
    (positiveToo : 0 < r) (insideToo : r < u.size) :
    (t.followedBy u lines).matchOf? (later (t.size - 1) scope) (later (t.size - 1) i)
        (later (t.size - 1) r) =
      (u.matchOf? scope i r).map (SemanticMatch.later (t.size - 1) lines) := by
  rw [matchOf?, matchOf?, meet.exchanges_second whole .after scope positive inside,
    meet.exchanges_second whole .before scope positiveToo insideToo,
    node_followedBy_second positive inside, node_followedBy_second positiveToo insideToo]
  split
  · change some (SemanticMatch.mk _ _ (((u.node i).lines.later lines).around
      ((u.node r).lines.later lines))) = _
    rw [LineSpan.around_later]
    rfl
  · rfl

omit whole in
theorem head?_removedElses_first {scope : Nat} (inside : scope < t.size)
    (own : scope = 0 → t.topElses .removed = [] → u.topElses .removed = []) :
    ((t.followedBy u lines).removedElses scope).head? = (t.removedElses scope).head? := by
  rcases Nat.eq_zero_or_pos scope with rfl | positive
  · rw [meet.removedElses_zero]
    cases removed : t.removedElses 0 with
    | nil =>
        have none := own rfl (meet.linked.removedElses_zero_eq_nil.mp removed)
        rw [meet.linkedToo.removedElses_zero_eq_nil.mpr none]
        rfl
    | cons r rest => rfl
  · rw [meet.removedElses_first positive inside]

omit whole in
theorem head?_removedElses_second {scope : Nat} (inside : scope < u.size)
    (own : scope = 0 → t.topElses .removed = []) :
    ((t.followedBy u lines).removedElses (later (t.size - 1) scope)).head? =
      (u.removedElses scope).head?.map (later (t.size - 1)) := by
  rcases Nat.eq_zero_or_pos scope with rfl | positive
  · rw [later, meet.removedElses_zero, meet.linked.removedElses_zero_eq_nil.mpr (own rfl),
      List.nil_append, List.head?_map]
  · rw [meet.removedElses_second positive inside, List.head?_map]

/-- An `else` of the first tree is matched as it is there, unless it is right below the root where
only the second tree removes one. -/
theorem movedElse?_first {i : Nat} (inside : i < t.size)
    (own : i ∈ t.topElses .added → t.topElses .removed = [] → u.topElses .removed = []) :
    (t.followedBy u lines).movedElse? i = t.movedElse? i := by
  have linked := meet.linked
  rw [movedElse?_eq, movedElse?_eq, isElse_followedBy_first inside,
    parent_followedBy_first inside]
  split
  · next added =>
    cases parent : t.parent .after i with
    | none => rfl
    | some scope =>
        have below := linked.ordered .after i scope parent
        have top : scope = 0 → i ∈ t.topElses .added := by
          rintro rfl
          exact (linked.mem_topElses rfl).mpr ⟨parent, added⟩
        rw [Option.bind_some, Option.bind_some, meet.head?_removedElses_first
          (Nat.lt_trans below inside) fun root => own (top root)]
        cases removed : (t.removedElses scope).head? with
        | none => rfl
        | some r =>
            obtain ⟨positiveToo, insideToo⟩ := linked.inside_of_head?_removedElses removed
            exact meet.matchOf?_first whole scope (Nat.zero_lt_of_lt below) inside positiveToo
              insideToo
  · rfl

/-- A match of the first tree is neither hidden nor hung elsewhere: its removed `else` comes
first. -/
theorem movedElse?_of_found {i : Nat} {found : SemanticMatch} (inside : i < t.size)
    (matched : t.movedElse? i = some found) :
    (t.followedBy u lines).movedElse? i = some found := by
  rw [meet.movedElse?_first whole inside, matched]
  intro added none
  obtain ⟨parent, branch⟩ := (meet.linked.mem_topElses (s := .after) rfl).mp added
  rw [movedElse?_eq, if_pos branch, parent, Option.bind_some,
    meet.linked.removedElses_zero_eq_nil.mpr none] at matched
  cases matched

/-- So is one of the second tree, unless it is right below the root where the first tree removes
one. -/
theorem movedElse?_second {i : Nat} (inside : i < u.size)
    (own : i ∈ u.topElses .added → t.topElses .removed = []) :
    (t.followedBy u lines).movedElse? (later (t.size - 1) i) =
      (u.movedElse? i).map (SemanticMatch.later (t.size - 1) lines) := by
  have linked := meet.linkedToo
  rw [movedElse?_eq, movedElse?_eq, meet.isElse_second inside, meet.parent_second inside]
  split
  · next added =>
    cases parent : u.parent .after i with
    | none => rfl
    | some scope =>
        have below := linked.ordered .after i scope parent
        have top : scope = 0 → i ∈ u.topElses .added := by
          rintro rfl
          exact (linked.mem_topElses rfl).mpr ⟨parent, added⟩
        rw [Option.map_some, Option.bind_some, Option.bind_some,
          meet.head?_removedElses_second (Nat.lt_trans below inside) fun root => own (top root)]
        cases removed : (u.removedElses scope).head? with
        | none => rfl
        | some r =>
            obtain ⟨positiveToo, insideToo⟩ := linked.inside_of_head?_removedElses removed
            exact meet.matchOf?_second whole scope (Nat.zero_lt_of_lt below) inside positiveToo
              insideToo
  · rfl

/-- An `else` that is added right below the root of the first tree, where only the second removes
one, is taken together with this one. -/
theorem movedElse?_across_first {i r : Nat} (added : i ∈ t.topElses .added)
    (none : t.topElses .removed = []) (only : u.topElses .removed = [r]) :
    (t.followedBy u lines).movedElse? i =
      if t.exchanges .after 0 i || u.exchanges .before 0 r then
        some ⟨"MoveElse", (t.node i).id, (t.node i).lines.around ((u.node r).lines.later lines)⟩
      else Option.none := by
  obtain ⟨parent, branch⟩ := (meet.linked.mem_topElses (s := .after) rfl).mp added
  have positive := meet.linked.ordered .after i 0 parent
  have inside := lt_size_of_parent parent
  have removed := meet.linkedToo.head?_removedElses_of_only only
  obtain ⟨positiveToo, insideToo⟩ := meet.linkedToo.inside_of_head?_removedElses removed
  have exchanges := meet.exchanges_second whole .before 0 positiveToo insideToo
  rw [later] at exchanges
  rw [movedElse?_eq, isElse_followedBy_first inside, if_pos branch,
    parent_followedBy_first inside, parent, Option.bind_some, meet.removedElses_zero,
    meet.linked.removedElses_zero_eq_nil.mpr none, List.nil_append, List.head?_map, removed,
    Option.map_some, Option.bind_some, matchOf?, exchanges,
    meet.exchanges_first whole .after 0 positive inside, node_followedBy_first positive inside,
    node_followedBy_second positiveToo insideToo]
  rfl

/-- An `else` that is added right below the root of the second tree is taken together with the only
one that the first removes there. -/
theorem movedElse?_across_second {i r : Nat} (added : i ∈ u.topElses .added)
    (only : t.topElses .removed = [r]) :
    (t.followedBy u lines).movedElse? (later (t.size - 1) i) =
      if u.exchanges .after 0 i || t.exchanges .before 0 r then
        some ⟨"MoveElse", later (t.size - 1) (u.node i).id,
          ((u.node i).lines.later lines).around (t.node r).lines⟩
      else Option.none := by
  obtain ⟨parent, branch⟩ := (meet.linkedToo.mem_topElses (s := .after) rfl).mp added
  have positive := meet.linkedToo.ordered .after i 0 parent
  have inside := lt_size_of_parent parent
  have removed := meet.linked.head?_removedElses_of_only only
  obtain ⟨positiveToo, insideToo⟩ := meet.linked.inside_of_head?_removedElses removed
  have exchanges := meet.exchanges_second whole .after 0 positive inside
  rw [later] at exchanges
  rw [movedElse?_eq, meet.isElse_second inside, if_pos branch, meet.parent_second inside, parent,
    Option.map_some, Option.bind_some, later, meet.removedElses_zero, List.head?_append, removed,
    Option.some_or, Option.bind_some, matchOf?, exchanges,
    meet.exchanges_first whole .before 0 positiveToo insideToo,
    node_followedBy_second positive inside, node_followedBy_first positiveToo insideToo]
  rfl

/-- Where nothing is exchanged right below the root, the matches are those of the two trees. -/
theorem movedElses_followedBy
    (own : t.topElses .added ≠ [] → t.topElses .removed = [] → u.topElses .removed = [])
    (ownToo : u.topElses .added ≠ [] → t.topElses .removed = []) :
    (t.followedBy u lines).movedElses =
      t.movedElses ++ u.movedElses.map (SemanticMatch.later (t.size - 1) lines) := by
  have first : (List.range t.size).filterMap (t.followedBy u lines).movedElse? = t.movedElses :=
    List.filterMap_congr fun i member =>
      meet.movedElse?_first whole (List.mem_range.mp member) fun added =>
        own (List.ne_nil_of_mem added)
  have second : ((List.range u.size).tail.map (later (t.size - 1))).filterMap
      (t.followedBy u lines).movedElse? =
        u.movedElses.map (SemanticMatch.later (t.size - 1) lines) := by
    rw [movedElses, ← filterMap_tail_range (movedElse?_zero meet.linkedToo), List.map_filterMap,
      List.filterMap_map]
    exact List.filterMap_congr fun i member =>
      meet.movedElse?_second whole (List.mem_range.mp (List.mem_of_mem_tail member)) fun added =>
        ownToo (List.ne_nil_of_mem added)
  rw [movedElses, range_followedBy meet.rooted meet.rootedToo, List.filterMap_append, first,
    second]

end Meet

end Tree

end Variability
