import Variability.Proofs.Tree.Consistency
import Variability.Proofs.Tree.Union

/-!
Trees that were built step by step. Every operation that builds a tree keeps its links in order:
one that adds a link looks at both ends first, and one that moves nodes takes the links along. Only
what comes from elsewhere can bring links that are not: a node that is pushed keeps the links that
it carries, and trees are joined as they are. What can still be wrong with a tree that was built
without such links are its roots, its ids, nodes without a parent, and cycles.
-/

namespace Variability.Tree

/-- What comes out of the operations that build trees, whatever nodes and trees they are given. -/
inductive Assembled : Tree → Prop where
  | singleton (source : Source) : Assembled (singleton source)
  | empty (shape : Shape) (source : Source) : Assembled (empty shape source)
  | push {t : Tree} (assembled : Assembled t) (n : Node) : Assembled (t.push n)
  | link {t : Tree} (assembled : Assembled t) (s : Side) {p c : Nat} (parent : p < t.size)
      (child : c < t.size) : Assembled ((linkIn s p c).run.run t).2
  | restrict {t : Tree} (assembled : Assembled t) (keep : Nat → Node → Bool) :
      Assembled (t.restrict keep)
  | toGraph {t : Tree} (assembled : Assembled t) : Assembled t.toGraph
  | commitGraph (commit : String) (ts : List Tree) : Assembled (commitGraph commit ts)

/-- A node that is linked to nothing but itself, as the node at a position. -/
structure LoopsAt (n : Node) (s : Side) (i : Nat) : Prop where
  links : n.links s = ⟨some i, [i]⟩
  lower : n.kind ≠ .root
  present : n.existsOn s
  scope : n.kind.isScope

/-- What comes out of them when the nodes that are pushed carry no links, or a loop of their own,
and the trees that are joined were built in the same way. -/
inductive Built : Tree → Prop where
  | singleton (source : Source) : Built (singleton source)
  | empty (shape : Shape) (source : Source) : Built (empty shape source)
  | push {t : Tree} (built : Built t) {n : Node}
      (orderly : ∀ s, n.links s = .none ∨ LoopsAt n s t.size) : Built (t.push n)
  | link {t : Tree} (built : Built t) (s : Side) {p c : Nat} (parent : p < t.size)
      (child : c < t.size) : Built ((linkIn s p c).run.run t).2
  | restrict {t : Tree} (built : Built t) (keep : Nat → Node → Bool) : Built (t.restrict keep)
  | toGraph {t : Tree} (built : Built t) : Built t.toGraph
  | commitGraph (commit : String) {ts : List Tree} (built : ∀ t ∈ ts, Built t) :
      Built (commitGraph commit ts)

variable {t : Tree} {s : Side}

theorem Interlinked.empty (shape : Shape) (source : Source) (s : Side) :
    (Tree.empty shape source).Interlinked s := by
  have unlinked (i : Nat) : (Tree.empty shape source).parent s i = none :=
    parent_of_size_le (Nat.zero_le i) s
  have childless (i : Nat) : (Tree.empty shape source).children s i = [] :=
    children_of_size_le (Nat.zero_le i) s
  constructor <;> simp [unlinked, childless]

/-- The nodes of an interlinked tree know nothing of one that comes behind them. -/
theorem Interlinked.links_of_push (links : t.Interlinked s) {n : Node}
    (pushed : (t.push n).Interlinked s) : n.links s = .none ∨ LoopsAt n s t.size := by
  have node : (t.push n).node t.size = n := node_push_self t n
  have parent : (t.push n).parent s t.size = n.parent s := by rw [parent_push_eq, if_pos rfl]
  have children : (t.push n).children s t.size = n.children s := by
    rw [children_push_eq, if_pos rfl]
  have owned {c : Nat} (child : c ∈ n.children s) : (t.push n).parent s c = some t.size :=
    pushed.inverse.mp (children.symm ▸ child)
  have below {c : Nat} (child : c ∈ n.children s) : c = t.size := by
    by_contra other
    have linked := owned child
    rw [parent_push_eq, if_neg other] at linked
    exact Nat.lt_irrefl _ (links.parent_lt linked)
  have above {p : Nat} (linked : n.parent s = some p) : p = t.size := by
    by_contra other
    have child := pushed.inverse.mpr (parent.trans linked)
    rw [children_push_eq, if_neg other] at child
    exact Nat.lt_irrefl _ (links.child_lt child)
  cases linked : n.parent s with
  | none =>
      have childless : n.children s = [] := by
        refine List.eq_nil_iff_forall_not_mem.mpr fun c child => ?_
        have up := owned child
        rw [below child, parent, linked] at up
        cases up
      exact .inl (congrArg₂ Links.mk linked childless)
  | some p =>
      obtain rfl := above linked
      have up := parent.trans linked
      have once := pushed.once t.size
      have child := pushed.inverse.mpr up
      rw [children] at once child
      have alone : n.children s = [t.size] :=
        List.perm_singleton.mp ((List.perm_ext_iff_of_nodup once (List.nodup_singleton _)).mpr
          fun c => ⟨fun listed => List.mem_singleton.mpr (below listed),
            fun same => List.mem_singleton.mp same ▸ child⟩)
      exact .inr ⟨congrArg₂ Links.mk linked alone, node ▸ pushed.kind_ne_root up,
        node ▸ pushed.present up, node ▸ pushed.scope up⟩

/-! What links a node carries that has none or loops at a position. -/

section Orderly

variable {n : Node} {i : Nat} (orderly : n.links s = .none ∨ LoopsAt n s i)
include orderly

theorem loopsAt_of_parent {p : Nat} (linked : n.parent s = some p) : p = i ∧ LoopsAt n s i := by
  rcases orderly with unlinked | loop
  · rw [Node.parent, unlinked] at linked
    cases linked
  · rw [Node.parent, loop.links] at linked
    exact ⟨(Option.some.inj linked).symm, loop⟩

theorem mem_children_iff_loops {c : Nat} :
    c ∈ n.children s ↔ c = i ∧ n.parent s = some i := by
  rcases orderly with unlinked | loop
  · simp [Node.children, Node.parent, unlinked, Links.none]
  · simp [Node.children, Node.parent, loop.links]

theorem nodup_children_of_orderly : (n.children s).Nodup := by
  rcases orderly with unlinked | loop
  · simp [Node.children, unlinked, Links.none]
  · simp [Node.children, loop.links]

end Orderly

theorem Interlinked.parent_push_cases (links : t.Interlinked s) {n : Node}
    (orderly : n.links s = .none ∨ LoopsAt n s t.size) {c p : Nat}
    (linked : (t.push n).parent s c = some p) :
    (c = t.size ∧ p = t.size ∧ LoopsAt n s t.size) ∨
      (c < t.size ∧ p < t.size ∧ t.parent s c = some p) := by
  rw [parent_push_eq] at linked
  split at linked
  · next last => exact .inl ⟨last, loopsAt_of_parent orderly linked⟩
  · exact .inr ⟨lt_size_of_parent linked, links.parent_lt linked, linked⟩

theorem Interlinked.push (links : t.Interlinked s) {n : Node}
    (orderly : n.links s = .none ∨ LoopsAt n s t.size) : (t.push n).Interlinked s := by
  constructor
  · intro p c
    rw [parent_push_eq, children_push_eq]
    by_cases last : c = t.size <;> by_cases under : p = t.size
    · subst last under
      simp [mem_children_iff_loops orderly]
    · have behind : c ∉ t.children s p := fun child => last.not_lt (links.child_lt child)
      simp only [if_pos last, if_neg under, behind, false_iff]
      exact fun linked => under (loopsAt_of_parent orderly linked).1
    · have behind : t.parent s c ≠ some p := fun linked => under.not_lt (links.parent_lt linked)
      simp [last, under, mem_children_iff_loops orderly, under ▸ behind]
    · simp only [if_neg last, if_neg under, links.inverse]
  · intro p
    rw [children_push_eq]
    split
    · exact nodup_children_of_orderly orderly
    · exact links.once p
  · intro i root
    rw [node_push] at root
    cases linked : (t.push n).parent s i with
    | none => rfl
    | some p =>
        rcases links.parent_push_cases orderly linked with ⟨last, -, loop⟩ | ⟨inside, -, old⟩
        · rw [if_pos last] at root
          exact absurd root loop.lower
        · rw [if_neg inside.ne] at root
          exact absurd root (links.kind_ne_root old)
  · intro c p linked
    rw [node_push]
    rcases links.parent_push_cases orderly linked with ⟨last, -, loop⟩ | ⟨inside, -, old⟩
    · exact if_pos last ▸ loop.present
    · exact if_neg inside.ne ▸ links.present old
  · intro c p linked
    rw [node_push]
    rcases links.parent_push_cases orderly linked with ⟨-, under, loop⟩ | ⟨-, inside, old⟩
    · exact if_pos under ▸ loop.present
    · exact if_neg inside.ne ▸ links.owner old
  · intro c p linked
    rw [node_push]
    rcases links.parent_push_cases orderly linked with ⟨-, under, loop⟩ | ⟨-, inside, old⟩
    · exact if_pos under ▸ loop.scope
    · exact if_neg inside.ne ▸ links.scope old

/-- A node can be pushed onto an interlinked tree if it carries no links or a loop of its own, and
no other node can. -/
theorem Interlinked.push_iff (links : t.Interlinked s) (n : Node) :
    (t.push n).Interlinked s ↔ n.links s = .none ∨ LoopsAt n s t.size :=
  ⟨links.links_of_push, links.push⟩

theorem Interlinked.addEdge (links : t.Interlinked s) {d : Side} {p c : Nat} (owner : p < t.size)
    (child : c < t.size) (unflawed : t.edgeFlaw? d p c = none) :
    (t.addEdge d p c).Interlinked s := by
  obtain ⟨present, noRoot, ownerPresent, scope, unlinked⟩ := edgeFlaw?_eq_none_iff.mp unflawed
  have sameKind (i : Nat) : ((t.addEdge d p c).node i).kind = (t.node i).kind := by
    rw [← Node.bare_kind, bare_addEdge, Node.bare_kind]
  have samePresence (i : Nat) : ((t.addEdge d p c).node i).existsOn s = (t.node i).existsOn s :=
    Node.existsOn_of_bare_eq (bare_addEdge t d p c i) s
  have parent (i : Nat) := parent_addEdge child d s p i
  have children (i : Nat) := children_addEdge owner d s c i
  have linked {e q : Nat} (above : (t.addEdge d p c).parent s e = some q) :
      (s = d ∧ e = c ∧ q = p) ∨ t.parent s e = some q := by
    rw [parent] at above
    split at above
    · next here => exact .inl ⟨here.1, here.2, (Option.some.inj above).symm⟩
    · exact .inr above
  have new (same : s = d) (q : Nat) : c ∉ t.children s q := by
    subst same
    intro listed
    rw [links.inverse.mp listed] at unlinked
    cases unlinked
  constructor
  · intro q e
    rw [parent, children]
    by_cases here : s = d
    · by_cases last : e = c
      · subst last
        by_cases under : q = p
        · simp [here, under]
        · simp [here, under, here ▸ new here q, Ne.symm under]
      · by_cases under : q = p <;> simp [here, under, last, here ▸ links.inverse]
    · simp [here, links.inverse]
  · intro q
    rw [children]
    split
    · next under =>
      exact (links.once q).append (List.nodup_singleton c)
        (List.disjoint_singleton.mpr (new under.1 q))
    · exact links.once q
  · intro i root
    rw [sameKind] at root
    rw [parent, if_neg]
    · exact links.top root
    · rintro ⟨-, rfl⟩
      exact noRoot root
  · intro e q above
    rw [samePresence]
    rcases linked above with ⟨rfl, rfl, rfl⟩ | old
    · exact present
    · exact links.present old
  · intro e q above
    rw [samePresence]
    rcases linked above with ⟨rfl, rfl, rfl⟩ | old
    · exact ownerPresent
    · exact links.owner old
  · intro e q above
    rw [sameKind]
    rcases linked above with ⟨rfl, rfl, rfl⟩ | old
    · exact scope
    · exact links.scope old

/-- An attempt to link two nodes either makes the link or leaves everything as it is. -/
theorem Interlinked.linkIn (links : t.Interlinked s) (d : Side) {p c : Nat} (owner : p < t.size)
    (child : c < t.size) : ((Tree.linkIn d p c).run.run t).2.Interlinked s := by
  rw [run_linkIn]
  cases unflawed : t.edgeFlaw? d p c with
  | some flaw => exact links
  | none => exact links.addEdge owner child unflawed

/-- Nodes whose links came along from interlinked trees are interlinked. -/
theorem Interlinked.of_embeds
    (origin : ∀ j < t.size, ∃ (u : Tree) (place : Nat → Option Nat) (i : Nat),
      u.Interlinked s ∧ u.Embeds t place ∧ place i = some j) : t.Interlinked s := by
  have above {c p : Nat} (linked : t.parent s c = some p) :
      ∃ (u : Tree) (place : Nat → Option Nat) (i k : Nat), u.Interlinked s ∧ u.Embeds t place ∧
        place i = some c ∧ place k = some p ∧ u.parent s i = some k := by
    obtain ⟨u, place, i, links, embeds, placed⟩ := origin c (lt_size_of_parent linked)
    rw [embeds.parent placed] at linked
    obtain ⟨k, higher, placedHigher⟩ := Option.bind_eq_some_iff.mp linked
    exact ⟨u, place, i, k, links, embeds, placed, placedHigher, higher⟩
  constructor
  · intro p c
    constructor
    · intro child
      obtain ⟨u, place, k, links, embeds, placed⟩ := origin p (lt_size_of_mem_children child)
      rw [embeds.children placed] at child
      obtain ⟨i, member, placedChild⟩ := List.mem_filterMap.mp child
      rw [embeds.parent placedChild, links.inverse.mp member]
      exact placed
    · intro linked
      obtain ⟨u, place, i, k, links, embeds, placed, placedHigher, higher⟩ := above linked
      rw [embeds.children placedHigher]
      exact List.mem_filterMap.mpr ⟨i, links.inverse.mpr higher, placed⟩
  · intro p
    rcases Nat.lt_or_ge p t.size with inside | outside
    · obtain ⟨u, place, k, links, embeds, placed⟩ := origin p inside
      rw [embeds.children placed]
      refine (links.once k).filterMap fun i i' j same same' => ?_
      exact (embeds.onSide s).injective same same'
    · rw [children_of_size_le outside]
      exact List.nodup_nil
  · intro j root
    have inside : j < t.size := lt_size_of_kind_ne_code (by rw [root]; decide)
    obtain ⟨u, place, i, links, embeds, placed⟩ := origin j inside
    rw [embeds.kind placed] at root
    rw [embeds.parent placed, links.top root]
    rfl
  · intro c p linked
    obtain ⟨u, place, i, k, links, embeds, placed, placedHigher, higher⟩ := above linked
    rw [embeds.existsOn placed]
    exact links.present higher
  · intro c p linked
    obtain ⟨u, place, i, k, links, embeds, placed, placedHigher, higher⟩ := above linked
    rw [embeds.existsOn placedHigher]
    exact links.owner higher
  · intro c p linked
    obtain ⟨u, place, i, k, links, embeds, placed, placedHigher, higher⟩ := above linked
    rw [embeds.kind placedHigher]
    exact links.scope higher

theorem enclosed_of_interlinked (links : ∀ s, t.Interlinked s) : t.Enclosed :=
  ⟨fun {s} => (links s).parent_lt, fun {s} => (links s).child_lt⟩

/-- A property of links that a tree has when all its nodes came, with their links, from trees that
have it. -/
structure Gathers (P : Tree → Prop) : Prop where
  enclosed : ∀ {t}, P t → t.Enclosed
  gather : ∀ {t : Tree}, (∀ j < t.size, ∃ (u : Tree) (place : Nat → Option Nat) (i : Nat),
    P u ∧ u.Embeds t place ∧ place i = some j) → P t

namespace Gathers

variable {P : Tree → Prop} (gathers : Gathers P)
include gathers

theorem restrict (holds : P t) (keep : Nat → Node → Bool) : P (t.restrict keep) := by
  refine gathers.gather fun j inside => ?_
  obtain ⟨i, placed⟩ := t.exists_place_restrict keep inside
  exact ⟨t, t.place? keep, i, holds, t.embeds_restrict keep, placed⟩

theorem toGraph (holds : P t) : P t.toGraph := by
  unfold Tree.toGraph
  split
  · exact holds
  · refine gathers.gather fun j inside => ?_
    obtain ⟨i, placed⟩ := t.exists_place_restrict (fun _ n => n.kind ≠ .root) inside
    have embeds := t.embeds_restrict fun _ n => n.kind ≠ .root
    exact ⟨t, _, i, holds, ⟨embeds.ordered, embeds.content, embeds.parent, embeds.children⟩, placed⟩

theorem append {g h : Tree} (left : P g) (right : P h) : P (g.append h) := by
  refine gathers.gather fun j inside => ?_
  rcases append_position inside with leftSide | ⟨i, rightSide, rfl⟩
  · exact ⟨g, g.shifted 0, j, left, (gathers.enclosed left).embeds_append_left h,
      shifted_eq_some_iff.mpr ⟨leftSide, Nat.zero_add j⟩⟩
  · exact ⟨h, h.shifted g.size, i, right, (gathers.enclosed right).embeds_append_right g,
      shifted_eq_some_iff.mpr ⟨rightSide, rfl⟩⟩

theorem commitGraph {ts : List Tree} (all : ∀ t ∈ ts, P t) (commit : String) :
    P (Tree.commitGraph commit ts) :=
  commitGraph_induction (gathers.gather fun _ inside => by cases inside)
    fun _ before t listed => gathers.append before (gathers.toGraph (all t listed))

end Gathers

theorem gathers_interlinked : Gathers fun t => ∀ s, t.Interlinked s where
  enclosed := enclosed_of_interlinked
  gather := by
    intro t origin s
    refine .of_embeds fun j inside => ?_
    obtain ⟨u, place, i, links, embeds, placed⟩ := origin j inside
    exact ⟨u, place, i, links s, embeds, placed⟩

/-- Nodes in the order of their links: parents stand before their children, and the children of a
node in the order of the array. -/
structure Ranked (t : Tree) : Prop where
  links : ∀ s, t.Interlinked s
  parentsFirst : t.ParentsFirst
  children : ∀ s i, (t.children s i).Pairwise (· < ·)

/-- What stood in order still does where nodes keep their order. -/
theorem gathers_ranked : Gathers Ranked where
  enclosed := fun ranked => enclosed_of_interlinked ranked.links
  gather := by
    intro t origin
    refine ⟨gathers_interlinked.gather fun j inside => ?_, fun s j q linked => ?_, fun s j => ?_⟩
    · obtain ⟨u, place, i, ranked, embeds, placed⟩ := origin j inside
      exact ⟨u, place, i, ranked.links, embeds, placed⟩
    · obtain ⟨u, place, i, ranked, embeds, placed⟩ := origin j (lt_size_of_parent linked)
      rw [embeds.parent placed] at linked
      obtain ⟨p, above, placedAbove⟩ := Option.bind_eq_some_iff.mp linked
      exact embeds.ordered placedAbove placed (ranked.parentsFirst s i p above)
    · rcases Nat.lt_or_ge j t.size with inside | outside
      · obtain ⟨u, place, i, ranked, embeds, placed⟩ := origin j inside
        rw [embeds.children placed]
        exact (ranked.children s i).filterMap place fun _ _ below _ first _ second =>
          embeds.ordered first second below
      · rw [children_of_size_le outside]
        exact .nil

theorem Built.links (built : t.Built) : ∀ s, t.Interlinked s := by
  induction built with
  | singleton source =>
      exact fun s => (Interlinked.empty .tree source s).push (.inl (by cases s <;> rfl))
  | empty shape source => exact .empty shape source
  | push _ orderly ih => exact fun s => (ih s).push (orderly s)
  | link _ d parent child ih => exact fun s => (ih s).linkIn d parent child
  | restrict _ keep ih => exact gathers_interlinked.restrict ih keep
  | toGraph _ ih => exact gathers_interlinked.toGraph ih
  | commitGraph commit _ ih => exact gathers_interlinked.commitGraph ih commit

theorem flaw_of_rootFlaw? {flaw : Flaw} (found : t.rootFlaw? = some flaw) :
    (∃ count, flaw = .rootCount count) ∨ ∃ id, flaw = .rootInGraph id := by
  cases shape : t.shape with
  | tree =>
      simp only [rootFlaw?, shape] at found
      split at found
      · cases found
      · exact .inl ⟨_, (Option.some.inj found).symm⟩
  | graph =>
      simp only [rootFlaw?, shape] at found
      obtain ⟨i, -, rfl⟩ := Option.map_eq_some_iff.mp found
      exact .inr ⟨_, rfl⟩

theorem flaw_of_linkFlaw? (links : ∀ s, t.Interlinked s) {flaw : Flaw}
    (found : t.linkFlaw? = some flaw) : ∃ id s, flaw = .missingParent id s := by
  obtain ⟨i, -, found⟩ := List.exists_of_findSome?_eq_some found
  obtain ⟨s, -, found⟩ := List.exists_of_findSome?_eq_some found
  rw [(links s).childFlaw?_eq_none, (links s).parentFlaw?_eq] at found
  split at found
  · exact ⟨_, s, (Option.some.inj found).symm⟩
  · cases found

theorem flaw_of_cycleFlaw? {flaw : Flaw} (found : t.cycleFlaw? = some flaw) :
    ∃ id s, flaw = .cycle id s := by
  rw [cycleFlaw?_eq] at found
  obtain ⟨s, -, found⟩ := List.exists_of_findSome?_eq_some found
  obtain ⟨i, -, found⟩ := List.exists_of_findSome?_eq_some found
  split at found
  · cases found
  · exact ⟨_, s, (Option.some.inj found).symm⟩

/-- What can be wrong with a tree whose links are in order. -/
theorem flaw_of_interlinked (links : ∀ s, t.Interlinked s) {flaw : Flaw}
    (found : t.firstFlaw? = some flaw) :
    (∃ count, flaw = .rootCount count) ∨ (∃ id, flaw = .rootInGraph id) ∨
      (∃ id, flaw = .duplicateId id) ∨ (∃ id s, flaw = .missingParent id s) ∨
        ∃ id s, flaw = .cycle id s := by
  simp only [firstFlaw?, Option.orElse_eq_orElse, Option.orElse_eq_or,
    Option.or_eq_some_iff] at found
  rcases found with root | ⟨-, repeated | ⟨-, link | ⟨-, cycle⟩⟩⟩
  · rcases flaw_of_rootFlaw? root with count | inGraph
    · exact .inl count
    · exact .inr (.inl inGraph)
  · obtain ⟨id, -, rfl⟩ := Option.map_eq_some_iff.mp repeated
    exact .inr (.inr (.inl ⟨id, rfl⟩))
  · exact .inr (.inr (.inr (.inl (flaw_of_linkFlaw? links link))))
  · exact .inr (.inr (.inr (.inr (flaw_of_cycleFlaw? cycle))))

theorem eq_of_linkIn_error {u : Tree} {p c : Nat} {flaw : Flaw}
    (failed : (linkIn s p c).run.run t = (.error flaw, u)) : u = t := by
  rw [run_linkIn] at failed
  cases unflawed : t.edgeFlaw? s p c with
  | some _ =>
      rw [unflawed] at failed
      exact (Prod.mk.inj failed).2.symm
  | none =>
      rw [unflawed] at failed
      cases (Prod.mk.inj failed).1

/-- What a tree comes to when two nodes are linked on both sides, as far as they can be. -/
def linkBoth (t : Tree) (p c : Nat) : Tree :=
  ((linkIn .after p c).run.run ((linkIn .before p c).run.run t).2).2

/-- What is pushed or joined can break a tree: a node that is pushed a second time lays claim to the
parent of the first, and a graph takes over a line of code that came to own another. -/
theorem not_interlinked_of_assembled :
    let file : Tree := singleton ⟨"f", "c", none⟩
    let branch : Tree := (file.push (.fresh 1 .ifBranch .kept "A")).linkBoth 0 1
    let twice : Tree := branch.push { branch.node 1 with id := 2 }
    let nested : Tree := (branch.push (.fresh 2 .code .kept "x")).linkBoth 1 2
    let joined : Tree := commitGraph "c" [nested.modify 1 fun n => { n with kind := .code }]
    twice.Assembled ∧ twice.firstFlaw? = some (.childListMismatch 0 2 .before) ∧
      joined.Assembled ∧ joined.firstFlaw? = some (.nonScopeParent 1 0) ∧
      ¬ ∀ t : Tree, t.Assembled →
        (∀ s, t.Interlinked s) ∧ ∀ flaw, t.firstFlaw? = some flaw →
          (∃ count, flaw = .rootCount count) ∨ (∃ id, flaw = .rootInGraph id) ∨
            (∃ id, flaw = .duplicateId id) ∨ (∃ id s, flaw = .missingParent id s) ∨
              ∃ id s, flaw = .cycle id s := by
  intro file branch twice nested joined
  have made : twice.Assembled :=
    .push (.link (.link (.push (.singleton _) _) .before (by decide) (by decide)) .after
      (by decide) (by decide)) _
  have claimed : twice.firstFlaw? = some (.childListMismatch 0 2 .before) := by decide +kernel
  have owned : joined.firstFlaw? = some (.nonScopeParent 1 0) := by decide +kernel
  refine ⟨made, claimed, .commitGraph _ _, owned, fun sound => ?_⟩
  have expected := (sound twice made).2 _ claimed
  simp at expected

/-- Trees that were built have their links in order, so that only a few things can be wrong with
them, and no other node could have been pushed. An attempt to link nodes that fails changes nothing,
in any tree. -/
theorem interlinked_of_built (built : t.Built) :
    (∀ s, t.Interlinked s) ∧
      (∀ flaw, t.firstFlaw? = some flaw →
        (∃ count, flaw = .rootCount count) ∨ (∃ id, flaw = .rootInGraph id) ∨
          (∃ id, flaw = .duplicateId id) ∨ (∃ id s, flaw = .missingParent id s) ∨
            ∃ id s, flaw = .cycle id s) ∧
      (∀ (n : Node) (s : Side),
        (t.push n).Interlinked s ↔ n.links s = .none ∨ LoopsAt n s t.size) ∧
      ∀ (u v : Tree) (s : Side) (p c : Nat) (flaw : Flaw),
        (linkIn s p c).run.run u = (.error flaw, v) → v = u :=
  ⟨built.links, fun _ => flaw_of_interlinked built.links,
    fun n s => (built.links s).push_iff n, fun _ _ _ _ _ _ => eq_of_linkIn_error⟩

/-- Linked on one side only, a node lacks a parent on the other; linking it once more is refused. -/
theorem interlinked_of_built_linked_twice :
    ∃ t : Tree, (∀ s, t.Interlinked s) ∧ t.firstFlaw? = some (.missingParent 1 .before) ∧
      (linkIn .after 0 1).run.run t = (.error (.multipleParents 1 .after), t) := by
  let nodes := (singleton ⟨"f", "c", none⟩).push (.fresh 1 .ifBranch .kept "A")
  let t := ((linkIn .after 0 1).run.run nodes).2
  have built : t.Built := .link (.push (.singleton _) fun s => .inl (by cases s <;> rfl)) .after
    (by decide) (by decide)
  obtain ⟨links, -, -, unchanged⟩ := interlinked_of_built built
  have refused : ((linkIn .after 0 1).run.run t).1 = .error (.multipleParents 1 .after) := rfl
  exact ⟨t, links, by decide +kernel,
    Prod.ext refused (unchanged t _ .after 0 1 _ (Prod.ext refused rfl))⟩

end Variability.Tree
