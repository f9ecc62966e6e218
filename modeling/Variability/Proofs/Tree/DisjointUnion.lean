import Variability.Proofs.Tree.Transformed

/-!
The graph of a commit is a disjoint union. Each of its nodes comes from a node of one of the trees
that is no root, tree by tree and in the order of the tree; it has the content of that node, and its
links lead to the nodes that come from what that node was linked to. So nodes of different trees are
never linked, and at the top stand those that stood at the top or below a root.
-/

namespace Variability.Tree

/-- Where the nodes of a disjoint union come from, in order: the number of a tree and the position
of a node in it that is no root. -/
def origins (ts : List Tree) : List (Nat × Nat) :=
  ts.zipIdx.flatMap fun (t, k) => (t.positions (·.kind ≠ .root)).map (k, ·)

/-- The nodes of some trees side by side, without the roots. A link of a node and a list of children
are told by where the linked nodes come from. -/
structure DisjointUnion (ts : List Tree) (g : Tree) : Prop where
  size : g.size = (origins ts).length
  content : ∀ {j k i t}, (origins ts)[j]? = some (k, i) → ts[k]? = some t →
    (g.node j).content = (t.node i).content
  parent : ∀ {j k i t}, (origins ts)[j]? = some (k, i) → ts[k]? = some t → ∀ s,
    (g.parent s j).map ((origins ts)[·]?) =
      ((t.parent s i).filter fun p => (t.node p).kind ≠ .root).map fun p => some (k, p)
  children : ∀ {j k i t}, (origins ts)[j]? = some (k, i) → ts[k]? = some t → ∀ s,
    (g.children s j).map ((origins ts)[·]?) =
      ((t.children s i).filter fun c => (t.node c).kind ≠ .root).map fun c => some (k, c)

/-! Origins. -/

theorem origins_concat (ts : List Tree) (t : Tree) :
    origins (ts ++ [t]) = origins ts ++ (t.positions (·.kind ≠ .root)).map (ts.length, ·) := by
  simp [origins, List.zipIdx_append]

theorem exists_origin {ts : List Tree} {k i : Nat} (origin : (k, i) ∈ origins ts) :
    ∃ t, ts[k]? = some t ∧ i < t.size ∧ (t.node i).kind ≠ .root := by
  obtain ⟨⟨t, k'⟩, listed, member⟩ := List.mem_flatMap.mp origin
  obtain ⟨i', position, same⟩ := List.mem_map.mp member
  cases same
  obtain ⟨inside, line⟩ := mem_positions.mp position
  exact ⟨t, List.mem_zipIdx_iff_getElem?.mp listed, inside, of_decide_eq_true line⟩

theorem nodup_origins (ts : List Tree) : (origins ts).Nodup := by
  induction ts using List.reverseRecOn with
  | nil => exact List.nodup_nil
  | append_singleton ts t ih =>
      have own : (t.positions (·.kind ≠ .root)).Nodup := by
        rw [positions_eq]
        exact List.nodup_range.filter _
      rw [origins_concat]
      refine ih.append (own.map fun i j same => (Prod.mk.inj same).2) fun origin old new => ?_
      obtain ⟨k, i⟩ := origin
      obtain ⟨u, listed, -⟩ := exists_origin old
      obtain ⟨j, -, same⟩ := List.mem_map.mp new
      obtain rfl : ts.length = k := (Prod.mk.inj same).1
      exact Nat.lt_irrefl _ (List.getElem?_eq_some_iff.mp listed).1

theorem getElem?_positions_iff {t : Tree} {test : Node → Bool} {i j : Nat} :
    (t.positions test)[j]? = some i ↔ t.place? (fun _ n => test n) i = some j := by
  have same : t.positions test = (List.range t.size).filter (t.stays fun _ n => test n) := by
    rw [positions_eq]
    exact List.filter_congr fun i member => by simp [stays, List.mem_range.mp member]
  have nodup : ((List.range t.size).filter (t.stays fun _ n => test n)).Nodup :=
    List.nodup_range.filter _
  rw [same, place?_eq_some_iff]
  constructor
  · intro found
    have member := List.mem_of_getElem? found
    rw [List.mem_filter, List.mem_range] at member
    have there := filter_range_rank member.1 member.2
    refine ⟨member.2, ?_⟩
    have inside := (List.getElem?_eq_some_iff.mp there).1
    exact (List.getElem?_inj inside nodup).mp (there.trans found.symm)
  · rintro ⟨stays, rfl⟩
    simp only [Tree.stays, Bool.and_eq_true, decide_eq_true_eq] at stays
    exact filter_range_rank stays.1 (by simpa [Tree.stays] using stays)

/-! One tree. -/

variable {t : Tree}

theorem WellFormed.place?_eq_shifted (wellFormed : t.WellFormed) (graph : t.shape = .graph) :
    t.place? (fun _ n => n.kind ≠ .root) = t.shifted 0 := by
  funext i
  have stays {k : Nat} (inside : k < t.size) : t.stays (fun _ n => n.kind ≠ .root) k := by
    simp [Tree.stays, inside, wellFormed.noRoot graph k inside]
  rcases Nat.lt_or_ge i t.size with inside | outside
  · have all : rank (t.stays fun _ n => n.kind ≠ .root) i = i := by
      rw [rank, List.countP_eq_length.mpr, List.length_range]
      exact fun k member => stays (Nat.lt_trans (List.mem_range.mp member) inside)
    rw [place?, if_pos (stays inside), all, shifted, if_pos inside, Nat.zero_add]
  · simp [place?, Tree.stays, shifted, Nat.not_lt.mpr outside]

theorem WellFormed.embeds_toGraph (wellFormed : t.WellFormed) :
    t.Embeds t.toGraph (t.place? fun _ n => n.kind ≠ .root) := by
  cases shape : t.shape with
  | graph =>
      -- a graph has no root, so the places that its nodes would take are the ones they have
      rw [toGraph, shape, wellFormed.place?_eq_shifted shape]
      exact (enclosed_of_interlinked wellFormed.links).embeds_self
  | tree =>
      have embeds := t.embeds_restrict fun _ n => n.kind ≠ .root
      rw [toGraph, shape]
      exact ⟨embeds.ordered, embeds.content, embeds.parent, embeds.children⟩

theorem WellFormed.size_toGraph (wellFormed : t.WellFormed) :
    t.toGraph.size = (t.positions (·.kind ≠ .root)).length := by
  rw [positions_eq]
  cases shape : t.shape with
  | graph =>
      rw [toGraph, shape, List.filter_eq_self.mpr, List.length_range]
      exact fun i member => decide_eq_true (wellFormed.noRoot shape i (List.mem_range.mp member))
  | tree =>
      have size : t.toGraph.size = rank (t.stays fun _ n => n.kind ≠ .root) t.size := by
        rw [toGraph, shape, ← size_restrict]
        rfl
      rw [size, rank, List.countP_eq_length_filter]
      congr 1
      exact List.filter_congr fun i member => by simp [stays, List.mem_range.mp member]

/-! Side by side. -/

theorem origins_concat_placed {ts : List Tree} {p q : Nat}
    (placed : t.place? (fun _ n => n.kind ≠ .root) p = some q) :
    (origins (ts ++ [t]))[(origins ts).length + q]? = some (ts.length, p) := by
  rw [origins_concat, List.getElem?_append_right (Nat.le_add_right _ q), Nat.add_sub_cancel_left,
    List.getElem?_map, getElem?_positions_iff.mpr placed]
  rfl

theorem origin_left {ts : List Tree} {j k i : Nat} {u : Tree} (inside : j < (origins ts).length)
    (origin : (origins (ts ++ [t]))[j]? = some (k, i)) (listed : (ts ++ [t])[k]? = some u) :
    (origins ts)[j]? = some (k, i) ∧ ts[k]? = some u := by
  rw [origins_concat, List.getElem?_append_left inside] at origin
  obtain ⟨u', there, -⟩ := exists_origin (List.mem_of_getElem? origin)
  rw [List.getElem?_append_left (List.getElem?_eq_some_iff.mp there).1] at listed
  exact ⟨origin, listed⟩

/-- Behind the nodes of the other trees stand those of the last, in their places in its graph. -/
theorem origin_right {ts : List Tree} {j k i : Nat} {u : Tree} (outside : (origins ts).length ≤ j)
    (origin : (origins (ts ++ [t]))[j]? = some (k, i)) (listed : (ts ++ [t])[k]? = some u) :
    ∃ m, j = (origins ts).length + m ∧ k = ts.length ∧ u = t ∧
      t.place? (fun _ n => n.kind ≠ .root) i = some m := by
  obtain ⟨m, rfl⟩ := Nat.exists_eq_add_of_le outside
  rw [origins_concat, List.getElem?_append_right outside, Nat.add_sub_cancel_left,
    List.getElem?_map] at origin
  obtain ⟨i', found, same⟩ := Option.map_eq_some_iff.mp origin
  cases same
  exact ⟨m, rfl, rfl, by simpa using listed.symm, getElem?_positions_iff.mp found⟩

theorem origin_place? (ts : List Tree) {p : Nat} (inside : p < t.size) :
    (t.place? (fun _ n => n.kind ≠ .root) p).map
        (fun q => (origins (ts ++ [t]))[(origins ts).length + q]?) =
      if (t.node p).kind ≠ .root then some (some (ts.length, p)) else none := by
  cases placed : t.place? (fun _ n => n.kind ≠ .root) p with
  | none =>
      have gone : (t.place? (fun _ n => n.kind ≠ .root) p).isSome =
          t.stays (fun _ n => n.kind ≠ .root) p := isSome_place?
      rw [placed] at gone
      simpa [stays, inside] using gone.symm
  | some q =>
      have stays := (place?_eq_some_iff.mp placed).1
      simp only [Tree.stays, Bool.and_eq_true, decide_eq_true_eq] at stays
      rw [Option.map_some, origins_concat_placed placed, if_pos stays.2]

namespace DisjointUnion

theorem empty (source : Source) : DisjointUnion [] (.empty .graph source) where
  size := rfl
  content := nofun
  parent := nofun
  children := nofun

theorem append {ts : List Tree} {g : Tree} (union : DisjointUnion ts g) (enclosed : g.Enclosed)
    (wellFormed : t.WellFormed) : DisjointUnion (ts ++ [t]) (g.append t.toGraph) := by
  have embeds := wellFormed.embeds_toGraph
  have links := enclosed_of_interlinked wellFormed.links
  have there {i m : Nat} (placed : t.place? (fun _ n => n.kind ≠ .root) i = some m) :
      m < t.toGraph.size := by
    rw [wellFormed.size_toGraph]
    exact (List.getElem?_eq_some_iff.mp (getElem?_positions_iff.mpr placed)).1
  refine ⟨?_, fun {j k i u} origin listed => ?_, fun {j k i u} origin listed s => ?_,
    fun {j k i u} origin listed s => ?_⟩
  · rw [size_append, union.size, wellFormed.size_toGraph, origins_concat, List.length_append,
      List.length_map]
  -- a node of the union keeps what it has; a node of the graph has it from its tree, moved
  · rcases Nat.lt_or_ge j (origins ts).length with inside | outside
    · obtain ⟨origin, listed⟩ := origin_left inside origin listed
      rw [node_append_left (union.size ▸ inside), union.content origin listed]
    · obtain ⟨m, rfl, rfl, rfl, placed⟩ := origin_right outside origin listed
      rw [← union.size, node_append_right g (there placed), ← embeds.content placed]
      rfl
  · rcases Nat.lt_or_ge j (origins ts).length with inside | outside
    · obtain ⟨origin, listed⟩ := origin_left inside origin listed
      rw [Tree.parent, node_append_left (union.size ▸ inside), ← union.parent origin listed]
      refine Option.map_congr fun p linked => ?_
      rw [origins_concat, List.getElem?_append_left (union.size ▸ enclosed.parent_lt linked)]
    · obtain ⟨m, rfl, rfl, rfl, placed⟩ := origin_right outside origin listed
      rw [← union.size, parent_append_right g (there placed), embeds.parent placed, union.size]
      cases linked : u.parent s i with
      | none => rfl
      | some p =>
          rw [Option.bind_some, Option.map_map]
          refine (origin_place? ts (links.parent_lt linked)).trans ?_
          by_cases root : (u.node p).kind = .root <;> simp [root]
  · rcases Nat.lt_or_ge j (origins ts).length with inside | outside
    · obtain ⟨origin, listed⟩ := origin_left inside origin listed
      rw [Tree.children, node_append_left (union.size ▸ inside), ← union.children origin listed]
      refine List.map_congr_left fun c child => ?_
      rw [origins_concat, List.getElem?_append_left (union.size ▸ enclosed.child_lt child)]
    · obtain ⟨m, rfl, rfl, rfl, placed⟩ := origin_right outside origin listed
      rw [← union.size, children_append_right g (there placed), embeds.children placed, union.size,
        List.map_map, List.map_filterMap, ← List.filterMap_eq_map, List.filterMap_filter]
      refine List.filterMap_congr fun c child => ?_
      refine (origin_place? ts (links.child_lt child)).trans ?_
      by_cases root : (u.node c).kind = .root <;> simp [root]

theorem commitGraph (commit : String) {ts : List Tree} (wellFormed : ∀ t ∈ ts, t.WellFormed) :
    DisjointUnion ts (Tree.commitGraph commit ts) := by
  induction ts using List.reverseRecOn with
  | nil => exact empty _
  | append_singleton ts t ih =>
      have before (u : Tree) (listed : u ∈ ts) : u.WellFormed := wellFormed u (by simp [listed])
      have links := gathers_interlinked.commitGraph (fun u listed => (before u listed).links) commit
      have appended : Tree.commitGraph commit (ts ++ [t]) =
          (Tree.commitGraph commit ts).append t.toGraph := by
        simp [Tree.commitGraph]
      rw [appended]
      exact (ih before).append (enclosed_of_interlinked links) (wellFormed t (by simp))

variable {ts : List Tree} {g : Tree} (union : DisjointUnion ts g)
include union

theorem exists_origin_of_lt {j : Nat} (inside : j < g.size) :
    ∃ k i t, (origins ts)[j]? = some (k, i) ∧ ts[k]? = some t := by
  have found := List.getElem?_eq_getElem (union.size ▸ inside)
  obtain ⟨t, listed, -⟩ := exists_origin (List.mem_of_getElem? found)
  exact ⟨_, _, t, found, listed⟩

theorem linked {s : Side} {j q : Nat} (link : g.parent s j = some q ∨ q ∈ g.children s j) :
    ∃ k i p, (origins ts)[j]? = some (k, i) ∧ (origins ts)[q]? = some (k, p) := by
  have inside : j < g.size := link.elim lt_size_of_parent lt_size_of_mem_children
  obtain ⟨k, i, t, origin, listed⟩ := union.exists_origin_of_lt inside
  rcases link with parent | child
  · have above := union.parent origin listed s
    rw [parent, Option.map_some] at above
    obtain ⟨p, -, same⟩ := Option.map_eq_some_iff.mp above.symm
    exact ⟨k, i, p, origin, same.symm⟩
  · have below : (origins ts)[q]? ∈ (g.children s j).map ((origins ts)[·]?) :=
      List.mem_map_of_mem child
    rw [union.children origin listed s] at below
    obtain ⟨c, -, same⟩ := List.mem_map.mp below
    exact ⟨k, i, c, origin, same.symm⟩

/-- A node at the top was at the top or below a root. -/
theorem parent_eq_none_iff {j k i : Nat} (origin : (origins ts)[j]? = some (k, i))
    (listed : ts[k]? = some t) (s : Side) :
    g.parent s j = none ↔ ∀ p, t.parent s i = some p → (t.node p).kind = .root := by
  have same : g.parent s j = none ↔
      ((t.parent s i).filter fun p => (t.node p).kind ≠ .root) = none := by
    rw [← Option.map_eq_none_iff, union.parent origin listed s, Option.map_eq_none_iff]
  rw [same, Option.filter_eq_none_iff]
  simp

end DisjointUnion

/-- The graph of a commit, from flawless trees and graphs in any mixture: a flawless graph of all
their nodes but the roots, each with the content and the links that it had among them. -/
theorem commitGraph_disjointUnion (commit : String) {ts : List Tree}
    (flawless : ∀ t ∈ ts, t.firstFlaw? = none) :
    (commitGraph commit ts).shape = .graph ∧ (commitGraph commit ts).firstFlaw? = none ∧
      (∀ j < (commitGraph commit ts).size, ((commitGraph commit ts).node j).kind ≠ .root ∧
        ((commitGraph commit ts).node j).id = j) ∧
      (origins ts).Nodup ∧ DisjointUnion ts (commitGraph commit ts) ∧
      (∀ s j q, (commitGraph commit ts).parent s j = some q ∨
        q ∈ (commitGraph commit ts).children s j →
          ∃ k i p, (origins ts)[j]? = some (k, i) ∧ (origins ts)[q]? = some (k, p)) ∧
      ∀ j k i t, (origins ts)[j]? = some (k, i) → ts[k]? = some t → ∀ s,
        ((commitGraph commit ts).parent s j = none ↔
          ∀ p, t.parent s i = some p → (t.node p).kind = .root) := by
  have wellFormed (t : Tree) (listed : t ∈ ts) : t.WellFormed :=
    firstFlaw?_eq_none_iff_wellFormed.mp (flawless t listed)
  have union : DisjointUnion ts (commitGraph commit ts) := .commitGraph commit wellFormed
  refine ⟨shape_commitGraph commit ts, firstFlaw?_commitGraph flawless commit, fun j inside => ?_,
    nodup_origins ts, union, fun s j q => union.linked, fun j k i t => union.parent_eq_none_iff⟩
  exact ⟨kind_commitGraph wellFormed commit j inside, id_commitGraph commit ts j inside⟩

/-- A tree with its root behind the branch below it, and a graph. -/
theorem commitGraph_disjointUnion_root_last :
    ∃ t u : Tree, t.root? = some 2 ∧ u.shape = .graph ∧
      origins [t, u] = [(0, 0), (0, 1), (1, 0)] ∧ DisjointUnion [t, u] (commitGraph "c" [t, u]) ∧
      (commitGraph "c" [t, u]).firstFlaw? = none ∧
      (commitGraph "c" [t, u]).parent .after 0 = none ∧
      (commitGraph "c" [t, u]).children .after 0 = [1] := by
  let nodes := (((empty .tree ⟨"f", "c", none⟩).push (.fresh 5 .ifBranch .kept "A")).push
    (.fresh 7 .code .added "x")).push (.fresh 0 .root .kept "")
  let t := ((nodes.addEdge .after 0 1).addEdge .before 2 0).addEdge .after 2 0
  let u := (empty .graph ⟨"g", "c", none⟩).push (.fresh 5 .code .kept "y")
  have flawless : ∀ v ∈ [t, u], v.firstFlaw? = none := by decide +kernel
  obtain ⟨-, formed, -, -, union, -, top⟩ := commitGraph_disjointUnion "c" flawless
  have parentless := (top 0 0 0 t (by decide +kernel) rfl .after).mpr (by decide +kernel)
  exact ⟨t, u, by decide +kernel, rfl, by decide +kernel, union, formed, parentless,
    by decide +kernel⟩

end Variability.Tree
