import Variability.Proofs.Tree.Embedding

/-!
Graphs put side by side. Each operand of a union has its place in it, and so has the graph of every
file in the graph of a commit.
-/

namespace Variability.Tree

/-- Links stay inside the tree, parents stand before their children, and every node whose kind asks
for a guard has one. -/
structure Sound (t : Tree) : Prop where
  ordered : t.ParentsFirst
  inside : ∀ {s p c}, c ∈ t.children s p → c < t.size
  guarded : t.Guarded

/-- Links stay inside the tree, in both directions. -/
structure Enclosed (t : Tree) : Prop where
  parent_lt : ∀ {s i p}, t.parent s i = some p → p < t.size
  child_lt : ∀ {s p c}, c ∈ t.children s p → c < t.size

theorem Sound.parent_lt {t : Tree} (sound : t.Sound) {s : Side} {i p : Nat}
    (linked : t.parent s i = some p) : p < t.size :=
  Nat.lt_trans (sound.ordered s i p linked) (lt_size_of_parent linked)

theorem Sound.enclosed {t : Tree} (sound : t.Sound) : t.Enclosed :=
  ⟨sound.parent_lt, sound.inside⟩

theorem Sound.restrict {t : Tree} (sound : t.Sound) (keep : Nat → Node → Bool) :
    (t.restrict keep).Sound where
  ordered := sound.ordered.restrict keep
  inside := by
    intro s q d child
    obtain ⟨p, placed⟩ := t.exists_place_restrict keep (lt_size_of_mem_children child)
    rw [(t.embeds_restrict keep).children placed] at child
    obtain ⟨c, -, placedChild⟩ := List.mem_filterMap.mp child
    obtain ⟨stays, rfl⟩ := place?_eq_some_iff.mp placedChild
    rw [size_restrict]
    apply rank_lt stays
    simp only [Tree.stays, Bool.and_eq_true, decide_eq_true_eq] at stays
    exact stays.1
  guarded := by
    intro j kind
    obtain ⟨i, placed⟩ := t.exists_place_restrict keep (lt_size_of_hasGuard kind)
    rw [(t.embeds_restrict keep).kind placed] at kind
    rw [(t.embeds_restrict keep).guard placed]
    exact sound.guarded i kind

theorem Sound.toGraph {t : Tree} (sound : t.Sound) : t.toGraph.Sound := by
  unfold Tree.toGraph
  split
  · exact sound
  · have kept := sound.restrict fun _ n => n.kind ≠ .root
    exact ⟨kept.ordered, kept.inside, kept.guarded⟩

theorem size_append (g h : Tree) : (g.append h).size = g.size + h.size := by
  simp [append, size, entries]

theorem node_append_left {g : Tree} {i : Nat} (inside : i < g.size) (h : Tree) :
    (g.append h).node i = g.node i := by
  have lookup : (g.append h).nodes[i]? = g.nodes[i]? := Array.getElem?_append_left inside
  rw [node, lookup, node]

theorem node_append_right (g : Tree) {h : Tree} {i : Nat} (inside : i < h.size) :
    (g.append h).node (g.size + i) =
      { (h.node i).rename (fun j => some (j + g.size)) with id := g.size + i } := by
  have behind : g.size + i - g.nodes.size = i := Nat.add_sub_cancel_left g.size i
  have lookup : (g.append h).nodes[g.size + i]? =
      some { (h.node i).rename (fun j => some (j + g.size)) with id := g.size + i } := by
    simp only [append]
    rw [Array.getElem?_append_right (Nat.le_add_right g.size i), behind, List.getElem?_toArray,
      entries_eq, List.map_map, List.getElem?_map, List.getElem?_range inside]
    rfl
  rw [node, lookup]
  rfl

theorem parent_append_right (g : Tree) {h : Tree} {i : Nat} (inside : i < h.size) (s : Side) :
    (g.append h).parent s (g.size + i) = (h.parent s i).map (g.size + ·) := by
  rw [parent, node_append_right g inside, Option.map_eq_bind]
  simp only [Nat.add_comm g.size]
  cases s <;> rfl

theorem children_append_right (g : Tree) {h : Tree} {i : Nat} (inside : i < h.size) (s : Side) :
    (g.append h).children s (g.size + i) = (h.children s i).map (g.size + ·) := by
  rw [children, node_append_right g inside, ← List.filterMap_eq_map]
  simp only [Nat.add_comm g.size]
  cases s <;> rfl

theorem append_position {g h : Tree} {j : Nat} (inside : j < (g.append h).size) :
    j < g.size ∨ ∃ i, i < h.size ∧ j = g.size + i := by
  rw [size_append] at inside
  rcases Nat.lt_or_ge j g.size with left | right
  · exact .inl left
  · exact .inr ⟨j - g.size, by omega, by omega⟩

/-- The places of the nodes of a tree in a union in which `offset` nodes stand before them. -/
def shifted (t : Tree) (offset i : Nat) : Option Nat :=
  if i < t.size then some (offset + i) else none

theorem shifted_eq_some_iff {t : Tree} {offset i j : Nat} :
    t.shifted offset i = some j ↔ i < t.size ∧ offset + i = j := by
  rw [shifted]
  split
  · next inside => simp [inside]
  · next outside => simp [outside]

private theorem filterMap_shifted {t : Tree} {nodes : List Nat} (inside : ∀ i ∈ nodes, i < t.size)
    (offset : Nat) : nodes.filterMap (t.shifted offset) = nodes.map (offset + ·) := by
  induction nodes with
  | nil => rfl
  | cons i nodes ih =>
      have placed : t.shifted offset i = some (offset + i) := by
        rw [shifted, if_pos (inside i (by simp))]
      rw [List.filterMap_cons_some placed, ih fun j member => inside j (by simp [member]),
        List.map_cons]

private theorem bind_shifted {t : Tree} {p? : Option Nat} (inside : ∀ p, p? = some p → p < t.size)
    (offset : Nat) : p?.bind (t.shifted offset) = p?.map (offset + ·) := by
  cases p? with
  | none => rfl
  | some p => rw [Option.bind_some, shifted, if_pos (inside p rfl), Option.map_some]

theorem Enclosed.embeds_append_left {g : Tree} (enclosed : g.Enclosed) (h : Tree) :
    g.Embeds (g.append h) (g.shifted 0) where
  ordered := by
    intro i j k l placed placedToo below
    rw [shifted_eq_some_iff] at placed placedToo
    omega
  content := by
    intro i j placed
    obtain ⟨inside, rfl⟩ := shifted_eq_some_iff.mp placed
    rw [Nat.zero_add, node_append_left inside]
  parent := by
    intro i j placed s
    obtain ⟨inside, rfl⟩ := shifted_eq_some_iff.mp placed
    rw [bind_shifted fun p => enclosed.parent_lt, Nat.zero_add, parent, node_append_left inside]
    simp [parent]
  children := by
    intro i j placed s
    obtain ⟨inside, rfl⟩ := shifted_eq_some_iff.mp placed
    rw [filterMap_shifted fun c => enclosed.child_lt, Nat.zero_add, children,
      node_append_left inside]
    simp [children]

theorem Enclosed.embeds_append_right {h : Tree} (enclosed : h.Enclosed) (g : Tree) :
    h.Embeds (g.append h) (h.shifted g.size) where
  ordered := by
    intro i j k l placed placedToo below
    rw [shifted_eq_some_iff] at placed placedToo
    omega
  content := by
    intro i j placed
    obtain ⟨inside, rfl⟩ := shifted_eq_some_iff.mp placed
    rw [node_append_right g inside]
    rfl
  parent := by
    intro i j placed s
    obtain ⟨inside, rfl⟩ := shifted_eq_some_iff.mp placed
    rw [bind_shifted fun p => enclosed.parent_lt, parent_append_right g inside]
  children := by
    intro i j placed s
    obtain ⟨inside, rfl⟩ := shifted_eq_some_iff.mp placed
    rw [filterMap_shifted fun c => enclosed.child_lt, children_append_right g inside]

theorem Sound.append {g h : Tree} (left : g.Sound) (right : h.Sound) : (g.append h).Sound where
  ordered := by
    intro s j q linked
    rcases append_position (lt_size_of_parent linked) with inside | ⟨i, inside, rfl⟩
    · rw [parent, node_append_left inside] at linked
      exact left.ordered s j q linked
    · rw [parent_append_right g inside] at linked
      obtain ⟨p, above, rfl⟩ := Option.map_eq_some_iff.mp linked
      have := right.ordered s i p above
      omega
  inside := by
    intro s q d child
    have position := lt_size_of_mem_children child
    rw [size_append]
    rcases append_position position with inside | ⟨i, inside, rfl⟩
    · rw [children, node_append_left inside] at child
      have := left.inside child
      omega
    · rw [children_append_right g inside] at child
      obtain ⟨c, member, rfl⟩ := List.mem_map.mp child
      have := right.inside member
      omega
  guarded := by
    intro j kind
    rcases append_position (lt_size_of_hasGuard kind) with inside | ⟨i, inside, rfl⟩
    · rw [node_append_left inside] at kind ⊢
      exact left.guarded j kind
    · rw [node_append_right g inside] at kind ⊢
      exact right.guarded i kind

theorem Sound.empty (source : Source) : (Tree.empty .graph source).Sound where
  ordered := by
    intro s i p linked
    rw [parent_of_size_le (Nat.zero_le i)] at linked
    cases linked
  inside := by
    intro s p c child
    rw [children_of_size_le (Nat.zero_le p)] at child
    cases child
  guarded := by
    intro i kind
    rw [node_of_size_le (Nat.zero_le i)] at kind
    cases kind

theorem Embeds.trans {t u v : Tree} {place place' : Nat → Option Nat} (first : t.Embeds u place)
    (second : u.Embeds v place') : t.Embeds v fun i => (place i).bind place' where
  ordered := by
    intro i j k l placed placedToo below
    obtain ⟨a, first₁, second₁⟩ := Option.bind_eq_some_iff.mp placed
    obtain ⟨b, first₂, second₂⟩ := Option.bind_eq_some_iff.mp placedToo
    exact second.ordered second₁ second₂ (first.ordered first₁ first₂ below)
  content := by
    intro i j placed
    obtain ⟨a, first₁, second₁⟩ := Option.bind_eq_some_iff.mp placed
    rw [second.content second₁, first.content first₁]
  parent := by
    intro i j placed s
    obtain ⟨a, first₁, second₁⟩ := Option.bind_eq_some_iff.mp placed
    rw [second.parent second₁, first.parent first₁, Option.bind_assoc]
  children := by
    intro i j placed s
    obtain ⟨a, first₁, second₁⟩ := Option.bind_eq_some_iff.mp placed
    rw [second.children second₁, first.children first₁, List.filterMap_filterMap]

theorem Sound.foldl_append {g : Tree} {hs : List Tree} (sound : g.Sound)
    (rest : ∀ h ∈ hs, h.Sound) : (hs.foldl Tree.append g).Sound := by
  induction hs generalizing g with
  | nil => exact sound
  | cons h hs ih =>
      exact ih (sound.append (rest h (by simp))) fun k member => rest k (by simp [member])

theorem Enclosed.embeds_self {g : Tree} (enclosed : g.Enclosed) : g.Embeds g (g.shifted 0) where
  ordered := by
    intro i j k l placed placedToo below
    rw [shifted_eq_some_iff] at placed placedToo
    omega
  content := by
    intro i j placed
    obtain ⟨-, rfl⟩ := shifted_eq_some_iff.mp placed
    rw [Nat.zero_add]
  parent := by
    intro i j placed s
    obtain ⟨-, rfl⟩ := shifted_eq_some_iff.mp placed
    rw [bind_shifted fun p => enclosed.parent_lt, Nat.zero_add]
    simp
  children := by
    intro i j placed s
    obtain ⟨-, rfl⟩ := shifted_eq_some_iff.mp placed
    rw [filterMap_shifted fun c => enclosed.child_lt, Nat.zero_add]
    simp

theorem Sound.embeds_foldl_append {g : Tree} {hs : List Tree} (sound : g.Sound)
    (rest : ∀ h ∈ hs, h.Sound) : g.Embeds (hs.foldl Tree.append g) (g.shifted 0) := by
  induction hs generalizing g with
  | nil => exact sound.enclosed.embeds_self
  | cons h hs ih =>
      have further := ih (sound.append (rest h (by simp))) fun k member => rest k (by simp [member])
      have composed := (sound.enclosed.embeds_append_left h).trans further
      have places : (fun i => (g.shifted 0 i).bind ((g.append h).shifted 0)) = g.shifted 0 := by
        funext i
        rcases Nat.lt_or_ge i g.size with inside | outside
        · have insideToo : i < (g.append h).size := by
            rw [size_append]
            omega
          simp [shifted, inside, insideToo]
        · simp [shifted, Nat.not_lt.mpr outside]
      rwa [places] at composed

/-- What the empty graph has and what stays when the graph of a file is put behind. -/
theorem commitGraph_induction {P : Tree → Prop} {commit : String} {ts : List Tree}
    (empty : P (.empty .graph ⟨"", commit, none⟩))
    (append : ∀ g, P g → ∀ t ∈ ts, P (g.append t.toGraph)) : P (commitGraph commit ts) := by
  have union (hs : List Tree) {g : Tree} (holds : P g) (parts : ∀ h ∈ hs, h ∈ ts) :
      P ((hs.map toGraph).foldl Tree.append g) := by
    induction hs generalizing g with
    | nil => exact holds
    | cons h hs ih =>
        obtain ⟨first, rest⟩ := List.forall_mem_cons.mp parts
        exact ih (append g holds h first) rest
  exact union ts empty fun _ => id

theorem Sound.commitGraph {ts : List Tree} (sound : ∀ t ∈ ts, t.Sound) (commit : String) :
    (Tree.commitGraph commit ts).Sound :=
  commitGraph_induction (.empty _) fun _ before t listed => before.append (sound t listed).toGraph

theorem Sound.embeds_commitGraph {t : Tree} {before after : List Tree} (sound : t.Sound)
    (others : ∀ u ∈ before ++ after, u.Sound) (commit : String) :
    t.toGraph.Embeds (Tree.commitGraph commit (before ++ t :: after))
      (t.toGraph.shifted (Tree.commitGraph commit before).size) := by
  have soundBefore : (Tree.commitGraph commit before).Sound :=
    Sound.commitGraph (fun u member => others u (List.mem_append_left _ member)) commit
  have further := (soundBefore.append sound.toGraph).embeds_foldl_append
    fun g (member : g ∈ after.map Tree.toGraph) => by
      obtain ⟨u, listed, rfl⟩ := List.mem_map.mp member
      exact (others u (List.mem_append_right _ listed)).toGraph
  have composed :=
    (sound.toGraph.enclosed.embeds_append_right (Tree.commitGraph commit before)).trans further
  have places : (fun i => (t.toGraph.shifted (Tree.commitGraph commit before).size i).bind
      (((Tree.commitGraph commit before).append t.toGraph).shifted 0)) =
        t.toGraph.shifted (Tree.commitGraph commit before).size := by
    funext i
    rcases Nat.lt_or_ge i t.toGraph.size with inside | outside
    · simp [shifted, inside, size_append]
    · simp [shifted, Nat.not_lt.mpr outside]
  rw [places] at composed
  rw [Tree.commitGraph, List.map_append, List.map_cons, List.foldl_append, List.foldl_cons]
  exact composed

end Variability.Tree
