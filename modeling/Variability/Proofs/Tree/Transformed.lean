import Mathlib.Algebra.Order.BigOperators.Group.List
import Mathlib.Algebra.Order.Ring.Nat
import Variability.Proofs.Tree.Building
import Variability.Proofs.Tree.Cut

/-!
Trees on their way through transforms and into graphs. A new label changes nothing but the root's
label. The cut drops neither the root nor a parent of what stays, so it leaves a well-formed tree
well formed; and the graphs of well-formed trees, one behind the other, are a well-formed graph.
-/

namespace Variability.Tree

variable {t : Tree}

/-! A new label. -/

theorem node_relabelRoot (label : String) (t : Tree) (i : Nat) :
    ∃ text, (t.relabelRoot label).node i = { t.node i with label := text } ∧
      (text = (t.node i).label ∨ text = label ∧ (t.node i).kind = .root) := by
  unfold relabelRoot
  split
  · exact ⟨(t.node i).label, rfl, .inl rfl⟩
  · next root found =>
      obtain ⟨inside, kind⟩ := mem_positions.mp (List.mem_of_head? found)
      by_cases same : root = i
      · subst same
        exact ⟨label, node_modify_self inside _, .inr ⟨rfl, of_decide_eq_true kind⟩⟩
      · exact ⟨(t.node i).label, node_modify_of_ne same _, .inl rfl⟩

theorem frame_relabelRoot (label : String) (t : Tree) : (t.relabelRoot label).frame = t.frame := by
  have same (i : Nat) : ((t.relabelRoot label).node i).frame = (t.node i).frame := by
    obtain ⟨text, same, -⟩ := node_relabelRoot label t i
    rw [same]
    rfl
  have views : (t.relabelRoot label).size = t.size ∧ (t.relabelRoot label).shape = t.shape ∧
      (t.relabelRoot label).source = t.source := by
    unfold relabelRoot
    split
    · exact ⟨rfl, rfl, rfl⟩
    · exact ⟨size_modify t _ _, rfl, rfl⟩
  refine ext_views ?_ views.2.1 views.2.2 ?_ ?_ ?_
  · rw [size_frame, size_frame, views.1]
  · intro i
    rw [node_frame, node_frame, same]
  · intro s i
    rw [parent, parent, node_frame, node_frame, same]
  · intro s i
    rw [children, children, node_frame, node_frame, same]

section Relabeled

variable (label : String) (t : Tree)

@[simp] theorem size_relabelRoot : (t.relabelRoot label).size = t.size := by
  rw [← size_frame, frame_relabelRoot, size_frame]

@[simp] theorem shape_relabelRoot : (t.relabelRoot label).shape = t.shape := by
  change (t.relabelRoot label).frame.shape = t.frame.shape
  rw [frame_relabelRoot]

@[simp] theorem source_relabelRoot : (t.relabelRoot label).source = t.source := by
  change (t.relabelRoot label).frame.source = t.frame.source
  rw [frame_relabelRoot]

@[simp] theorem parent_relabelRoot (s : Side) (i : Nat) :
    (t.relabelRoot label).parent s i = t.parent s i := by
  rw [← parent_frame, frame_relabelRoot, parent_frame]

@[simp] theorem children_relabelRoot (s : Side) (i : Nat) :
    (t.relabelRoot label).children s i = t.children s i := by
  rw [← children_frame, frame_relabelRoot, children_frame]

theorem firstFlaw?_relabelRoot : (t.relabelRoot label).firstFlaw? = t.firstFlaw? := by
  rw [← firstFlaw?_frame, frame_relabelRoot, firstFlaw?_frame]

end Relabeled

/-! Soundness. -/

theorem Sound.relabelRoot (sound : t.Sound) (label : String) : (t.relabelRoot label).Sound where
  ordered := by
    intro s i p linked
    rw [parent_relabelRoot] at linked
    exact sound.ordered s i p linked
  inside := by
    intro s p c child
    rw [children_relabelRoot] at child
    rw [size_relabelRoot]
    exact sound.inside child
  guarded := by
    intro i guarded
    obtain ⟨text, same, -⟩ := node_relabelRoot label t i
    rw [same] at guarded ⊢
    exact sound.guarded i guarded

theorem Sound.cutUnedited (sound : t.Sound) : t.cutUnedited.Sound :=
  sound.restrict fun i _ => t.editedMarks.has i

theorem Sound.applyAll (sound : t.Sound) (transforms : List Transform) :
    (Transform.applyAll transforms t).Sound := by
  induction transforms generalizing t with
  | nil => exact sound
  | cons transform transforms ih =>
      refine ih ?_
      cases transform with
      | relabelRoot label => exact sound.relabelRoot label
      | cutUnedited => exact sound.cutUnedited

/-! Being well formed. -/

theorem Ranked.relabelRoot (ranked : t.Ranked) (flawless : t.firstFlaw? = none) (label : String) :
    (t.relabelRoot label).Ranked where
  links := by
    have formed : (t.relabelRoot label).firstFlaw? = none := by
      rw [firstFlaw?_relabelRoot, flawless]
    exact (firstFlaw?_eq_none_iff_wellFormed.mp formed).links
  parentsFirst := by
    intro s i p linked
    rw [parent_relabelRoot] at linked
    exact ranked.parentsFirst s i p linked
  children := by
    intro s i
    rw [children_relabelRoot]
    exact ranked.children s i

theorem WellFormed.grounded (wellFormed : t.WellFormed) : t.Grounded where
  mem_children := fun {s _ _} => (wellFormed.links s).inverse
  owner := fun {s _ _} => (wellFormed.links s).owner
  child := fun {s _ _} => (wellFormed.links s).present
  ends := fun inside => wellFormed.exists_lineage inside

/-- What is above the place of a node stood above the node. -/
theorem Embeds.transGen {u : Tree} {place : Nat → Option Nat} (embeds : u.Embeds t place) {s : Side}
    {i j k : Nat} (placed : place i = some j)
    (above : Relation.TransGen (fun c p => t.parent s c = some p) j k) :
    ∃ l, place l = some k ∧ Relation.TransGen (fun c p => u.parent s c = some p) i l := by
  induction above with
  | single linked =>
      rw [embeds.parent placed] at linked
      obtain ⟨p, higher, placedAbove⟩ := Option.bind_eq_some_iff.mp linked
      exact ⟨p, placedAbove, .single higher⟩
  | tail _ linked ih =>
      obtain ⟨l, placedBelow, up⟩ := ih
      rw [embeds.parent placedBelow] at linked
      obtain ⟨p, higher, placedAbove⟩ := Option.bind_eq_some_iff.mp linked
      exact ⟨p, placedAbove, up.tail higher⟩

/-- A part that has the root, and with a node its parents, is well formed like the whole. -/
theorem firstFlaw?_restrict (flawless : t.firstFlaw? = none) {keep : Nat → Node → Bool}
    (roots : ∀ i < t.size, (t.node i).kind = .root → (t.place? keep i).isSome)
    (parents : ∀ {s i j p}, t.place? keep i = some j → t.parent s i = some p →
      (t.place? keep p).isSome) : (t.restrict keep).firstFlaw? = none := by
  have embeds := t.embeds_restrict keep
  have formed := firstFlaw?_eq_none_iff_wellFormed.mp flawless
  have origin {j : Nat} (inside : j < (t.restrict keep).size) :
      ∃ i < t.size, t.place? keep i = some j := by
    obtain ⟨i, placed⟩ := t.exists_place_restrict keep inside
    exact ⟨i, lt_size_of_place? placed, placed⟩
  refine firstFlaw?_eq_none_iff.mpr
    ⟨rootFlaw?_eq_none_iff_roots.mpr ⟨fun tree => ?_, fun graph => ?_⟩,
    idFlaw?_eq_none_iff_injective.mpr ?_,
    linkFlaw?_eq_none_iff_links.mpr ⟨gathers_interlinked.restrict formed.links keep, ?_⟩,
    cycleFlaw?_eq_none_iff_acyclic.mpr fun s j cycle => ?_⟩
  · obtain ⟨r, ⟨inside, root⟩, only⟩ := formed.oneRoot tree
    obtain ⟨j, placed⟩ := Option.isSome_iff_exists.mp (roots r inside root)
    have there : j < (t.restrict keep).size :=
      lt_size_of_kind_ne_code (by rw [embeds.kind placed, root]; decide)
    refine ⟨j, ⟨there, by rw [embeds.kind placed, root]⟩, ?_⟩
    rintro k ⟨insideToo, rootToo⟩
    obtain ⟨i, inside, placedToo⟩ := origin insideToo
    rw [embeds.kind placedToo] at rootToo
    obtain rfl := only i ⟨inside, rootToo⟩
    exact Option.some.inj (placedToo.symm.trans placed)
  · intro j inside
    obtain ⟨i, inside, placed⟩ := origin inside
    rw [embeds.kind placed]
    exact formed.noRoot graph i inside
  · intro j inside k insideToo same
    obtain ⟨i, inside, placed⟩ := origin inside
    obtain ⟨l, insideToo, placedToo⟩ := origin insideToo
    rw [← Node.bare_id, bare_restrict placed, ← Node.bare_id (Tree.node _ k),
      bare_restrict placedToo] at same
    obtain rfl := formed.ids i inside l insideToo same
    exact Option.some.inj (placed.symm.trans placedToo)
  · intro tree s j inside present line
    obtain ⟨i, inside, placed⟩ := origin inside
    rw [embeds.existsOn placed] at present
    rw [embeds.kind placed] at line
    obtain ⟨p, linked⟩ := formed.owned tree s i inside present line
    obtain ⟨q, placedAbove⟩ := Option.isSome_iff_exists.mp (parents placed linked)
    exact ⟨q, by rw [embeds.parent placed, linked, Option.bind_some, placedAbove]⟩
  · obtain ⟨q, linked, -⟩ := Relation.TransGen.head'_iff.mp cycle
    obtain ⟨i, inside, placed⟩ := origin (lt_size_of_parent linked)
    obtain ⟨l, placedToo, above⟩ := embeds.transGen placed cycle
    obtain rfl := (embeds.onSide s).injective placed placedToo
    exact formed.acyclic s i above

theorem firstFlaw?_cutUnedited (flawless : t.firstFlaw? = none) :
    t.cutUnedited.firstFlaw? = none := by
  have grounded := (firstFlaw?_eq_none_iff_wellFormed.mp flawless).grounded
  rw [cutUnedited]
  refine firstFlaw?_restrict flawless (fun i inside root => ?_)
    fun {s i j p} placed parent => grounded.isSome_cutPlace?_of_parent placed parent
  have marked := grounded.upward_editedMarks.edited inside (by simp [isEdited, root])
  exact (grounded.isSome_cutPlace? i).trans marked

/-! Graphs of commits. -/

theorem size_toGraph_le (t : Tree) : t.toGraph.size ≤ t.size := by
  unfold toGraph
  split
  · exact Nat.le_refl _
  · exact t.size_restrict_le fun _ n => n.kind ≠ .root

theorem isEmpty_iff : t.isEmpty ↔ ∀ i < t.size, (t.node i).kind = .root := by
  rw [isEmpty, Array.all_eq_true_iff_forall_mem]
  simp only [decide_eq_true_eq, mem_nodes, forall_exists_index, and_imp]
  exact ⟨fun all i inside => all _ i inside rfl, fun all _ i inside same => same ▸ all i inside⟩

/-- Nothing is left of a tree without its roots when there is nothing else. -/
theorem size_toGraph_eq_zero_iff (tree : t.shape = .tree) : t.toGraph.size = 0 ↔ t.isEmpty := by
  have size : t.toGraph.size = rank (t.stays fun _ n => n.kind ≠ .root) t.size := by
    rw [toGraph, tree, ← size_restrict]
    rfl
  rw [size, rank, List.countP_eq_zero, isEmpty_iff]
  refine forall_congr' fun i => ?_
  simp only [List.mem_range, stays, Bool.and_eq_true, decide_eq_true_eq]
  tauto

theorem WellFormed.kind_toGraph (wellFormed : t.WellFormed) {j : Nat}
    (inside : j < t.toGraph.size) : (t.toGraph.node j).kind ≠ .root := by
  cases shape : t.shape with
  | graph =>
      rw [toGraph, shape] at inside ⊢
      exact wellFormed.noRoot shape j inside
  | tree =>
      rw [toGraph, shape] at inside ⊢
      obtain ⟨i, placed⟩ := t.exists_place_restrict (fun _ n => n.kind ≠ .root) inside
      have here := (place?_eq_some_iff.mp placed).1
      simp only [stays, Bool.and_eq_true, decide_eq_true_eq] at here
      intro root
      exact here.2 (((t.embeds_restrict _).kind placed).symm.trans root)

theorem shape_commitGraph (commit : String) (ts : List Tree) :
    (commitGraph commit ts).shape = .graph :=
  commitGraph_induction (P := fun g => g.shape = .graph) rfl fun _ shape _ _ => shape

theorem source_commitGraph (commit : String) (ts : List Tree) :
    (commitGraph commit ts).source = ⟨"", commit, none⟩ :=
  commitGraph_induction (P := fun g => g.source = ⟨"", commit, none⟩) rfl
    fun _ source _ _ => source

theorem id_commitGraph (commit : String) (ts : List Tree) :
    ∀ i < (commitGraph commit ts).size, ((commitGraph commit ts).node i).id = i := by
  refine commitGraph_induction (P := fun g => ∀ i < g.size, (g.node i).id = i)
    (fun _ inside => by cases inside) fun g ids t _ i inside => ?_
  rcases append_position inside with left | ⟨k, right, rfl⟩
  · rw [node_append_left left]
    exact ids i left
  · rw [node_append_right g right]

theorem kind_commitGraph {ts : List Tree} (wellFormed : ∀ t ∈ ts, t.WellFormed) (commit : String) :
    ∀ i < (commitGraph commit ts).size, ((commitGraph commit ts).node i).kind ≠ .root := by
  refine commitGraph_induction (P := fun g => ∀ i < g.size, (g.node i).kind ≠ .root)
    (fun _ inside => by cases inside) fun g kinds t listed i inside => ?_
  rcases append_position inside with left | ⟨k, right, rfl⟩
  · rw [node_append_left left]
    exact kinds i left
  · rw [node_append_right g right]
    exact (wellFormed t listed).kind_toGraph right

theorem size_commitGraph (commit : String) (ts : List Tree) :
    (commitGraph commit ts).size = (ts.map fun t => t.toGraph.size).sum := by
  have union (hs : List Tree) (g : Tree) :
      (hs.foldl Tree.append g).size = g.size + (hs.map Tree.size).sum := by
    induction hs generalizing g with
    | nil => rfl
    | cons h hs ih =>
        rw [List.foldl_cons, ih, size_append, List.map_cons, List.sum_cons, Nat.add_assoc]
  rw [commitGraph, union, List.map_map]
  exact Nat.zero_add _

/-- Interlinked nodes of which none is above itself. -/
structure Layered (t : Tree) : Prop where
  links : ∀ s, t.Interlinked s
  acyclic : ∀ s i, ¬ Relation.TransGen (fun c p => t.parent s c = some p) i i

/-- A circle of parents would have come from a circle in one of the trees. -/
theorem gathers_layered : Gathers Layered where
  enclosed := fun layered => enclosed_of_interlinked layered.links
  gather := by
    intro t origin
    refine ⟨gathers_interlinked.gather fun j inside => ?_, fun s j cycle => ?_⟩
    · obtain ⟨u, place, i, layered, embeds, placed⟩ := origin j inside
      exact ⟨u, place, i, layered.links, embeds, placed⟩
    · obtain ⟨q, linked, -⟩ := Relation.TransGen.head'_iff.mp cycle
      obtain ⟨u, place, i, layered, embeds, placed⟩ := origin j (lt_size_of_parent linked)
      obtain ⟨l, placedToo, above⟩ := embeds.transGen placed cycle
      obtain rfl := (embeds.onSide s).injective placed placedToo
      exact layered.acyclic s i above

/-- The graphs of well-formed trees and graphs, one behind the other, are a well-formed graph. -/
theorem firstFlaw?_commitGraph {ts : List Tree} (flawless : ∀ t ∈ ts, t.firstFlaw? = none)
    (commit : String) : (commitGraph commit ts).firstFlaw? = none := by
  have formed (t : Tree) (listed : t ∈ ts) : t.WellFormed :=
    firstFlaw?_eq_none_iff_wellFormed.mp (flawless t listed)
  have graph := shape_commitGraph commit ts
  have layered : (commitGraph commit ts).Layered := gathers_layered.commitGraph
    (fun t listed => ⟨(formed t listed).links, (formed t listed).acyclic⟩) commit
  refine firstFlaw?_eq_none_iff.mpr ⟨rootFlaw?_eq_none_iff_roots.mpr ⟨?_, ?_⟩,
    idFlaw?_eq_none (id_commitGraph commit ts),
    linkFlaw?_eq_none_iff_links.mpr ⟨layered.links, ?_⟩,
    cycleFlaw?_eq_none_iff_acyclic.mpr layered.acyclic⟩
  · rw [graph]
    exact nofun
  · exact fun _ => kind_commitGraph formed commit
  · rw [graph]
    exact nofun

end Variability.Tree
