import Variability.Proofs.Patch.Scopes
import Variability.Proofs.Tree.Consistency

/-!
Trees that overlay entries are well formed: the root is the only root, ids are positions, parents
and children agree, and parents stand before their children.
-/

namespace Variability

namespace Patch.Overlays

variable {t : Tree} {es : List Entry} (overlays : Overlays t es)
include overlays

theorem lookup {i : Nat} (inside : i < t.size) (line : i ≠ 0) :
    ∃ k e, i = k + 1 ∧ es[k]? = some e := by
  obtain ⟨k, rfl⟩ : ∃ k, i = k + 1 := ⟨i - 1, by omega⟩
  have : k < es.length := by
    have := overlays.size
    omega
  exact ⟨k, es[k], rfl, List.getElem?_eq_getElem this⟩

theorem parent_root (s : Side) : t.parent s 0 = none :=
  overlays.parent s 0

theorem parent_entry {k : Nat} {e : Entry} (lookup : es[k]? = some e) (s : Side) :
    t.parent s (k + 1) =
      if e.edit.existsOn s then some (e.scope (openBranches s (es.take k))) else none := by
  rw [overlays.parent, parentIn, lookup]
  rfl

theorem mem_children {s : Side} {p c : Nat} :
    c ∈ t.children s p ↔ t.parent s c = some p := by
  rw [overlays.children, List.mem_filter, List.mem_range, decide_eq_true_eq]
  exact ⟨And.right, fun linked => ⟨Tree.lt_size_of_parent linked, linked⟩⟩

theorem parentsFirst : t.ParentsFirst := by
  intro s i p linked
  rcases Nat.eq_zero_or_pos i with rfl | positive
  · rw [overlays.parent_root] at linked
    simp at linked
  · obtain ⟨k, e, rfl, lookup⟩ := overlays.lookup (Tree.lt_size_of_parent linked) (by omega)
    rw [overlays.parent_entry lookup] at linked
    have bound := scope_le s (es.take k) e
    have := List.length_take_le k es
    split at linked <;> simp at linked
    omega

theorem parent_owns {s : Side} {i p : Nat} (linked : t.parent s i = some p) :
    (t.node p).existsOn s ∧ (t.node p).kind.isScope := by
  rcases Nat.eq_zero_or_pos i with rfl | positive
  · rw [overlays.parent_root] at linked
    simp at linked
  · obtain ⟨k, e, rfl, lookup⟩ := overlays.lookup (Tree.lt_size_of_parent linked) (by omega)
    rw [overlays.parent_entry lookup] at linked
    split at linked
    · obtain rfl : e.scope (openBranches s (es.take k)) = p := by simpa using linked
      apply (overlays.split k).owner
      unfold Entry.scope
      cases around : e.around (openBranches s (es.take k)) with
      | nil => exact .inl rfl
      | cons b rest =>
          exact .inr (Entry.mem_of_mem_around (by rw [around]; exact List.mem_cons_self))
    · simp at linked

theorem existsOn_iff_linked (lines : ∀ e ∈ es, e.kind ≠ .root) {i : Nat} (inside : i < t.size)
    (line : i ≠ 0) (s : Side) : (t.node i).existsOn s ↔ (t.parent s i).isSome := by
  obtain ⟨k, e, rfl, lookup⟩ := overlays.lookup inside line
  have noRoot : e.kind ≠ .root := lines e (List.mem_of_getElem? lookup)
  rw [overlays.existsOn_entry lookup, overlays.parent_entry lookup]
  by_cases present : e.edit.existsOn s <;> simp [present, noRoot]

theorem kind_ne_root (lines : ∀ e ∈ es, e.kind ≠ .root) {i : Nat} (line : i ≠ 0) :
    (t.node i).kind ≠ .root := by
  intro root
  have inside : i < t.size := Tree.lt_size_of_kind_ne_code (by rw [root]; decide)
  obtain ⟨k, e, rfl, lookup⟩ := overlays.lookup inside line
  rw [overlays.kind_entry lookup] at root
  exact lines e (List.mem_of_getElem? lookup) root

theorem roots_eq (lines : ∀ e ∈ es, e.kind ≠ .root) (s : Side) : t.roots s = [0] := by
  rw [Tree.roots, Tree.positions_eq, overlays.size, List.range_succ_eq_map, List.filter_cons_of_pos]
  · rw [List.cons_eq_cons]
    refine ⟨rfl, List.filter_eq_nil_iff.mpr ?_⟩
    intro i member
    obtain ⟨k, inside, rfl⟩ := List.mem_map.mp member
    rw [List.mem_range] at inside
    have linked := overlays.existsOn_iff_linked lines (i := k + 1)
      (by rw [overlays.size]; omega) (by omega) s
    rw [Bool.and_eq_true, Option.isNone_iff_eq_none, ← Option.not_isSome_iff_eq_none]
    exact fun both => both.2 (linked.mp both.1)
  · have unlinked : (t.node 0).parent s = none := overlays.parent_root s
    simp [Node.existsOn, overlays.kind_root, unlinked]

theorem positions_root (lines : ∀ e ∈ es, e.kind ≠ .root) :
    t.positions (·.kind = .root) = [0] := by
  rw [Tree.positions_eq, overlays.size, List.range_succ_eq_map, List.filter_cons_of_pos]
  · rw [List.cons_eq_cons]
    refine ⟨rfl, List.filter_eq_nil_iff.mpr ?_⟩
    intro i member
    obtain ⟨k, -, rfl⟩ := List.mem_map.mp member
    simpa using overlays.kind_ne_root lines (i := k + 1) (by omega)
  · simp [overlays.kind_root]

theorem id_eq {i : Nat} (inside : i < t.size) : (t.node i).id = i := by
  by_cases line : i = 0
  · subst line
    rw [← Node.bare_id, overlays.root]
    rfl
  · obtain ⟨k, e, rfl, lookup⟩ := overlays.lookup inside line
    rw [← Node.bare_id, overlays.entry lookup]
    rfl

theorem interlinked (lines : ∀ e ∈ es, e.kind ≠ .root) (s : Side) : t.Interlinked s where
  inverse := overlays.mem_children
  once := by
    intro p
    rw [overlays.children]
    exact List.nodup_range.filter _
  top := by
    intro i root
    obtain rfl : i = 0 := not_not.mp fun line => overlays.kind_ne_root lines line root
    exact overlays.parent_root s
  present := by
    intro c p linked
    have line : c ≠ 0 := by
      rintro rfl
      rw [overlays.parent_root] at linked
      cases linked
    refine (overlays.existsOn_iff_linked lines (Tree.lt_size_of_parent linked) line s).mpr ?_
    rw [linked]
    rfl
  owner := fun linked => (overlays.parent_owns linked).1
  scope := fun linked => (overlays.parent_owns linked).2

theorem linkFlaw?_eq_none (lines : ∀ e ∈ es, e.kind ≠ .root) : t.linkFlaw? = none := by
  refine Tree.linkFlaw?_eq_none_iff_links.mpr
    ⟨overlays.interlinked lines, fun _ s i inside present line => ?_⟩
  have line : i ≠ 0 := fun root => line (root ▸ overlays.kind_root)
  exact Option.isSome_iff_exists.mp ((overlays.existsOn_iff_linked lines inside line s).mp present)

/-- The tree of entries has no flaw. -/
theorem firstFlaw?_eq_none (lines : ∀ e ∈ es, e.kind ≠ .root) : t.firstFlaw? = none := by
  have roots := overlays.positions_root lines
  refine Tree.firstFlaw?_eq_none_iff.mpr ⟨?_, Tree.idFlaw?_eq_none fun i => overlays.id_eq,
    overlays.linkFlaw?_eq_none lines, Tree.cycleFlaw?_eq_none overlays.parentsFirst⟩
  exact Tree.rootFlaw?_eq_none_iff.mpr
    ⟨fun _ => by rw [roots]; rfl, fun graph => by rw [overlays.shape] at graph; cases graph⟩

end Patch.Overlays

end Variability
