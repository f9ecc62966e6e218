import Variability.Tree.Flaw

/-!
What the operations on a tree do to its nodes, seen through three views: the parent and the
children of a node on a side, and the node without its links.
-/

namespace Variability

namespace Node

/-- A node without its links. -/
def bare (n : Node) : Node :=
  { n with before := .none, after := .none }

@[simp] theorem bare_id (n : Node) : n.bare.id = n.id := rfl

@[simp] theorem bare_kind (n : Node) : n.bare.kind = n.kind := rfl

@[simp] theorem bare_edit (n : Node) : n.bare.edit = n.edit := rfl

@[simp] theorem bare_guard (n : Node) : n.bare.guard = n.guard := rfl

@[simp] theorem bare_setParent (n : Node) (s : Side) (p : Option Nat) :
    (n.setParent s p).bare = n.bare := by
  cases s <;> rfl

@[simp] theorem bare_setChildren (n : Node) (s : Side) (cs : List Nat) :
    (n.setChildren s cs).bare = n.bare := by
  cases s <;> rfl

theorem parent_setParent (n : Node) (s side : Side) (p : Option Nat) :
    (n.setParent s p).parent side = if side = s then p else n.parent side := by
  cases s <;> cases side <;> rfl

@[simp] theorem children_setParent (n : Node) (s side : Side) (p : Option Nat) :
    (n.setParent s p).children side = n.children side := by
  cases s <;> cases side <;> rfl

@[simp] theorem parent_setChildren (n : Node) (s side : Side) (cs : List Nat) :
    (n.setChildren s cs).parent side = n.parent side := by
  cases s <;> cases side <;> rfl

theorem children_setChildren (n : Node) (s side : Side) (cs : List Nat) :
    (n.setChildren s cs).children side = if side = s then cs else n.children side := by
  cases s <;> cases side <;> rfl

/-- A node without its id and its links. -/
def content (n : Node) : Node :=
  { n.bare with id := 0 }

@[simp] theorem content_kind (n : Node) : n.content.kind = n.kind := rfl

@[simp] theorem content_label (n : Node) : n.content.label = n.label := rfl

@[simp] theorem content_edit (n : Node) : n.content.edit = n.edit := rfl

@[simp] theorem content_guard (n : Node) : n.content.guard = n.guard := rfl

theorem existsOn_of_bare_eq {m n : Node} (sameBare : m.bare = n.bare) (s : Side) :
    m.existsOn s = n.existsOn s := by
  have sameKind : m.bare.kind = n.bare.kind := by rw [sameBare]
  have sameEdit : m.bare.edit = n.bare.edit := by rw [sameBare]
  rw [bare_kind, bare_kind] at sameKind
  rw [bare_edit, bare_edit] at sameEdit
  simp [existsOn, sameKind, sameEdit]

end Node

namespace Tree

theorem node_of_size_le {t : Tree} {i : Nat} (outside : t.size ≤ i) : t.node i = default := by
  have : t.nodes[i]? = none := Array.getElem?_eq_none outside
  simp [node, this]

theorem lt_size_of_kind_ne_code {t : Tree} {i : Nat} (line : (t.node i).kind ≠ .code) :
    i < t.size := by
  rcases Nat.lt_or_ge i t.size with inside | outside
  · exact inside
  · rw [node_of_size_le outside] at line
    exact absurd rfl line

theorem lt_size_of_hasGuard {t : Tree} {i : Nat} (guarded : (t.node i).kind.hasGuard) :
    i < t.size := by
  apply lt_size_of_kind_ne_code
  intro kind
  rw [kind] at guarded
  cases guarded

theorem parent_of_size_le {t : Tree} {i : Nat} (outside : t.size ≤ i) (s : Side) :
    t.parent s i = none := by
  rw [parent, node_of_size_le outside]
  cases s <;> rfl

theorem children_of_size_le {t : Tree} {i : Nat} (outside : t.size ≤ i) (s : Side) :
    t.children s i = [] := by
  rw [children, node_of_size_le outside]
  cases s <;> rfl

theorem lt_size_of_mem_children {t : Tree} {s : Side} {p c : Nat} (child : c ∈ t.children s p) :
    p < t.size := by
  rcases Nat.lt_or_ge p t.size with inside | outside
  · exact inside
  · rw [children_of_size_le outside] at child
    cases child

theorem entries_eq (t : Tree) : t.entries = (List.range t.size).map fun i => (i, t.node i) := by
  apply List.ext_getElem?
  intro i
  rcases Nat.lt_or_ge i t.nodes.size with inside | outside
  · simp [entries, size, node, inside]
  · simp [entries, size, outside]

theorem positions_eq (t : Tree) (test : Node → Bool) :
    t.positions test = (List.range t.size).filter fun i => test (t.node i) := by
  rw [positions, entries_eq, List.filter_map, List.map_map]
  exact List.map_id _

theorem mem_positions {t : Tree} {test : Node → Bool} {i : Nat} :
    i ∈ t.positions test ↔ i < t.size ∧ test (t.node i) := by
  rw [positions_eq, List.mem_filter, List.mem_range]

theorem nodes_toList (t : Tree) : t.nodes.toList = (List.range t.size).map t.node := by
  have seconds : t.entries.map Prod.snd = t.nodes.toList := by
    rw [entries, List.map_map]
    exact List.zipIdx_map_fst 0 t.nodes.toList
  rw [← seconds, entries_eq, List.map_map]
  rfl

theorem mem_nodes {t : Tree} {n : Node} : n ∈ t.nodes ↔ ∃ i < t.size, t.node i = n := by
  rw [← Array.mem_toList_iff, nodes_toList, List.mem_map]
  simp only [List.mem_range]

theorem ext_views {t u : Tree} (size : t.size = u.size) (shape : t.shape = u.shape)
    (source : t.source = u.source) (bare : ∀ i, (t.node i).bare = (u.node i).bare)
    (parent : ∀ s i, t.parent s i = u.parent s i)
    (children : ∀ s i, t.children s i = u.children s i) : t = u := by
  have node (i : Nat) : t.node i = u.node i := by
    have links (s : Side) : (t.node i).links s = (u.node i).links s := by
      have parents : ((t.node i).links s).parent = ((u.node i).links s).parent := parent s i
      have lists : ((t.node i).links s).children = ((u.node i).links s).children := children s i
      cases left : (t.node i).links s
      cases right : (u.node i).links s
      simp_all
    have before : (t.node i).before = (u.node i).before := links .before
    have after : (t.node i).after = (u.node i).after := links .after
    have same := bare i
    cases left : t.node i
    cases right : u.node i
    simp_all [Node.bare]
  have nodes : t.nodes = u.nodes := by
    apply Array.toList_inj.mp
    rw [nodes_toList, nodes_toList, size]
    exact List.map_congr_left fun i _ => node i
  cases t
  cases u
  simp_all

theorem node_modify_self {t : Tree} {i : Nat} (inside : i < t.size) (f : Node → Node) :
    (t.modify i f).node i = f (t.node i) := by
  have : t.nodes[i]? = some t.nodes[i] := Array.getElem?_eq_getElem inside
  simp [modify, node, Array.getElem?_modify, this]

theorem node_modify_of_ne {t : Tree} {i j : Nat} (different : i ≠ j) (f : Node → Node) :
    (t.modify i f).node j = t.node j := by
  simp [modify, node, Array.getElem?_modify, different]

@[simp] theorem size_addEdge (t : Tree) (s : Side) (p c : Nat) :
    (t.addEdge s p c).size = t.size := by
  simp [addEdge]

@[simp] theorem shape_addEdge (t : Tree) (s : Side) (p c : Nat) :
    (t.addEdge s p c).shape = t.shape := rfl

@[simp] theorem source_addEdge (t : Tree) (s : Side) (p c : Nat) :
    (t.addEdge s p c).source = t.source := rfl

private theorem view_modify {α : Type} (view : Node → α) {f : Node → Node}
    (kept : ∀ n, view (f n) = view n) (t : Tree) (i j : Nat) :
    view ((t.modify i f).node j) = view (t.node j) := by
  by_cases same : i = j
  · subst same
    by_cases inside : i < t.size
    · rw [node_modify_self inside, kept]
    · rw [node_of_size_le (by simpa using inside), node_of_size_le (by simpa using inside)]
  · rw [node_modify_of_ne same]

@[simp] theorem bare_addEdge (t : Tree) (s : Side) (p c i : Nat) :
    ((t.addEdge s p c).node i).bare = (t.node i).bare := by
  rw [addEdge, view_modify Node.bare (by simp), view_modify Node.bare (by simp)]

theorem parent_addEdge {t : Tree} {c : Nat} (inside : c < t.size) (s side : Side) (p i : Nat) :
    (t.addEdge s p c).parent side i =
      if side = s ∧ i = c then some p else t.parent side i := by
  have kept := view_modify (·.parent side)
    (f := fun n => n.setChildren s (n.children s ++ [c])) (by simp)
    (t.modify c (·.setParent s (some p))) p i
  rw [addEdge, parent, kept]
  by_cases same : i = c
  · subst same
    rw [node_modify_self inside, Node.parent_setParent]
    simp [parent]
  · rw [node_modify_of_ne (Ne.symm same)]
    simp [same, parent]

theorem children_addEdge {t : Tree} {p : Nat} (inside : p < t.size) (s side : Side) (c i : Nat) :
    (t.addEdge s p c).children side i =
      if side = s ∧ i = p then t.children side i ++ [c] else t.children side i := by
  have kept (side : Side) (j : Nat) := view_modify (·.children side)
    (f := (·.setParent s (some p))) (by simp) t c j
  rw [addEdge, children]
  by_cases same : i = p
  · subst same
    rw [node_modify_self (by simpa using inside), Node.children_setChildren]
    by_cases sameSide : side = s
    · subst sameSide
      simp [kept, children]
    · simp [sameSide, kept, children]
  · rw [node_modify_of_ne (Ne.symm same), kept]
    simp [same, children]

@[simp] theorem nodes_push (t : Tree) (n : Node) :
    (t.push n).nodes.toList = t.nodes.toList ++ [n] := by
  simp [push]

theorem node_push {t : Tree} {n : Node} (i : Nat) :
    (t.push n).node i = if i = t.size then n else t.node i := by
  by_cases same : i = t.size
  · simp [same, node_push_self]
  · by_cases inside : i < t.size
    · rw [node_push_of_lt n inside, if_neg same]
    · rw [node_of_size_le (by rw [size_push]; omega), node_of_size_le (by omega), if_neg same]

theorem parent_push_eq (t : Tree) (n : Node) (s : Side) (i : Nat) :
    (t.push n).parent s i = if i = t.size then n.parent s else t.parent s i := by
  rw [parent, node_push]
  split <;> rfl

theorem children_push_eq (t : Tree) (n : Node) (s : Side) (i : Nat) :
    (t.push n).children s i = if i = t.size then n.children s else t.children s i := by
  rw [children, node_push]
  split <;> rfl

theorem parent_push {t : Tree} {n : Node} {s : Side} (unlinked : n.parent s = none) (i : Nat) :
    (t.push n).parent s i = t.parent s i := by
  rw [parent_push_eq]
  split
  · next last => rw [parent_of_size_le (Nat.le_of_eq last.symm), unlinked]
  · rfl

theorem children_push {t : Tree} {n : Node} {s : Side} (childless : n.children s = []) (i : Nat) :
    (t.push n).children s i = t.children s i := by
  rw [children_push_eq]
  split
  · next last => rw [children_of_size_le (Nat.le_of_eq last.symm), childless]
  · rfl

theorem edgeFlaw?_eq_none_iff {t : Tree} {s : Side} {p c : Nat} :
    t.edgeFlaw? s p c = none ↔
      (t.node c).existsOn s ∧ (t.node c).kind ≠ .root ∧ (t.node p).existsOn s ∧
        (t.node p).kind.isScope ∧ t.parent s c = none := by
  simp only [edgeFlaw?, parent]
  by_cases child : (t.node c).existsOn s
  · by_cases root : (t.node c).kind = .root
    · simp [child, root]
    · by_cases present : (t.node p).existsOn s
      · by_cases scope : (t.node p).kind.isScope <;> simp [child, root, present, scope]
      · simp [child, root, present]
  · simp [child]

theorem run_linkIn (t : Tree) (s : Side) (p c : Nat) :
    (linkIn s p c).run.run t =
      match t.edgeFlaw? s p c with
      | some flaw => (.error flaw, t)
      | none => (.ok (), t.addEdge s p c) := by
  change (match t.edgeFlaw? s p c with
    | some flaw => throw flaw
    | none => set (t.addEdge s p c) : ExceptT Flaw (StateM Tree) Unit).run.run t = _
  cases t.edgeFlaw? s p c <;> rfl

theorem link_eq (t : Tree) (s : Side) (p c : Nat) :
    t.link s p c =
      match t.edgeFlaw? s p c with
      | some flaw => .error flaw
      | none => .ok (t.addEdge s p c) := by
  rw [link, run_linkIn]
  cases t.edgeFlaw? s p c <;> rfl

end Tree

end Variability
