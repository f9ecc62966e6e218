import Variability.LineGraph.Reader
import Variability.Proofs.Tree.Flawless

/-!
The text of a line graph, without the reader. A header opens a passage that goes on to the next
header; its node lines stand for nodes, its edge lines for edges between ids. A tree transcribes a
passage when it has exactly these nodes and, on each side, exactly these edges. Each line that the
reader takes in brings the tree as far as the passage.
-/

namespace Variability.LineGraph

/-- An edge as a line names it, by the ids of its ends. -/
structure Edge where
  child : Nat
  parent : Nat
  role : Role
  deriving DecidableEq

def Edge.ofText? (text : List Char) : Option Edge :=
  match Text.words text with
  | [child, parent, role] =>
    (Text.readDecimal? child).bind fun child =>
      (Text.readDecimal? parent).bind fun parent =>
        (Role.ofToken? (String.ofList role)).map fun role => ⟨child, parent, role⟩
  | _ => none

/-- The node that a node line stands for: its id up to the first space, its label behind. -/
def NodeFormat.ofText? (format : NodeFormat) (text : List Char) : Option Node :=
  let (id, label) := (Text.cut? [' '] text).getD (text, [])
  (Text.readDecimal? id).bind fun id => (format.read id label).toOption

def Line.nodeText? : Line → Option (List Char)
  | node rest => some rest
  | _ => none

def Line.edgeText? : Line → Option (List Char)
  | edge rest => some rest
  | _ => none

/-- A header's label and the lines up to the next header. -/
structure Passage where
  label : List Char
  lines : List (List Char)
  deriving DecidableEq

namespace Passage

def nodeTexts (passage : Passage) : List (List Char) :=
  passage.lines.filterMap fun l => (Line.ofText l).nodeText?

def edgeTexts (passage : Passage) : List (List Char) :=
  passage.lines.filterMap fun l => (Line.ofText l).edgeText?

def extend (passage : Passage) (ls : List (List Char)) : Passage :=
  { passage with lines := passage.lines ++ ls }

@[simp] theorem extend_nil (passage : Passage) : passage.extend [] = passage := by
  rw [extend, List.append_nil]

end Passage

/-- The lines in front of the first header, and the passages. -/
def passages : List (List Char) → List (List Char) × List Passage
  | [] => ([], [])
  | l :: ls =>
    let (front, rest) := passages ls
    match Line.ofText l with
    | .header label => ([], ⟨label, front⟩ :: rest)
    | .node _ | .edge _ | .blank | .other => (l :: front, rest)

/-- The links of a tree are those that edges draw, children in the order of the edges. -/
structure Drawn (t : Tree) (es : List Edge) : Prop where
  ends : ∀ e ∈ es, (∃ c < t.size, (t.node c).id = e.child) ∧ ∃ p < t.size, (t.node p).id = e.parent
  inside : ∀ {s p c}, c ∈ t.children s p → c < t.size
  parent : ∀ s c p, t.parent s c = some p ↔ c < t.size ∧ p < t.size ∧
    ∃ e ∈ es, e.child = (t.node c).id ∧ e.parent = (t.node p).id ∧ s ∈ e.role.sides
  children : ∀ s, ∀ p < t.size, (t.children s p).map (fun c => (t.node c).id) =
    (es.filter fun e => e.parent = (t.node p).id ∧ s ∈ e.role.sides).map (·.child)

/-- A tree that has the nodes and the edges of a passage, and no others. -/
structure Transcribes (options : Options) (passage : Passage) (t : Tree) : Prop where
  shape : t.shape = options.shape
  source : t.source = readSource passage.label
  nodes : passage.nodeTexts.map options.nodes.ofText? = t.nodes.toList.map fun n => some n.bare
  ids : (t.nodes.toList.map (·.id)).Nodup
  edges : ∃ es, passage.edgeTexts.map Edge.ofText? = es.map some ∧ Drawn t es

variable {t u : Tree}

/-! Edges. -/

/-- A tree is another one with one more edge, the last of its parent, on some sides. -/
structure Grafted (t : Tree) (ss : List Side) (p c : Nat) (u : Tree) : Prop where
  free : ∀ s ∈ ss, t.parent s c = none
  size : u.size = t.size
  shape : u.shape = t.shape
  source : u.source = t.source
  bare : ∀ i, (u.node i).bare = (t.node i).bare
  parent : ∀ s i, u.parent s i = if s ∈ ss ∧ i = c then some p else t.parent s i
  children : ∀ s i,
    u.children s i = if s ∈ ss ∧ i = p then t.children s i ++ [c] else t.children s i

theorem grafted_of_linkAll {n p c : Nat} {ss : List Side} (owner : p < t.size) (child : c < t.size)
    (linked : linkAll n p c ss t = .ok u) : Grafted t ss p c u := by
  induction ss generalizing t with
  | nil =>
      obtain rfl : t = u := Except.ok.inj linked
      constructor <;> simp
  | cons s ss ih =>
      rw [linkAll, Tree.link_eq] at linked
      cases unflawed : t.edgeFlaw? s p c with
      | some flaw =>
          rw [unflawed] at linked
          cases linked
      | none =>
          rw [unflawed] at linked
          have rest := ih (t := t.addEdge s p c) (by simpa using owner) (by simpa using child)
            linked
          have free := (Tree.edgeFlaw?_eq_none_iff.mp unflawed).2.2.2.2
          -- the first side is none of the others: on those the child still has no parent
          have once : s ∉ ss := fun again => by
            have taken := rest.free s again
            rw [Tree.parent_addEdge child, if_pos ⟨rfl, rfl⟩] at taken
            cases taken
          have other {d : Side} (later : d ∈ ss) : d ≠ s := fun same => once (same ▸ later)
          refine ⟨List.forall_mem_cons.mpr ⟨free, fun d later => ?_⟩, ?_, ?_, ?_, fun i => ?_,
            fun d i => ?_, fun d i => ?_⟩
          · have still := rest.free d later
            rwa [Tree.parent_addEdge child, if_neg (fun both => other later both.1)] at still
          · rw [rest.size, Tree.size_addEdge]
          · rw [rest.shape, Tree.shape_addEdge]
          · rw [rest.source, Tree.source_addEdge]
          · rw [rest.bare, Tree.bare_addEdge]
          · rw [rest.parent, Tree.parent_addEdge child]
            by_cases later : d ∈ ss
            · simp [later, other later]
            · simp [later]
          · rw [rest.children, Tree.children_addEdge owner]
            by_cases later : d ∈ ss
            · simp [later, other later]
            · simp [later]

namespace Grafted

variable {ss : List Side} {p c : Nat} (grafted : Grafted t ss p c u)
include grafted

theorem id (i : Nat) : (u.node i).id = (t.node i).id := by
  rw [← Node.bare_id, grafted.bare, Node.bare_id]

theorem map_nodes {α : Type} (f : Node → α) :
    (u.nodes.toList.map fun n => f n.bare) = t.nodes.toList.map fun n => f n.bare := by
  rw [Tree.nodes_toList, Tree.nodes_toList, grafted.size, List.map_map, List.map_map]
  exact List.map_congr_left fun i _ => congrArg f (grafted.bare i)

/-- The edge that was added is one more edge of the drawing. -/
theorem drawn {es : List Edge} (drawn : Drawn t es) (ids : (t.nodes.toList.map (·.id)).Nodup)
    {e : Edge} (child : c < t.size) (named : (t.node c).id = e.child) (owner : p < t.size)
    (ownerNamed : (t.node p).id = e.parent) (sides : ss = e.role.sides) :
    Drawn u (es ++ [e]) := by
  subst sides
  have unique {i j : Nat} (inside : i < t.size) (insideToo : j < t.size)
      (same : (t.node i).id = (t.node j).id) : i = j := Tree.eq_of_id_eq ids inside insideToo same
  constructor
  · intro d member
    simp only [grafted.id, grafted.size]
    rcases List.mem_append.mp member with old | new
    · exact drawn.ends d old
    · obtain rfl := List.mem_singleton.mp new
      exact ⟨⟨c, child, named⟩, p, owner, ownerNamed⟩
  · intro s q d listed
    rw [grafted.size]
    rw [grafted.children] at listed
    split at listed
    · rcases List.mem_append.mp listed with old | new
      · exact drawn.inside old
      · obtain rfl := List.mem_singleton.mp new
        exact child
    · exact drawn.inside listed
  · intro s i q
    simp only [grafted.id, grafted.size, grafted.parent, List.mem_append, List.mem_singleton,
      or_and_right, exists_or, exists_eq_left]
    by_cases here : s ∈ e.role.sides ∧ i = c
    · obtain ⟨onSide, rfl⟩ := here
      rw [if_pos ⟨onSide, rfl⟩]
      constructor
      · intro same
        obtain rfl := Option.some.inj same
        exact ⟨child, owner, .inr ⟨named.symm, ownerNamed.symm, onSide⟩⟩
      · rintro ⟨-, inside, old | ⟨-, sameParent, -⟩⟩
        · have taken := (drawn.parent s i q).mpr ⟨child, inside, old⟩
          rw [grafted.free s onSide] at taken
          cases taken
        · rw [unique owner inside (ownerNamed.trans sameParent)]
    · rw [if_neg here, drawn.parent]
      refine and_congr_right fun insideToo => and_congr_right fun _ => (or_iff_left ?_).symm
      rintro ⟨sameChild, -, onSide⟩
      exact here ⟨onSide, unique insideToo child (sameChild.symm.trans named.symm)⟩
  · intro s q inside
    rw [grafted.size] at inside
    simp only [grafted.id, grafted.children, List.filter_append, List.map_append]
    by_cases here : s ∈ e.role.sides ∧ q = p
    · obtain ⟨onSide, rfl⟩ := here
      rw [if_pos ⟨onSide, rfl⟩, List.map_append, drawn.children s q inside]
      simp [ownerNamed, onSide, named]
    · have noEdge : ¬ (e.parent = (t.node q).id ∧ s ∈ e.role.sides) := fun ⟨same, onSide⟩ =>
        here ⟨onSide, unique inside owner (same.symm.trans ownerNamed.symm)⟩
      rw [if_neg here, drawn.children s q inside]
      simp [noEdge]

end Grafted

namespace Drawn

variable {es : List Edge} (drawn : Drawn t es)
include drawn

/-- A node that no edge names so far has no part in the drawing. -/
theorem push {n : Node} (unlinked : n.bare = n) (unused : n.id ∉ t.nodes.toList.map (·.id)) :
    Drawn (t.push n) es := by
  have noParent (s : Side) : n.parent s = none := by rw [← unlinked]; cases s <;> rfl
  have childless (s : Side) : n.children s = [] := by rw [← unlinked]; cases s <;> rfl
  have old {i : Nat} (inside : i < t.size) : (t.push n).node i = t.node i :=
    Tree.node_push_of_lt n inside
  have named {id i : Nat} (inside : i < (t.push n).size) (same : id = ((t.push n).node i).id)
      (taken : ∃ j < t.size, (t.node j).id = id) : i < t.size := by
    by_cases last : i = t.size
    · obtain ⟨j, insideToo, rfl⟩ := taken
      rw [last, Tree.node_push_self] at same
      exact absurd (same ▸ Tree.id_mem_ids insideToo) unused
    · rw [Tree.size_push] at inside
      omega
  constructor
  · intro e member
    obtain ⟨⟨c, child, childNamed⟩, p, owner, ownerNamed⟩ := drawn.ends e member
    rw [Tree.size_push]
    exact ⟨⟨c, by omega, by rw [old child, childNamed]⟩, p, by omega, by rw [old owner, ownerNamed]⟩
  · intro s p c listed
    rw [Tree.children_push (childless s)] at listed
    rw [Tree.size_push]
    exact Nat.lt_succ_of_lt (drawn.inside listed)
  · intro s c p
    rw [Tree.parent_push (noParent s), drawn.parent]
    constructor
    · rintro ⟨child, owner, e, member, sameChild, sameParent, onSide⟩
      rw [Tree.size_push, old child, old owner]
      exact ⟨by omega, by omega, e, member, sameChild, sameParent, onSide⟩
    · rintro ⟨child, owner, e, member, sameChild, sameParent, onSide⟩
      have childOld := named child sameChild (drawn.ends e member).1
      have ownerOld := named owner sameParent (drawn.ends e member).2
      rw [old childOld] at sameChild
      rw [old ownerOld] at sameParent
      exact ⟨childOld, ownerOld, e, member, sameChild, sameParent, onSide⟩
  · intro s p inside
    rw [Tree.children_push (childless s)]
    by_cases last : p = t.size
    · have noEdge : es.filter (fun e => e.parent = ((t.push n).node p).id ∧ s ∈ e.role.sides) =
          [] := by
        refine List.filter_eq_nil_iff.mpr fun e member edge => ?_
        have sameParent := (of_decide_eq_true edge).1
        have := named inside sameParent (drawn.ends e member).2
        omega
      rw [noEdge, Tree.children_of_size_le (Nat.le_of_eq last.symm)]
      rfl
    · have ownerOld : p < t.size := by
        rw [Tree.size_push] at inside
        omega
      rw [old ownerOld, ← drawn.children s p ownerOld]
      exact List.map_congr_left fun c listed => by rw [old (drawn.inside listed)]

end Drawn

/-! Lines. -/

theorem NodeFormat.bare_of_read {format : NodeFormat} {id : Nat} {label : List Char} {n : Node}
    (read : format.read id label = .ok n) : n.bare = n ∧ n.id = id := by
  simp only [NodeFormat.read] at read
  split at read
  · cases read
  · cases format with
    | typeOnly =>
        obtain rfl := Except.ok.inj read
        exact ⟨rfl, rfl⟩
    | labeled =>
        simp only at read
        split at read
        · cases read
        · obtain rfl := Except.ok.inj read
          exact ⟨rfl, rfl⟩

theorem lookUp_ok {n i : Nat} {text : List Char} (found : lookUp n t text = .ok i) :
    ∃ id, Text.readDecimal? text = some id ∧ t.findId? id = some i := by
  unfold lookUp readId at found
  cases number : Text.readDecimal? text with
  | none => simp [number] at found
  | some id =>
      simp only [number] at found
      cases place : t.findId? id with
      | none => simp [place] at found
      | some j =>
          obtain rfl : j = i := by simpa [place] using found
          exact ⟨id, rfl, place⟩

/-- A node line that is read adds the node that it stands for, under an id that is new. -/
theorem exists_push_of_readNode {format : NodeFormat} {n : Nat} {rest : List Char}
    (read : readNode format n rest t = .ok u) :
    ∃ x, format.ofText? rest = some x ∧ t.findId? x.id = none ∧ x.bare = x ∧ u = t.push x := by
  unfold readNode at read
  unfold NodeFormat.ofText?
  generalize (Text.cut? [' '] rest).getD (rest, []) = parts at read ⊢
  obtain ⟨idText, label⟩ := parts
  simp only [readId] at read ⊢
  cases number : Text.readDecimal? idText with
  | none => simp [number] at read
  | some id =>
      simp only [number] at read
      split at read
      · cases read
      · next unused =>
        split at read
        · cases read
        · next x decoded =>
          obtain rfl := Except.ok.inj read
          obtain ⟨bare, rfl⟩ := NodeFormat.bare_of_read decoded
          exact ⟨x, by simp [decoded, Except.toOption], by simpa using unused, bare, rfl⟩

theorem words_of_readEdge {n : Nat} {rest : List Char} (read : readEdge n rest t = .ok u) :
    ∃ child parent role, Text.words rest = [child, parent, role] := by
  unfold readEdge at read
  split at read
  · next child parent role words => exact ⟨child, parent, role, words⟩
  · cases read

/-- An edge line that is read links the nodes that it names. -/
theorem exists_edge_of_readEdge {n : Nat} {rest : List Char} (read : readEdge n rest t = .ok u) :
    ∃ e c p, Edge.ofText? rest = some e ∧ (c < t.size ∧ (t.node c).id = e.child) ∧
      (p < t.size ∧ (t.node p).id = e.parent) ∧ linkAll n p c e.role.sides t = .ok u := by
  obtain ⟨childText, parentText, roleText, words⟩ := words_of_readEdge read
  simp only [readEdge, words] at read
  split at read
  · cases read
  · next c child =>
    split at read
    · cases read
    · next p parent =>
      split at read
      · cases read
      · next role token =>
        obtain ⟨childId, childRead, childFound⟩ := lookUp_ok child
        obtain ⟨parentId, parentRead, parentFound⟩ := lookUp_ok parent
        refine ⟨⟨childId, parentId, role⟩, c, p, ?_, Tree.findId?_eq_some childFound,
          Tree.findId?_eq_some parentFound, read⟩
        simp [Edge.ofText?, words, childRead, parentRead, token]

namespace Passage

variable (passage : Passage) (l : List Char)

theorem nodeTexts_extend :
    (passage.extend [l]).nodeTexts = passage.nodeTexts ++ (Line.ofText l).nodeText?.toList := by
  rw [nodeTexts, extend, List.filterMap_append, ← nodeTexts]
  cases text : (Line.ofText l).nodeText? <;> simp [text]

theorem edgeTexts_extend :
    (passage.extend [l]).edgeTexts = passage.edgeTexts ++ (Line.ofText l).edgeText?.toList := by
  rw [edgeTexts, extend, List.filterMap_append, ← edgeTexts]
  cases text : (Line.ofText l).edgeText? <;> simp [text]

end Passage

namespace Transcribes

variable {options : Options} {passage : Passage} {l : List Char}

/-- A header opens a passage without lines and a tree without nodes. -/
theorem start (label : List Char) :
    Transcribes options ⟨label, []⟩ (.empty options.shape (readSource label)) where
  shape := rfl
  source := rfl
  nodes := rfl
  ids := List.nodup_nil
  edges := by
    refine ⟨[], rfl, ⟨by simp, fun {s p c} listed => ?_, fun s c p => ?_, fun s p inside => ?_⟩⟩
    · rw [Tree.children_of_size_le (Nat.zero_le p)] at listed
      cases listed
    · rw [Tree.parent_of_size_le (Nat.zero_le c)]
      simp
    · cases inside

variable (transcribes : Transcribes options passage t)
include transcribes

theorem blank (line : Line.ofText l = .blank) : Transcribes options (passage.extend [l]) t where
  shape := transcribes.shape
  source := transcribes.source
  nodes := by
    rw [Passage.nodeTexts_extend, line]
    simpa [Line.nodeText?] using transcribes.nodes
  ids := transcribes.ids
  edges := by
    rw [Passage.edgeTexts_extend, line]
    simpa [Line.edgeText?] using transcribes.edges

theorem node {n : Nat} {rest : List Char} (line : Line.ofText l = .node rest)
    (read : readNode options.nodes n rest t = .ok u) :
    Transcribes options (passage.extend [l]) u := by
  obtain ⟨x, text, missing, bare, rfl⟩ := exists_push_of_readNode read
  have unused : x.id ∉ t.nodes.toList.map (·.id) := Tree.findId?_eq_none_iff.mp missing
  constructor
  · exact transcribes.shape
  · exact transcribes.source
  · rw [Passage.nodeTexts_extend, line, List.map_append, transcribes.nodes]
    simp [Line.nodeText?, text, bare]
  · rw [Tree.nodes_push, List.map_append]
    exact transcribes.ids.append (List.nodup_singleton x.id) (List.disjoint_singleton.mpr unused)
  · obtain ⟨es, texts, drawn⟩ := transcribes.edges
    refine ⟨es, ?_, drawn.push bare unused⟩
    rw [Passage.edgeTexts_extend, line]
    simpa [Line.edgeText?] using texts

theorem edge {n : Nat} {rest : List Char} (line : Line.ofText l = .edge rest)
    (read : readEdge n rest t = .ok u) : Transcribes options (passage.extend [l]) u := by
  obtain ⟨e, c, p, text, ⟨child, named⟩, ⟨owner, ownerNamed⟩, linked⟩ :=
    exists_edge_of_readEdge read
  have grafted := grafted_of_linkAll owner child linked
  constructor
  · rw [grafted.shape, transcribes.shape]
  · exact grafted.source.trans transcribes.source
  · rw [Passage.nodeTexts_extend, line, grafted.map_nodes]
    simpa [Line.nodeText?] using transcribes.nodes
  · have same := grafted.map_nodes (·.id)
    simp only [Node.bare_id] at same
    rw [same]
    exact transcribes.ids
  · obtain ⟨es, texts, drawn⟩ := transcribes.edges
    refine ⟨es ++ [e], ?_, grafted.drawn drawn transcribes.ids child named owner ownerNamed rfl⟩
    rw [Passage.edgeTexts_extend, line]
    simp [Line.edgeText?, texts, text]

end Transcribes

end Variability.LineGraph
