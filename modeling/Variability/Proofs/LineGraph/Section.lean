import Variability.LineGraph.Reader
import Variability.Proofs.LineGraph.Label
import Variability.Proofs.Tree.Arrangement

/-!
Reading the lines of one section. The header opens a tree without nodes, every node line adds the
node it was written for, and the edge lines of a node give it the parents that it had; so when the
lines are over, the tree has all nodes and all links again, and children stand in the order of the
edge lines, which is that of the array.
-/

namespace Variability

namespace Tree

theorem foldl_push (t : Tree) (ns : List Node) :
    ns.foldl push t = { t with nodes := t.nodes ++ ns.toArray } := by
  induction ns generalizing t with
  | nil => simp
  | cons n ns ih => simp [ih, push]

end Tree

namespace LineGraph

open Text (dropReturn)

variable {options : Options}

/-- Reads lines of which the first has number `n`. -/
def readFrom (options : Options) (n : Nat) (p : Progress) (ls : List (List Char)) :
    Except DecodeError Progress :=
  (ls.zipIdx n).foldlM (fun p (text, n) => readLine options p n text) p

@[simp] theorem readFrom_nil (n : Nat) (p : Progress) : readFrom options n p [] = .ok p := rfl

theorem readFrom_cons {n : Nat} {p q : Progress} {l : List Char}
    (first : readLine options p n l = .ok q) (ls : List (List Char)) :
    readFrom options n p (l :: ls) = readFrom options (n + 1) q ls := by
  rw [readFrom, List.zipIdx_cons, List.foldlM_cons]
  simp only [first]
  rfl

theorem readFrom_append {n : Nat} {p q : Progress} {ls : List (List Char)}
    (first : readFrom options n p ls = .ok q) (ms : List (List Char)) :
    readFrom options n p (ls ++ ms) = readFrom options (n + ls.length) q ms := by
  rw [readFrom] at first
  rw [readFrom, List.zipIdx_append, List.foldlM_append, first]
  rfl

/-! The kinds of lines. -/

theorem ofText_header (label : List Char) :
    Line.ofText (headerMark ++ ' ' :: label) = .header label := by
  rw [Line.ofText, Text.after?_append]
  rfl

theorem ofText_node (rest : List Char) : Line.ofText (nodeMark ++ rest) = .node rest := by
  have noHeader : Text.after? headerMark (nodeMark ++ rest) = none := rfl
  rw [Line.ofText, noHeader, Text.after?_append]

theorem ofText_edge (rest : List Char) : Line.ofText (edgeMark ++ rest) = .edge rest := by
  have noHeader : Text.after? headerMark (edgeMark ++ rest) = none := rfl
  have noNode : Text.after? nodeMark (edgeMark ++ rest) = none := rfl
  rw [Line.ofText, noHeader, noNode, Text.after?_append]

theorem dropReturn_headerLine (t : Tree) :
    dropReturn (headerLine t) = headerMark ++ ' ' :: dropReturn (printSource t.source) := by
  have written : printSource t.source ≠ [] := by simp [printSource, sourceMark]
  rw [headerLine, List.append_cons, Text.dropReturn_append _ written, ← List.append_cons]

theorem dropReturn_nodeLine (format : NodeFormat) (n : Node) :
    dropReturn (nodeLine format n) =
      nodeMark ++ (Text.decimal n.id ++ ' ' :: dropReturn (format.print n)) := by
  rw [nodeLine, List.append_cons, Text.dropReturn_append _ (format.print_ne_nil n)]
  simp

theorem dropReturn_edgeLine (child parent : Nat) (role : Role) :
    dropReturn (edgeLine child parent role) = edgeLine child parent role := by
  have last : role.token.toList.getLast? ≠ some '\r' := by
    rcases role with _ | (_ | _) <;> decide
  have written : role.token.toList ≠ [] := by
    rcases role with _ | (_ | _) <;> decide
  rw [edgeLine, List.append_cons, Text.dropReturn_append _ written,
    Text.dropReturn_eq_self_iff.mpr last]

theorem readLine_header (t : Tree) {p : Progress} {done : List Tree}
    (closes : close p.current = .ok done) (n : Nat) :
    readLine options p n (dropReturn (headerLine t)) =
      .ok ⟨done ++ p.complete,
        some ⟨n, .empty options.shape (readSource (dropReturn (printSource t.source)))⟩⟩ := by
  rw [dropReturn_headerLine, readLine, ofText_header]
  simp only [closes]
  rfl

theorem readLine_node {x : Node} (readable : options.nodes.Readable x)
    (word : x.id < Text.wordLimit) {t : Tree} (unused : x.id ∉ t.nodes.toList.map (·.id))
    (done : List Tree) (m n : Nat) :
    readLine options ⟨done, some ⟨m, t⟩⟩ n (dropReturn (nodeLine options.nodes x)) =
      .ok ⟨done, some ⟨m, t.push (options.nodes.reread x).bare⟩⟩ := by
  have cut : Text.cut? [' '] (Text.decimal x.id ++ ' ' :: dropReturn (options.nodes.print x)) =
      some (Text.decimal x.id, dropReturn (options.nodes.print x)) := by
    have absent : ' ' ∉ Text.decimal x.id := Text.not_mem_decimal (by decide)
    have cut := Text.cut?_append absent [] (dropReturn (options.nodes.print x))
    rwa [List.append_assoc] at cut
  have id : readId n (Text.decimal x.id) = .ok x.id := by
    rw [readId, Text.readDecimal?_decimal word]
  have node := NodeFormat.read_print readable
  rw [dropReturn_nodeLine, readLine, ofText_node]
  simp only [extend, readNode, cut, Option.getD_some, id, Tree.findId?_eq_none_iff.mpr unused, node]
  rfl

theorem readLine_blank (p : Progress) (n : Nat) : readLine options p n [] = .ok p := rfl

theorem readFrom_nodes {ns : List Node} (readable : ∀ x ∈ ns, options.nodes.Readable x)
    (words : ∀ x ∈ ns, x.id < Text.wordLimit) {t : Tree}
    (distinct : ((t.nodes.toList ++ ns).map (·.id)).Nodup) (done : List Tree) (m n : Nat) :
    readFrom options n ⟨done, some ⟨m, t⟩⟩
        (ns.map fun x => dropReturn (nodeLine options.nodes x)) =
      .ok ⟨done, some ⟨m, (ns.map fun x => (options.nodes.reread x).bare).foldl Tree.push t⟩⟩ := by
  induction ns generalizing t n with
  | nil => rfl
  | cons x ns ih =>
      have unused : x.id ∉ t.nodes.toList.map (·.id) := by
        rw [List.map_append, List.nodup_append] at distinct
        intro member
        exact distinct.2.2 _ member x.id (by simp) rfl
      rw [List.map_cons, readFrom_cons (readLine_node (readable x (by simp)) (words x (by simp))
        unused done m n)]
      apply ih (fun y member => readable y (by simp [member]))
        (fun y member => words y (by simp [member]))
      rw [Tree.nodes_push, List.append_assoc, List.singleton_append]
      simpa only [List.map_append, List.map_cons, Node.bare_id, NodeFormat.id_reread] using
        distinct

/-- How far the links of a tree are read: on each side, those to the parents of the nodes that
stand before some position. -/
structure Joined (u : Tree) (behind : Side → Nat) (t : Tree) : Prop where
  size : t.size = u.size
  shape : t.shape = u.shape
  source : t.source = u.source
  bare : ∀ i, (t.node i).bare = (u.node i).bare
  parent : ∀ s i, t.parent s i = if i < behind s then u.parent s i else none
  children : ∀ s p, t.children s p = (List.range (behind s)).filter (u.parent s · = some p)

namespace Joined

theorem start (u : Tree) : Joined u (fun _ => 0) (u.mapNodes Node.bare) where
  size := Tree.size_mapNodes _ u
  shape := rfl
  source := rfl
  bare := by
    intro i
    rcases Nat.lt_or_ge i u.size with inside | outside
    · rw [Tree.node_mapNodes_of_lt inside]
      rfl
    · rw [Tree.node_of_size_le outside,
        Tree.node_of_size_le (by rwa [Tree.size_mapNodes])]
  parent := by
    intro s i
    rcases Nat.lt_or_ge i u.size with inside | outside
    · rw [Tree.parent, Tree.node_mapNodes_of_lt inside]
      cases s <;> rfl
    · exact Tree.parent_of_size_le (by rwa [Tree.size_mapNodes]) s
  children := by
    intro s p
    rcases Nat.lt_or_ge p u.size with inside | outside
    · rw [Tree.children, Tree.node_mapNodes_of_lt inside]
      cases s <;> rfl
    · exact Tree.children_of_size_le (by rwa [Tree.size_mapNodes]) s

variable {u t : Tree} {behind : Side → Nat}

/-- A node without a parent on a side has no link to be read. -/
theorem skip {further : Side → Nat} (joined : Joined u behind t)
    (unlinked : ∀ s, further s = behind s ∨
      further s = behind s + 1 ∧ u.parent s (behind s) = none) :
    Joined u further t where
  size := joined.size
  shape := joined.shape
  source := joined.source
  bare := joined.bare
  parent := by
    intro s i
    rw [joined.parent]
    rcases unlinked s with same | ⟨next, none⟩
    · rw [same]
    · by_cases here : i = behind s
      · subst here
        simp [next, none]
      · have same : i < further s ↔ i < behind s := by omega
        simp only [same]
  children := by
    intro s p
    rw [joined.children]
    rcases unlinked s with same | ⟨next, none⟩
    · rw [same]
    · rw [next, List.range_succ, List.filter_append]
      simp [none]

theorem link (joined : Joined u behind t) (linking : u.WellLinked) {s : Side} {p : Nat}
    (linked : u.parent s (behind s) = some p) :
    ∃ t', t.link s p (behind s) = .ok t' ∧
      Joined u (fun d => if d = s then behind s + 1 else behind d) t' := by
  obtain ⟨present, noRoot, ownerPresent, owns⟩ := linking.owned linked
  have inside : behind s < t.size := by
    rw [joined.size]
    exact Tree.lt_size_of_parent linked
  have ownerInside : p < t.size := by
    rw [joined.size]
    exact linking.parent_lt linked
  have sameKind (i : Nat) : (t.node i).kind = (u.node i).kind := by
    rw [← Node.bare_kind, joined.bare, Node.bare_kind]
  have unflawed : t.edgeFlaw? s p (behind s) = none := by
    rw [Tree.edgeFlaw?_eq_none_iff, Node.existsOn_of_bare_eq (joined.bare _),
      Node.existsOn_of_bare_eq (joined.bare p), sameKind, sameKind, joined.parent]
    exact ⟨present, noRoot, ownerPresent, owns, by simp⟩
  refine ⟨t.addEdge s p (behind s), by rw [Tree.link_eq, unflawed], ?_⟩
  constructor
  · rw [Tree.size_addEdge, joined.size]
  · rw [Tree.shape_addEdge, joined.shape]
  · rw [Tree.source_addEdge, joined.source]
  · intro i
    rw [Tree.bare_addEdge, joined.bare]
  · intro d i
    rw [Tree.parent_addEdge inside, joined.parent]
    by_cases side : d = s
    · subst side
      by_cases here : i = behind d
      · subst here
        simp [linked]
      · have same : i < behind d + 1 ↔ i < behind d := by omega
        simp [here, same]
    · simp [side]
  · intro d q
    rw [Tree.children_addEdge ownerInside, joined.children]
    by_cases side : d = s
    · subst side
      rw [if_pos rfl, List.range_succ, List.filter_append]
      by_cases owner : q = p
      · simp [owner, linked]
      · simp [owner, linked, Ne.symm owner]
    · simp [side]

/-- When all links are read only the order of children can have changed. -/
theorem arranged (links : ∀ s, u.Interlinked s) (joined : Joined u (fun _ => u.size) t) :
    u.Arranged t where
  shape := joined.shape
  size := joined.size
  bare := joined.bare
  parent := by
    intro s i
    rw [joined.parent]
    split
    · rfl
    · next outside => exact (Tree.parent_of_size_le (by omega) s).symm
  children := by
    intro s p
    rw [joined.children]
    refine (List.perm_ext_iff_of_nodup (List.nodup_range.filter _) ((links s).once p)).mpr ?_
    intro c
    rw [List.mem_filter, List.mem_range, decide_eq_true_eq, (links s).inverse]
    exact ⟨And.right, fun linked => ⟨Tree.lt_size_of_parent linked, linked⟩⟩
  ordered := by
    intro s p
    rw [joined.children]
    exact List.pairwise_lt_range.filter _

theorem linkAll (linking : u.WellLinked) {i p : Nat} {sides : List Side} (distinct : sides.Nodup)
    (here : ∀ s ∈ sides, behind s = i ∧ u.parent s i = some p) (joined : Joined u behind t)
    (n : Nat) :
    ∃ t', LineGraph.linkAll n p i sides t = .ok t' ∧
      Joined u (fun s => if s ∈ sides then i + 1 else behind s) t' := by
  induction sides generalizing behind t with
  | nil => exact ⟨t, rfl, by simpa using joined⟩
  | cons s sides ih =>
      obtain ⟨rfl, linked⟩ := here s (by simp)
      rw [List.nodup_cons] at distinct
      obtain ⟨t', link, further⟩ := joined.link linking linked
      have rest : ∀ d ∈ sides,
          (if d = s then behind s + 1 else behind d) = behind s ∧
            u.parent d (behind s) = some p := by
        intro d member
        have other : d ≠ s := by
          rintro rfl
          exact distinct.1 member
        rw [if_neg other]
        exact here d (by simp [member])
      obtain ⟨t'', links, all⟩ := ih distinct.2 rest further
      refine ⟨t'', by rw [LineGraph.linkAll, link]; exact links, ?_⟩
      convert all using 2 with d
      by_cases side : d = s
      · simp [side]
      · simp [side]

theorem lookUp (linking : u.WellLinked) (joined : Joined u behind t) {i : Nat}
    (inside : i < u.size) (word : (u.node i).id < Text.wordLimit) (n : Nat) :
    LineGraph.lookUp n t (Text.decimal (u.node i).id) = .ok i := by
  have sameId : (t.node i).id = (u.node i).id := by
    rw [← Node.bare_id, joined.bare, Node.bare_id]
  have sameIds : t.nodes.toList.map (·.id) = u.nodes.toList.map (·.id) := by
    rw [Tree.nodes_toList, Tree.nodes_toList, List.map_map, List.map_map, joined.size]
    apply List.map_congr_left
    intro j _
    rw [Function.comp_apply, Function.comp_apply, ← Node.bare_id, joined.bare, Node.bare_id]
  have found : t.findId? (u.node i).id = some i := by
    rw [← sameId]
    exact Tree.findId?_id (by rw [sameIds]; exact linking.ids) (by rwa [joined.size])
  rw [LineGraph.lookUp, readId, Text.readDecimal?_decimal word]
  simp only [found]

end Joined

theorem words_edgeLine (child parent : Nat) (role : Role) :
    Text.words (Text.decimal child ++ ' ' :: Text.decimal parent ++ ' ' :: role.token.toList) =
      [Text.decimal child, Text.decimal parent, role.token.toList] := by
  have solid : Text.Solid role.token.toList := by
    rcases role with _ | (_ | _) <;> decide
  rw [List.append_assoc, List.cons_append, (Text.solid_decimal child).words_append (by decide),
    (Text.solid_decimal parent).words_append (by decide), solid.words]

theorem Role.nodup_sides (role : Role) : role.sides.Nodup := by
  rcases role with _ | (_ | _) <;> decide

theorem exists_edgeLine_of_mem {t : Tree} {n : Node} {l : List Char} (line : l ∈ edgeLines t n) :
    ∃ child parent role, l = edgeLine child parent role := by
  unfold edgeLines at line
  split at line
  · cases line
  · exact ⟨_, _, _, List.mem_singleton.mp line⟩
  · exact ⟨_, _, _, List.mem_singleton.mp line⟩
  · split at line
    · exact ⟨_, _, _, List.mem_singleton.mp line⟩
    · rcases List.mem_pair.mp line with rfl | rfl
      · exact ⟨_, _, _, rfl⟩
      · exact ⟨_, _, _, rfl⟩

theorem map_dropReturn_edgeLines (t : Tree) (n : Node) :
    (edgeLines t n).map dropReturn = edgeLines t n := by
  refine (List.map_congr_left fun l line => ?_).trans (List.map_id _)
  obtain ⟨child, parent, role, rfl⟩ := exists_edgeLine_of_mem line
  exact dropReturn_edgeLine child parent role

theorem newline_not_mem_edgeLine (child parent : Nat) (role : Role) :
    '\n' ∉ edgeLine child parent role := by
  have absent (n : Nat) : '\n' ∉ Text.decimal n := Text.not_mem_decimal (by decide)
  have token : '\n' ∉ role.token.toList := by
    rcases role with _ | (_ | _) <;> decide
  simp [edgeLine, edgeMark, absent, token]

namespace Joined

variable {u t : Tree} (linking : u.WellLinked)
  (words : ∀ i < u.size, (u.node i).id < Text.wordLimit)
include linking words

/-- An edge line links a node on the sides of its role. -/
theorem readFrom_edgeLine {behind : Side → Nat} (joined : Joined u behind t) {i p : Nat}
    (inside : i < u.size) (ownerInside : p < u.size) (role : Role)
    (here : ∀ s ∈ role.sides, behind s = i ∧ u.parent s i = some p) (done : List Tree)
    (m n : Nat) :
    ∃ t', readFrom options n ⟨done, some ⟨m, t⟩⟩ [edgeLine (u.node i).id (u.node p).id role] =
        .ok ⟨done, some ⟨m, t'⟩⟩ ∧
      Joined u (fun s => if s ∈ role.sides then i + 1 else behind s) t' := by
  obtain ⟨t', links, further⟩ := joined.linkAll linking role.nodup_sides here n
  refine ⟨t', ?_, further⟩
  have child := joined.lookUp linking inside (words i inside) n
  have parent := joined.lookUp linking ownerInside (words p ownerInside) n
  have read : readLine options ⟨done, some ⟨m, t⟩⟩ n
      (edgeLine (u.node i).id (u.node p).id role) = .ok ⟨done, some ⟨m, t'⟩⟩ := by
    rw [readLine, edgeLine, List.append_assoc, List.append_assoc, ofText_edge,
      ← List.append_assoc]
    simp only [extend, readEdge, words_edgeLine, child, parent, String.ofList_toList,
      Role.ofToken?_token, links]
    rfl
  rw [readFrom_cons read, readFrom_nil]

/-- The edge lines of a node give it all its parents. -/
theorem readFrom_edgeLines {i : Nat} (inside : i < u.size) (joined : Joined u (fun _ => i) t)
    (done : List Tree) (m n : Nat) :
    ∃ t', readFrom options n ⟨done, some ⟨m, t⟩⟩ (edgeLines u (u.node i)) =
        .ok ⟨done, some ⟨m, t'⟩⟩ ∧ Joined u (fun _ => i + 1) t' := by
  have ownerInside {s : Side} {p : Nat} (linked : u.parent s i = some p) : p < u.size :=
    linking.parent_lt linked
  unfold edgeLines
  rw [parentId, parentId, ← Tree.parent, ← Tree.parent]
  cases before : u.parent .before i with
  | none =>
      cases after : u.parent .after i with
      | none =>
          refine ⟨t, rfl, joined.skip ?_⟩
          rintro (_ | _)
          · exact .inr ⟨rfl, before⟩
          · exact .inr ⟨rfl, after⟩
      | some a =>
          obtain ⟨t', read, further⟩ := joined.readFrom_edgeLine linking words inside
            (ownerInside after) (.only .after) (by simp [Role.sides, after]) done m n
          refine ⟨t', read, further.skip ?_⟩
          rintro (_ | _)
          · exact .inr ⟨rfl, before⟩
          · exact .inl rfl
  | some b =>
      cases after : u.parent .after i with
      | none =>
          obtain ⟨t', read, further⟩ := joined.readFrom_edgeLine linking words inside
            (ownerInside before) (.only .before) (by simp [Role.sides, before]) done m n
          refine ⟨t', read, further.skip ?_⟩
          rintro (_ | _)
          · exact .inl rfl
          · exact .inr ⟨rfl, after⟩
      | some a =>
          simp only [Option.map_some]
          split
          · next sameId =>
            obtain rfl := Tree.eq_of_id_eq linking.ids (ownerInside after) (ownerInside before)
              sameId
            obtain ⟨t', read, further⟩ := joined.readFrom_edgeLine linking words inside
              (ownerInside after) .both (by rintro (_ | _) _ <;> simp [before, after]) done m n
            refine ⟨t', read, further.skip ?_⟩
            rintro (_ | _) <;> exact .inl rfl
          · obtain ⟨t', read, further⟩ := joined.readFrom_edgeLine linking words inside
              (ownerInside before) (.only .before) (by simp [Role.sides, before]) done m n
            obtain ⟨t'', readToo, all⟩ := further.readFrom_edgeLine linking words inside
              (ownerInside after) (.only .after) (by simp [Role.sides, after]) done m (n + 1)
            refine ⟨t'', ?_, all.skip ?_⟩
            · rw [← List.singleton_append, readFrom_append read]
              exact readToo
            · rintro (_ | _) <;> exact .inl rfl

theorem readFrom_allEdgeLines (joined : Joined u (fun _ => 0) t) {k : Nat} (part : k ≤ u.size)
    (done : List Tree) (m n : Nat) :
    ∃ t', readFrom options n ⟨done, some ⟨m, t⟩⟩
        ((List.range k).flatMap fun i => edgeLines u (u.node i)) = .ok ⟨done, some ⟨m, t'⟩⟩ ∧
      Joined u (fun _ => k) t' := by
  induction k with
  | zero => exact ⟨t, rfl, joined⟩
  | succ k ih =>
      obtain ⟨t', read, further⟩ := ih (Nat.le_of_succ_le part)
      obtain ⟨t'', last, all⟩ := further.readFrom_edgeLines linking words
        (Nat.lt_of_succ_le part) done m _
      refine ⟨t'', ?_, all⟩
      rw [List.range_succ, List.flatMap_append, readFrom_append read, List.flatMap_singleton]
      exact last

end Joined

end LineGraph

end Variability
