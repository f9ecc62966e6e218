import Variability.Proofs.Patch.Overlay

/-!
When an entry gets its place. What a side allows depends on the kinds of its open branches alone:
a further branch needs an open `if` or `elif`, an `endif` any open branch. Entries are placed
exactly when every side on which they exist allows them, and linking them never fails.
-/

namespace Variability.Patch

/-- The kinds of the open branches, innermost first, once a node was added; there are none when
the node may not stand there. -/
def advance (scopes : List NodeKind) (kind : NodeKind) : Option (List NodeKind) :=
  match kind with
  | .ifBranch => some (.ifBranch :: scopes)
  | .elifBranch | .elseBranch =>
    match scopes with
    | .ifBranch :: rest | .elifBranch :: rest => some (kind :: rest)
    | _ => none
  | .endif =>
    match scopes with
    | [] => none
    | _ :: rest => some rest
  | .code => some scopes
  | .root => none

/-- The kinds of the open branches of a side behind some entries, when the side allows them. -/
def scopes? (s : Side) (es : List Entry) : Option (List NodeKind) :=
  ((sideLines s es).map (·.1.kind)).foldlM advance []

theorem scopes?_append (s : Side) (es : List Entry) (e : Entry) :
    scopes? s (es ++ [e]) =
      if e.edit.existsOn s then (scopes? s es).bind (advance · e.kind) else scopes? s es := by
  rw [scopes?, sideLines_append, List.map_append, List.foldlM_append, scopes?]
  split
  · simp only [List.map_cons, List.map_nil, List.foldlM_cons, List.foldlM_nil]
    cases List.foldlM advance [] ((sideLines s es).map (·.1.kind)) with
    | none => rfl
    | some scopes => exact bind_pure (advance scopes e.kind)
  · exact bind_pure _

theorem isSome_scopes?_of_append {s : Side} {es rest : List Entry}
    (allowed : (scopes? s (es ++ rest)).isSome) : (scopes? s es).isSome := by
  induction rest using List.reverseRecOn with
  | nil => simpa using allowed
  | append_singleton rest e ih =>
      rw [← List.append_assoc, scopes?_append] at allowed
      split at allowed
      · exact ih (Option.isSome_of_isSome_bind allowed)
      · exact ih allowed

theorem Overlays.kind_entry {t : Tree} {es : List Entry} (overlays : Overlays t es) {k : Nat}
    {e : Entry} (lookup : es[k]? = some e) : (t.node (k + 1)).kind = e.kind := by
  rw [← Node.bare_kind, overlays.entry lookup]
  rfl

theorem Overlays.kind_root {t : Tree} {es : List Entry} (overlays : Overlays t es) :
    (t.node 0).kind = .root := by
  rw [← Node.bare_kind, overlays.root]
  rfl

theorem Overlays.existsOn_entry {t : Tree} {es : List Entry} (overlays : Overlays t es) {k : Nat}
    {e : Entry} (lookup : es[k]? = some e) (s : Side) :
    (t.node (k + 1)).existsOn s = (e.kind = .root || e.edit.existsOn s) := by
  rw [Node.existsOn_of_bare_eq (n := Nesting.node e (k + 1)) (overlays.entry lookup) s]
  rfl

theorem Overlays.split {t : Tree} {es : List Entry} (overlays : Overlays t es) (k : Nat) :
    Overlays t (es.take k ++ es.drop k) := by
  rwa [List.take_append_drop]

theorem Overlays.owner {t : Tree} {es rest : List Entry} (overlays : Overlays t (es ++ rest))
    {s : Side} {b : Nat} (owner : b = 0 ∨ b ∈ openBranches s es) :
    (t.node b).existsOn s ∧ (t.node b).kind.isScope := by
  rcases owner with rfl | opened
  · simp [Node.existsOn, overlays.kind_root, NodeKind.isScope]
  · obtain ⟨k, e, rfl, lookup, present, scope⟩ := exists_entry_of_mem_openBranches opened
    have found : (es ++ rest)[k]? = some e := by
      rw [List.getElem?_append_left (List.getElem?_eq_some_iff.mp lookup).1, lookup]
    rw [overlays.existsOn_entry found, overlays.kind_entry found]
    exact ⟨by simp [present], scope⟩

theorem Overlays.kinds_openBranches {t : Tree} {es rest : List Entry} {s : Side}
    (overlays : Overlays t (es ++ rest)) {scopes : List NodeKind}
    (allowed : scopes? s es = some scopes) :
    (openBranches s es).map (fun b => (t.node b).kind) = scopes := by
  induction es using List.reverseRecOn generalizing rest scopes with
  | nil =>
      cases allowed
      rfl
  | append_singleton es e ih =>
      rw [List.append_assoc] at overlays
      have kind : (t.node (es.length + 1)).kind = e.kind := overlays.kind_entry (by simp)
      rw [scopes?_append] at allowed
      rw [openBranches_append]
      split at allowed
      · next present =>
          obtain ⟨before, hBefore, advanced⟩ := Option.bind_eq_some_iff.mp allowed
          have kinds := ih overlays hBefore
          rw [if_pos present]
          unfold Entry.behind Entry.around
          unfold advance at advanced
          cases entryKind : e.kind <;> simp only [entryKind] at advanced kind ⊢
          case root => simp at advanced
          case code =>
              cases advanced
              exact kinds
          case ifBranch =>
              cases advanced
              rw [List.map_cons, kinds, kind]
          case endif =>
              split at advanced
              · simp at advanced
              · cases advanced
                rw [List.map_tail, kinds, List.tail_cons]
          all_goals
            split at advanced
            · cases advanced
              rw [List.map_cons, List.map_tail, kinds, kind, List.tail_cons]
            · cases advanced
              rw [List.map_cons, List.map_tail, kinds, kind, List.tail_cons]
            · simp at advanced
      · next absent =>
          rw [if_neg absent]
          exact ih overlays allowed

namespace Nesting

def scopes (s : Nesting) (side : Side) : List NodeKind :=
  (s.branches side).map fun b => (s.tree.node b).kind

theorem Built.scopes_eq {s : Nesting} {es : List Entry} (built : Built s es) {d : Side}
    {scopes : List NodeKind} (allowed : scopes? d es = some scopes) : s.scopes d = scopes := by
  have overlays : Overlays s.tree (es ++ []) := by rw [List.append_nil]; exact built.tree
  rw [Nesting.scopes, built.branches, overlays.kinds_openBranches allowed]

private theorem exists_foldlM_sides_iff {σ ε : Type} {f : σ → Side → Except ε σ}
    {allows : Side → Prop} {s : σ} (edit : Edit)
    (here : ∀ d, (∃ s', f s d = .ok s') ↔ allows d)
    (after : ∀ {s'}, f s .before = .ok s' → ((∃ s'', f s' .after = .ok s'') ↔ allows .after)) :
    (∃ s', edit.sides.foldlM f s = .ok s') ↔ ∀ d, edit.existsOn d → allows d := by
  cases edit with
  | added =>
      rw [Edit.sides_added, List.foldlM_cons]
      simp only [List.foldlM_nil, bind_pure, here .after]
      exact ⟨fun allowed d present => by cases d <;> simp_all [Edit.existsOn],
        fun allowed => allowed .after rfl⟩
  | removed =>
      rw [Edit.sides_removed, List.foldlM_cons]
      simp only [List.foldlM_nil, bind_pure, here .before]
      exact ⟨fun allowed d present => by cases d <;> simp_all [Edit.existsOn],
        fun allowed => allowed .before rfl⟩
  | kept =>
      rw [Edit.sides_kept, List.foldlM_cons]
      cases first : f s .before with
      | error err =>
          have refused : ¬ allows .before := by
            rw [← here, first]
            simp
          simp only [bind, Except.bind]
          exact ⟨by simp, fun allowed => absurd (allowed .before rfl) refused⟩
      | ok next =>
          have allowed : allows .before := (here .before).mp ⟨next, first⟩
          change (∃ s', List.foldlM f next [.after] = .ok s') ↔ _
          rw [List.foldlM_cons]
          simp only [List.foldlM_nil, bind_pure, after first]
          exact ⟨fun other d _ => by cases d <;> assumption, fun both => both .after rfl⟩

theorem exists_endBranch_iff {e : Entry} {s : Nesting} (rooted : (s.tree.node 0).kind = .root)
    (further : e.kind = .elifBranch ∨ e.kind = .elseBranch) (d : Side) :
    (∃ s', endBranch e s d = .ok s') ↔ (advance (s.scopes d) e.kind).isSome := by
  unfold endBranch advance scopes top
  rcases further with kind | kind <;> simp only [kind] <;>
    cases opened : s.branches d with
    | nil => simp [rooted]
    | cons b rest => cases top : (s.tree.node b).kind <;> simp [top]

theorem exists_expectBranch_iff {e : Entry} {s : Nesting} (closing : e.kind = .endif) (d : Side) :
    (∃ s', expectBranch e s d = .ok s') ↔ (advance (s.scopes d) e.kind).isSome := by
  unfold expectBranch advance scopes
  cases opened : s.branches d <;> simp [closing]

theorem exists_prepare_iff {e : Entry} {s : Nesting} (rooted : (s.tree.node 0).kind = .root)
    (line : e.kind ≠ .root) :
    (∃ s', s.prepare e = .ok s') ↔
      ∀ d, e.edit.existsOn d → (advance (s.scopes d) e.kind).isSome := by
  have further (kind : e.kind = .elifBranch ∨ e.kind = .elseBranch) :
      (∃ s', e.edit.sides.foldlM (endBranch e) s = .ok s') ↔
        ∀ d, e.edit.existsOn d → (advance (s.scopes d) e.kind).isSome := by
    apply exists_foldlM_sides_iff
    · exact exists_endBranch_iff rooted kind
    · intro s' ended
      cases endBranch_ok ended
      exact exists_endBranch_iff (s := s.closeBranch .before) rooted kind .after
  unfold prepare
  cases kind : e.kind with
  | root => exact absurd kind line
  | ifBranch | code => simp [advance]
  | elifBranch | elseBranch =>
      rw [← kind]
      simpa only [kind] using further (by simp [kind])
  | endif =>
      have closing : (∃ s', e.edit.sides.foldlM (expectBranch e) s = .ok s') ↔
          ∀ d, e.edit.existsOn d → (advance (s.scopes d) e.kind).isSome := by
        apply exists_foldlM_sides_iff
        · exact exists_expectBranch_iff kind
        · intro s' expected
          cases expectBranch_ok expected
          exact exists_expectBranch_iff kind .after
      simpa only [kind] using closing

theorem exists_attach_iff {i : Nat} {s : Nesting} {d : Side} :
    (∃ s', attach i s d = .ok s') ↔ s.tree.edgeFlaw? d (s.top d) i = none := by
  unfold attach
  rw [Tree.link_eq]
  cases s.tree.edgeFlaw? d (s.top d) i <;> simp

theorem exists_foldlM_attach {e : Entry} {i : Nat} {s : Nesting} (inside : i < s.tree.size)
    (line : e.kind ≠ .root) (child : (s.tree.node i).bare = node e i)
    (unlinked : ∀ d, s.tree.parent d i = none)
    (owner : ∀ d, (s.tree.node (s.top d)).existsOn d ∧ (s.tree.node (s.top d)).kind.isScope) :
    ∃ s', e.edit.sides.foldlM (attach i) s = .ok s' := by
  have childKind : (s.tree.node i).kind = e.kind := by
    rw [← Node.bare_kind, child]
    rfl
  have childPresent (d : Side) : (s.tree.node i).existsOn d = e.edit.existsOn d := by
    rw [Node.existsOn_of_bare_eq (n := node e i) child]
    simp [Node.existsOn, node, Node.fresh, line]
  have here (d : Side) : (∃ s', attach i s d = .ok s') ↔ e.edit.existsOn d := by
    rw [exists_attach_iff, Tree.edgeFlaw?_eq_none_iff]
    simp [childKind, childPresent, line, owner, unlinked]
  refine (exists_foldlM_sides_iff e.edit here ?_).mpr fun d present => present
  intro s' linked
  cases attach_ok linked
  rw [exists_attach_iff, Tree.edgeFlaw?_eq_none_iff, ← here .after, exists_attach_iff,
    Tree.edgeFlaw?_eq_none_iff, top_attached]
  have sameBare (j : Nat) : ((attached i s .before).tree.node j).bare = (s.tree.node j).bare :=
    Tree.bare_addEdge _ _ _ _ _
  have sameKind (j : Nat) : ((attached i s .before).tree.node j).kind = (s.tree.node j).kind := by
    rw [← Node.bare_kind, sameBare, Node.bare_kind]
  rw [Node.existsOn_of_bare_eq (sameBare _), Node.existsOn_of_bare_eq (sameBare _), sameKind,
    sameKind]
  simp [attached, Tree.parent_addEdge inside]

theorem Built.exists_place {s prepared : Nesting} {es : List Entry} {e : Entry}
    (built : Built s es) (line : e.kind ≠ .root) (prepareEq : s.prepare e = .ok prepared) :
    ∃ s', s.place e = .ok s' := by
  have sameTree := (prepare_ok prepareEq).1
  have size := built.tree.size
  have newNode : (prepared.push e).tree.node s.tree.size = node e s.tree.size := by
    rw [node_push, sameTree, if_pos rfl]
  have owner (d : Side) : ((prepared.push e).tree.node ((prepared.push e).top d)).existsOn d ∧
      ((prepared.push e).tree.node ((prepared.push e).top d)).kind.isScope := by
    have owns : prepared.top d = 0 ∨ prepared.top d ∈ openBranches d es := by
      rw [top, (prepare_ok prepareEq).2, built.branches]
      split
      · cases around : e.around (openBranches d es) with
        | nil => exact .inl rfl
        | cons b rest =>
            have member : b ∈ e.around (openBranches d es) := by simp [around]
            exact .inr (Entry.mem_of_mem_around member)
      · cases openBranches d es <;> simp
    have old : prepared.top d ≠ s.tree.size := by
      rcases owns with root | opened
      · omega
      · have := le_of_mem_openBranches opened
        omega
    rw [top, branches_push, ← top, node_push, sameTree, if_neg old]
    have overlays : Overlays s.tree (es ++ []) := by rw [List.append_nil]; exact built.tree
    exact overlays.owner owns
  obtain ⟨linked, linkEq⟩ := exists_foldlM_attach (i := s.tree.size) (e := e)
    (by rw [size_push, sameTree]; omega) line (by rw [newNode]; rfl)
    (fun d => by rw [parent_push, sameTree, Tree.parent_of_size_le (Nat.le_refl _)]) owner
  have linkEq' : List.foldlM (attach s.tree.size)
      { prepared with tree := s.tree.push (node e s.tree.size) } e.edit.sides = .ok linked := by
    rw [← linkEq, push, sameTree]
  refine ⟨linked.settle e s.tree.size, ?_⟩
  simp only [Nesting.place, prepareEq, bind, Except.bind, sameTree, linkEq']
  rfl

theorem Built.exists_place_iff {s : Nesting} {es : List Entry} {e : Entry} (built : Built s es)
    (line : e.kind ≠ .root) :
    (∃ s', s.place e = .ok s') ↔
      ∀ d, e.edit.existsOn d → (advance (s.scopes d) e.kind).isSome := by
  rw [← exists_prepare_iff built.tree.kind_root line]
  constructor
  · rintro ⟨s', placed⟩
    obtain ⟨prepared, prepareEq, -⟩ := place_ok placed
    exact ⟨prepared, prepareEq⟩
  · rintro ⟨prepared, prepareEq⟩
    exact built.exists_place line prepareEq

theorem Built.exists_foldlM_iff {s : Nesting} {es rest : List Entry} (built : Built s es)
    (lines : ∀ e ∈ rest, e.kind ≠ .root) (allowed : ∀ d, scopes? d es = some (s.scopes d)) :
    (∃ s', rest.foldlM Nesting.place s = .ok s') ↔ ∀ d, (scopes? d (es ++ rest)).isSome := by
  induction rest generalizing s es with
  | nil => simp [allowed, pure, Except.pure]
  | cons e rest ih =>
      have line : e.kind ≠ .root := lines e (by simp)
      have step (d : Side) : scopes? d (es ++ [e]) =
          if e.edit.existsOn d then advance (s.scopes d) e.kind else some (s.scopes d) := by
        rw [scopes?_append, allowed]
        rfl
      rw [List.foldlM_cons, List.append_cons]
      cases first : s.place e with
      | error err =>
          have refused : ¬ ∃ s', s.place e = .ok s' := by simp [first]
          rw [built.exists_place_iff line] at refused
          simp only [bind, Except.bind]
          refine ⟨by simp, fun all => absurd ?_ refused⟩
          intro d present
          have here := isSome_scopes?_of_append (all d)
          rwa [step, if_pos present] at here
      | ok next =>
          have accepted := (built.exists_place_iff line).mp ⟨next, first⟩
          have builtNext := built.place first
          refine ih builtNext (fun f member => lines f (by simp [member])) ?_
          intro d
          have here : (scopes? d (es ++ [e])).isSome := by
            rw [step]
            split
            · next present => exact accepted d present
            · rfl
          obtain ⟨scopes, hScopes⟩ := Option.isSome_iff_exists.mp here
          rw [hScopes, builtNext.scopes_eq hScopes]

theorem exists_foldlM_place_iff (source : Source) {es : List Entry}
    (lines : ∀ e ∈ es, e.kind ≠ .root) :
    (∃ s, es.foldlM Nesting.place (.start source) = .ok s) ↔ ∀ d, (scopes? d es).isSome := by
  refine (Built.start source).exists_foldlM_iff lines ?_
  intro d
  cases d <;> rfl

theorem Built.scopes?_eq {s : Nesting} {source : Source} {es : List Entry}
    (lines : ∀ e ∈ es, e.kind ≠ .root)
    (placed : es.foldlM Nesting.place (.start source) = .ok s) (d : Side) :
    scopes? d es = some (s.scopes d) := by
  have built := (Built.start source).foldlM placed
  have allowed := (exists_foldlM_place_iff source lines).mp ⟨s, placed⟩ d
  obtain ⟨scopes, hScopes⟩ := Option.isSome_iff_exists.mp allowed
  rw [hScopes, Built.scopes_eq built hScopes]

end Nesting

end Variability.Patch
