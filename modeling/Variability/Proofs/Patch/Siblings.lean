import Variability.Proofs.Patch.Conditional
import Variability.Proofs.Patch.Coverage
import Variability.Proofs.Tree.Order

/-!
The tree of an accepted patch as nested conditionals. On each side a walk down meets the nodes in
the order of their lines, and the children of a node are lines of code, conditionals and `endif`s.
The branches of a conditional stand right behind each other, and its `endif` is the last child of
the last of them.
-/

namespace Variability

namespace Tree

/-- What makes some branches a conditional: its `endif` stands last in the last branch, and there
is no other `endif` in any of them. -/
structure IsConditional (t : Tree) (s : Side) (branches : List Nat) : Prop where
  kinds : ∃ elifs, branches.map (fun b => (t.node b).kind) =
      .ifBranch :: List.replicate elifs .elifBranch ∨
    branches.map (fun b => (t.node b).kind) =
      .ifBranch :: List.replicate elifs .elifBranch ++ [.elseBranch]
  closed : ∃ b e, branches.getLast? = some b ∧ (t.children s b).getLast? = some e ∧
    (t.node e).kind = .endif ∧
    ∀ c ∈ branches, ∀ f ∈ t.children s c, (t.node f).kind = .endif → c = b ∧ f = e

/-- Lines of code, `endif`s and conditionals in a row. Only branches have children. -/
inductive Siblings (t : Tree) (s : Side) : List Nat → Prop where
  | nil : Siblings t s []
  | line {i : Nat} {rest : List Nat} :
    ((t.node i).kind = .code ∨ (t.node i).kind = .endif) → t.children s i = [] →
    Siblings t s rest → Siblings t s (i :: rest)
  | conditional {branches rest : List Nat} :
    t.IsConditional s branches → Siblings t s rest → Siblings t s (branches ++ rest)

variable {t : Tree} {s : Side}

theorem siblingsBehind_of_split {p j : Nat} {earlier later : List Nat}
    (linked : t.parent s j = some p) (split : t.children s p = earlier ++ j :: later)
    (once : (t.children s p).Nodup) : t.siblingsBehind s j = later := by
  rw [split, List.nodup_append] at once
  have other : ∀ i ∈ earlier, i ≠ j := fun i member => once.2.2 i member j List.mem_cons_self
  rw [siblingsBehind, linked, Option.elim_some, split, List.dropWhile_append_of_pos,
    List.dropWhile_cons_of_neg (by simp), List.tail_cons]
  simpa using other

end Tree

namespace Patch

namespace Overlays

variable {t : Tree} {es : List Entry} (overlays : Overlays t es) {s : Side}
include overlays

theorem pairwise_children (s : Side) (p : Nat) : (t.children s p).Pairwise (· < ·) := by
  rw [overlays.children]
  exact List.pairwise_lt_range.filter _

theorem nodup_children (s : Side) (p : Nat) : (t.children s p).Nodup :=
  (overlays.pairwise_children s p).imp Nat.ne_of_lt

theorem mem_openBranches_of_parent {k p : Nat} (linked : t.parent s (k + 1) = some p)
    (below : p ≠ 0) : p ∈ openBranches s (es.take k) := by
  obtain ⟨l, e, same, lookup⟩ :=
    overlays.lookup (Tree.lt_size_of_parent linked) (Nat.succ_ne_zero k)
  obtain rfl := Nat.succ.inj same
  rw [overlays.parent_entry lookup] at linked
  split at linked
  · obtain rfl := Option.some.inj linked
    cases around : e.around (openBranches s (es.take k)) with
    | nil => simp [Entry.scope, around] at below
    | cons b rest =>
        rw [Entry.scope, around, List.headD_cons]
        exact Entry.mem_of_mem_around (by rw [around]; exact List.mem_cons_self)
  · cases linked

theorem le_of_mem_around {k b p : Nat} (inside : k ≤ es.length) {e : Entry}
    (scope : e.scope (openBranches s (es.take k)) = p)
    (member : b ∈ e.around (openBranches s (es.take k))) : b ≤ p := by
  have nested := nested_around (overlays.nested inside s) e
  rw [Entry.scope] at scope
  cases around : e.around (openBranches s (es.take k)) with
  | nil => rw [around] at member; cases member
  | cons c outer =>
      rw [around] at member nested scope
      obtain rfl : c = p := scope
      exact (List.mem_cons.mp member).elim Nat.le_of_eq
        fun inner => Nat.le_of_lt (nested.lt_head b inner)

/-- Nodes below a node come before the siblings behind it: a sibling is placed when no branch inside
the node is open any more. -/
theorem ahead_of_siblings {i j p : Nat} (linked : t.parent s i = some p)
    (linkedToo : t.parent s j = some p) (before : i < j) : t.Ahead s i j := by
  intro d above
  have higher := overlays.parentsFirst s i p linked
  induction above using Relation.ReflTransGen.head_induction_on with
  | refl => exact before
  | head linkedBelow above ih =>
      rename_i d b
      have behind := overlays.parentsFirst.le_of_above above
      by_contra later
      have line : b ≠ 0 := by omega
      obtain ⟨k, rfl⟩ : ∃ k, d = k + 1 := ⟨d - 1, by omega⟩
      obtain ⟨l, e, rfl, lookup⟩ := overlays.lookup (Tree.lt_size_of_parent linkedToo) (by omega)
      have opened := overlays.mem_openBranches_of_parent linkedBelow line
      refine not_mem_openBranches_of_le (k := l + 1) (by omega) ?_ ?_ opened
      · rw [overlays.parent_entry lookup] at linkedToo
        split at linkedToo
        · next present =>
            rw [openBranches_take_succ lookup, if_pos present]
            intro member
            have inside := (List.getElem?_eq_some_iff.mp lookup).1
            have around : b ∉ e.around (openBranches s (es.take l)) := fun member => by
              have := overlays.le_of_mem_around (Nat.le_of_lt inside) (Option.some.inj linkedToo)
                member
              omega
            unfold Entry.behind at member
            unfold Entry.around at around member
            cases kind : e.kind <;> simp only [kind, List.mem_cons] at member around
            case code => exact around member
            case endif => exact around (List.mem_of_mem_tail member)
            all_goals exact member.elim (by omega) around
        · cases linkedToo
      · rcases Nat.lt_or_eq_of_le (Nat.le_of_not_lt later) with behind | same
        · omega
        · rw [← same, linkedToo] at linkedBelow
          obtain rfl := Option.some.inj linkedBelow
          omega

end Overlays

namespace Accepted

variable {t : Tree} {es : List Entry} (accepted : Accepted es t) {s : Side}
include accepted

theorem children_eq_nil {i : Nat} (leaf : ¬ (t.node i).kind.isScope) : t.children s i = [] := by
  refine List.eq_nil_iff_forall_not_mem.mpr fun c child => leaf ?_
  exact (accepted.overlays.parent_owns (accepted.overlays.mem_children.mp child)).2

/-- A walk down meets the root and then every node of its side in order. -/
theorem preorder_eq (s : Side) :
    t.preorder s = 0 :: t.positions fun n => n.kind ≠ .root && n.existsOn s := by
  have overlays := accepted.overlays
  have ordered : (t.preorder s).Pairwise (· < ·) := by
    refine Tree.pairwise_preorder overlays.parentsFirst
      (fun p c child => overlays.mem_children.mp child) (fun p => ?_) ?_
    · refine (overlays.pairwise_children s p).imp_of_mem fun childI childJ before => ?_
      exact overlays.ahead_of_siblings (overlays.mem_children.mp childI)
        (overlays.mem_children.mp childJ) before
    · rw [overlays.roots_eq (fun e member => (accepted.proper e member).line) s]
      exact List.pairwise_singleton _ _
  have positive {i : Nat} : i ∈ t.positions (fun n => n.kind ≠ .root && n.existsOn s) ↔
      i < t.size ∧ i ≠ 0 ∧ (t.node i).existsOn s := by
    simp [Tree.mem_positions, accepted.kind_eq_root_iff]
  refine ordered.eq_of_mem_iff (List.pairwise_cons.mpr ⟨fun i member => ?_, ?_⟩) fun i => ?_
  · exact Nat.pos_of_ne_zero (positive.mp member).2.1
  · rw [Tree.positions_eq]
    exact List.pairwise_lt_range.filter _
  · rw [accepted.wellFormed.mem_preorder, List.mem_cons, positive]
    by_cases root : i = 0
    · subst root
      simp [overlays.size, Node.existsOn, overlays.kind_root]
    · simp [root]

/-- A further branch stands right behind the branch that it follows. -/
theorem exists_branch_before {p j : Nat} {earlier later : List Nat}
    (split : t.children s p = earlier ++ j :: later) (further : t.isFurther j) :
    ∃ front d, earlier = front ++ [d] ∧ ((t.node d).kind = .ifBranch ∨ t.isFurther d) := by
  have overlays := accepted.overlays
  have linked : t.parent s j = some p := overlays.mem_children.mp (by rw [split]; simp)
  rw [Tree.isFurther_iff] at further
  obtain ⟨k, e, rfl, lookup⟩ := accepted.exists_directive (i := j)
    (by rcases further with kind | kind <;> rw [kind] <;> decide)
    (by rcases further with kind | kind <;> rw [kind] <;> decide)
  rw [overlays.kind_entry lookup] at further
  have present : e.edit.existsOn s := by
    by_contra absent
    rw [overlays.parent_entry lookup, if_neg absent] at linked
    cases linked
  obtain ⟨d, ended⟩ := accepted.exists_ended_before lookup present further
  obtain ⟨outer, opened⟩ := ended.innermost
  have beside := overlays.parent_next lookup present further opened
  have nested := overlays.nested (Nat.le_of_lt (List.getElem?_eq_some_iff.mp lookup).1) s
  rw [opened] at nested
  obtain ⟨-, -, below, alone, -⟩ := nested
  have linkedBefore : t.parent s d = some p := beside.symm.trans linked
  obtain ⟨front, back, splitBefore⟩ := List.append_of_mem (overlays.mem_children.mpr linkedBefore)
  -- the siblings behind the branch are the further one and those behind that
  have behind := overlays.siblingsBehind_next linkedBefore linked (Nat.lt_succ_of_le below)
    fun c later earlier => linkedBefore ▸ alone c later (by omega)
  have once := overlays.nodup_children s p
  rw [Tree.siblingsBehind_of_split linkedBefore splitBefore once,
    Tree.siblingsBehind_of_split linked split once] at behind
  refine ⟨front, d, ?_, (accepted.branch_of_ended ended).1⟩
  rw [splitBefore, behind, List.append_cons] at split
  exact (List.append_cancel_right split).symm

/-- Behind a branch stand the `elif`s of its conditional, and at most one `else` at the end. -/
theorem kinds_furtherBranches {b k : Nat} (inside : k ≤ es.length)
    (opened : b ∈ openBranches s (es.take k)) :
    ∃ elifs, (t.furtherBranches s b).map (fun i => (t.node i).kind) =
        List.replicate elifs .elifBranch ∨
      (t.furtherBranches s b).map (fun i => (t.node i).kind) =
        List.replicate elifs .elifBranch ++ [.elseBranch] := by
  refine (accepted.branch_induction (motive := fun b =>
    (∃ elifs, (t.furtherBranches s b).map (fun i => (t.node i).kind) =
        List.replicate elifs .elifBranch ∨
      (t.furtherBranches s b).map (fun i => (t.node i).kind) =
        List.replicate elifs .elifBranch ++ [.elseBranch]) ∧
      ((t.node b).kind = .elseBranch → t.furtherBranches s b = [])) ?_ ?_ inside opened).1
  · intro b k e ended kind
    rw [accepted.furtherBranches_last ended kind]
    exact ⟨⟨0, .inl rfl⟩, fun _ => rfl⟩
  · rintro b k e ended further ⟨⟨elifs, kinds⟩, last⟩
    obtain ⟨outer, innermost⟩ := ended.innermost
    obtain ⟨c, outer', innermostToo, continued, -⟩ :=
      accepted.exists_continued ended.lookup ended.present further
    obtain rfl := (List.cons.inj (innermost.symm.trans innermostToo)).1
    have kind := accepted.overlays.kind_entry ended.lookup
    rw [accepted.furtherBranches_next ended further, List.map_cons, kind]
    constructor
    · rcases further with elif | alternative
      · rw [elif]
        exact ⟨elifs + 1, kinds.imp (congrArg (NodeKind.elifBranch :: ·))
          (congrArg (NodeKind.elifBranch :: ·))⟩
      · rw [last (kind.trans alternative), alternative]
        exact ⟨0, .inr rfl⟩
    · intro other
      rcases continued with here | here <;> rw [here] at other <;> cases other

/-- Nothing is placed in a branch behind the `endif` that ends it. -/
theorem getLast?_children {b e : Nat} (endif : (t.node e).kind = .endif)
    (linked : t.parent s e = some b) : (t.children s b).getLast? = some e := by
  have overlays := accepted.overlays
  obtain ⟨k, entry, rfl, lookup⟩ := accepted.exists_directive (i := e)
    (by rw [endif]; decide) (by rw [endif]; decide)
  rw [overlays.kind_entry lookup] at endif
  have ended := accepted.ended_above lookup endif linked
  obtain ⟨outer, innermost⟩ := ended.innermost
  have line : b ≠ 0 := by
    have opened : b ∈ openBranches s (es.take k) := innermost ▸ List.mem_cons_self
    obtain ⟨l, f, rfl, -⟩ := exists_entry_of_mem_openBranches opened
    exact Nat.succ_ne_zero l
  have last : ∀ c ∈ t.children s b, c ≤ k + 1 := by
    intro c child
    by_contra later
    obtain ⟨l, rfl⟩ : ∃ l, c = l + 1 := ⟨c - 1, by omega⟩
    refine not_mem_openBranches_of_le (Nat.le_succ_of_le (ended.le overlays))
      (ended.not_mem_behind overlays) (j := l) (by omega) ?_
    exact overlays.mem_openBranches_of_parent (overlays.mem_children.mp child) line
  obtain ⟨front, back, split⟩ := List.append_of_mem (overlays.mem_children.mpr linked)
  have ascending := overlays.pairwise_children s b
  cases back with
  | nil => rw [split, List.getLast?_concat]
  | cons c back =>
      rw [split] at ascending last
      have behind := (List.pairwise_cons.mp (List.pairwise_append.mp ascending).2.1).1 c
        List.mem_cons_self
      have := last c (by simp)
      omega

/-- An `if` and the further branches behind it are a conditional. -/
theorem isConditional {i : Nat} (opens : (t.node i).kind = .ifBranch)
    (present : (t.node i).existsOn s) : t.IsConditional s (t.conditional s i) := by
  obtain ⟨k, inside, opened⟩ := accepted.mem_openBranches_of_branch (.inl opens) present
  obtain ⟨elifs, kinds⟩ := accepted.kinds_furtherBranches inside opened
  obtain ⟨e, endif, linked, only⟩ := accepted.exists_endif opens present
  refine ⟨⟨elifs, ?_⟩, t.lastBranch s i, e, ?_, accepted.getLast?_children endif linked, endif, ?_⟩
  · rw [Tree.conditional, List.map_cons, opens]
    exact kinds.imp (congrArg (NodeKind.ifBranch :: ·)) (congrArg (NodeKind.ifBranch :: ·))
  · rw [Tree.conditional, Tree.lastBranch, List.getLast?_cons, List.getLastD_eq_getLast?]
  · exact fun c member f child kind =>
      only c member f kind (accepted.overlays.mem_children.mp child)

/-- The children of a node from one of them on, when that one begins something new. -/
theorem siblings_of_split {p : Nat} {earlier later : List Nat}
    (split : t.children s p = earlier ++ later)
    (begins : ∀ j ∈ later.head?, ¬ t.isFurther j) : t.Siblings s later := by
  induction size : later.length using Nat.strongRecOn generalizing earlier later with
  | ind size ih =>
      subst size
      cases later with
      | nil => exact .nil
      | cons i later =>
          have overlays := accepted.overlays
          have linked : t.parent s i = some p := overlays.mem_children.mp (by rw [split]; simp)
          have new : ¬ t.isFurther i := begins i rfl
          have line : i ≠ 0 := by
            rintro rfl
            rw [overlays.parent_root] at linked
            cases linked
          have splitBehind := split
          rw [List.append_cons] at splitBehind
          -- a line or an endif is no branch that a further one could follow
          have alone (leaf : (t.node i).kind = .code ∨ (t.node i).kind = .endif) :
              t.Siblings s (i :: later) := by
            refine .line leaf (accepted.children_eq_nil ?_)
              (ih _ (Nat.lt_succ_self _) splitBehind ?_ rfl)
            · rcases leaf with kind | kind <;> rw [kind] <;> decide
            · intro j first further
              obtain ⟨rest, rfl⟩ : ∃ rest, later = j :: rest := by
                cases later <;> simp_all
              obtain ⟨front, d, ends, branch⟩ := accepted.exists_branch_before splitBehind further
              obtain rfl := (List.append_singleton_inj.mp ends).2
              rw [Tree.isFurther_iff] at branch
              rcases leaf with kind | kind <;> simp [kind] at branch
          cases kind : (t.node i).kind with
          | root => exact absurd (accepted.kind_eq_root_iff.mp kind) line
          | elifBranch => exact absurd (Tree.isFurther_iff.mpr (.inl kind)) new
          | elseBranch => exact absurd (Tree.isFurther_iff.mpr (.inr kind)) new
          | code => exact alone (.inl kind)
          | endif => exact alone (.inr kind)
          | ifBranch =>
              have present : (t.node i).existsOn s :=
                (accepted.existsOn_iff_linked (Tree.lt_size_of_parent linked) line s).mpr
                  (by rw [linked]; rfl)
              have further : t.furtherBranches s i = later.takeWhile t.isFurther := by
                rw [Tree.furtherBranches,
                  Tree.siblingsBehind_of_split linked split (overlays.nodup_children s p)]
              have conditional := accepted.isConditional kind present
              rw [Tree.conditional, further] at conditional
              have parts := List.takeWhile_append_dropWhile (p := t.isFurther) (l := later)
              have splitFurther : t.children s p =
                  (earlier ++ i :: later.takeWhile t.isFurther) ++ later.dropWhile t.isFurther := by
                rw [split, List.append_assoc, List.cons_append, parts]
              rw [← parts, ← List.cons_append]
              refine .conditional conditional (ih _ ?_ splitFurther ?_ rfl)
              · exact Nat.lt_succ_of_le (List.length_dropWhile_le _ _)
              · intro j first
                have := List.head?_dropWhile_not t.isFurther later
                simp_all

theorem siblings_children (s : Side) (p : Nat) : t.Siblings s (t.children s p) := by
  refine accepted.siblings_of_split (List.nil_append _).symm fun j first further => ?_
  obtain ⟨later, split⟩ : ∃ later, t.children s p = [] ++ j :: later := by
    cases children : t.children s p <;> simp_all
  obtain ⟨front, d, impossible, -⟩ := accepted.exists_branch_before split further
  simp at impossible

end Accepted

/-- A parsed tree is a tree of nested conditionals. On each side the walk down meets the root and
then the nodes of the side in the order of their positions and lines; the children of every node
are in order, and they are code, `endif`s and conditionals. -/
theorem parse_nested {text path commit : String} {t : Tree}
    (parsed : parse text path commit = .ok (.ok t)) (s : Side) :
    (t.node 0).kind = .root ∧
      t.preorder s = 0 :: t.positions (fun n => n.kind ≠ .root && n.existsOn s) ∧
      (∀ i j, 0 < i → i < j → j < t.size → (t.node i).lines.last < (t.node j).lines.first) ∧
      (∀ p, (t.children s p).Pairwise (· < ·) ∧ t.Siblings s (t.children s p)) ∧
      ∀ i, (t.node i).kind = .code ∨ (t.node i).kind = .endif → t.children s i = [] := by
  have accepted := accepted_of_parse parsed
  refine ⟨accepted.overlays.kind_root, accepted.preorder_eq s, ?_,
    fun p => ⟨accepted.overlays.pairwise_children s p, accepted.siblings_children s p⟩, ?_⟩
  · exact fun i j behind before inside =>
      accepted.overlays.lines_ascending (divides_of_parse parsed) behind before inside
  · intro i leaf
    refine accepted.children_eq_nil ?_
    rcases leaf with kind | kind <;> rw [kind] <;> decide

theorem parse_nested_elif :
    ∃ t, parse " #if A\n+#elif B\n-x\n #else\n y\n #endif\n z\n" "f" "c" = .ok (.ok t) ∧
      t.preorder .before = [0, 1, 3, 4, 5, 6, 7] ∧ t.children .after 0 = [1, 2, 4, 7] ∧
      t.Siblings .after [1, 2, 4, 7] := by
  have parses : parsesTo " #if A\n+#elif B\n-x\n #else\n y\n #endif\n z\n" "f" "c" (fun t =>
      0 :: t.positions (fun n => n.kind ≠ .root && n.existsOn .before) = [0, 1, 3, 4, 5, 6, 7] &&
        t.children .after 0 = [1, 2, 4, 7]) := by decide +kernel
  obtain ⟨t, parsed, facts⟩ := exists_of_parsesTo parses
  simp only [Bool.and_eq_true, decide_eq_true_eq] at facts
  obtain ⟨before, children⟩ := facts
  have siblings := ((parse_nested parsed .after).2.2.2.1 0).2
  rw [children] at siblings
  exact ⟨t, parsed, (parse_nested parsed .before).2.1.trans before, children, siblings⟩

end Patch

end Variability
