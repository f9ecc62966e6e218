import Mathlib.Data.List.TakeWhile
import Variability.Proofs.Patch.Dissolution

/-!
Conditionals of an accepted patch, side by side. Every branch is ended once, by the further branch
that follows it or by the `endif` below it. So a conditional is an `if` with the further branches
that stand right behind it, and it has one `endif`, which stands below its last branch.
-/

namespace Variability

namespace Tree

/-- The siblings that stand behind a node on a side. -/
def siblingsBehind (t : Tree) (s : Side) (i : Nat) : List Nat :=
  (((t.parent s i).elim [] (t.children s)).dropWhile (· ≠ i)).tail

def isFurther (t : Tree) (i : Nat) : Bool :=
  (t.node i).kind = .elifBranch || (t.node i).kind = .elseBranch

/-- The further branches that follow a branch of a conditional on a side. -/
def furtherBranches (t : Tree) (s : Side) (i : Nat) : List Nat :=
  (t.siblingsBehind s i).takeWhile t.isFurther

/-- An `if` and the further branches of its conditional. -/
def conditional (t : Tree) (s : Side) (i : Nat) : List Nat :=
  i :: t.furtherBranches s i

def lastBranch (t : Tree) (s : Side) (i : Nat) : Nat :=
  (t.furtherBranches s i).getLastD i

/-- The nodes of a kind that exist on a side, in order. -/
def ofKind (t : Tree) (s : Side) (kind : NodeKind) : List Nat :=
  t.positions fun n => n.kind = kind && n.existsOn s

variable {t : Tree} {s : Side}

theorem isFurther_iff {i : Nat} :
    t.isFurther i ↔ (t.node i).kind = .elifBranch ∨ (t.node i).kind = .elseBranch := by
  rw [isFurther, Bool.or_eq_true, decide_eq_true_eq, decide_eq_true_eq]

theorem lastBranch_mem (t : Tree) (s : Side) (i : Nat) : t.lastBranch s i ∈ t.conditional s i := by
  rw [lastBranch, conditional, List.getLastD_eq_getLast?]
  cases last : (t.furtherBranches s i).getLast? with
  | none => exact List.mem_cons_self
  | some l => exact List.mem_cons_of_mem i (List.mem_of_getLast? last)

theorem kind_ne_endif_of_mem_conditional {i b : Nat} (opens : (t.node i).kind = .ifBranch)
    (member : b ∈ t.conditional s i) : (t.node b).kind ≠ .endif := by
  rcases List.mem_cons.mp member with rfl | later
  · rw [opens]
    decide
  · have further := List.mem_takeWhile_imp later
    rw [isFurther_iff] at further
    rcases further with kind | kind <;> rw [kind] <;> decide

theorem mem_ofKind {kind : NodeKind} {i : Nat} :
    i ∈ t.ofKind s kind ↔ i < t.size ∧ (t.node i).kind = kind ∧ (t.node i).existsOn s := by
  rw [ofKind, mem_positions, Bool.and_eq_true, decide_eq_true_eq]

theorem Nested.lt_head {k b : Nat} {outer : List Nat} (nested : t.Nested s k (b :: outer)) :
    ∀ c ∈ outer, c < b := by
  induction outer generalizing b with
  | nil => simp
  | cons d outer ih =>
      obtain ⟨-, below, -, -, inner⟩ := nested
      rw [List.headD_cons] at below
      exact List.forall_mem_cons.mpr ⟨below, fun c member => Nat.lt_trans (ih inner c member) below⟩

end Tree

namespace Patch

/-- Entry number `k` ends branch `b`, the innermost one that is open there: it opens the further
branch that follows, or it is the `endif`. -/
structure Ended (s : Side) (es : List Entry) (b k : Nat) (e : Entry) : Prop where
  lookup : es[k]? = some e
  present : e.edit.existsOn s
  ends : (e.kind = .elifBranch ∨ e.kind = .elseBranch) ∨ e.kind = .endif
  innermost : ∃ outer, openBranches s (es.take k) = b :: outer

theorem not_mem_openBranches_of_le {s : Side} {es : List Entry} {b k j : Nat} (old : b ≤ k)
    (closed : b ∉ openBranches s (es.take k)) (later : k ≤ j) :
    b ∉ openBranches s (es.take j) := by
  induction j, later using Nat.le_induction with
  | base => exact closed
  | succ j later ih =>
      cases lookup : es[j]? with
      | none =>
          have whole := List.getElem?_eq_none_iff.mp lookup
          rwa [List.take_of_length_le (Nat.le_succ_of_le whole), ← List.take_of_length_le whole]
      | some e =>
          rw [openBranches_take_succ lookup]
          split
          · intro member
            rcases Entry.mem_of_mem_behind member with rfl | member
            · omega
            · exact ih member
          · exact ih

namespace Accepted

variable {t : Tree} {es : List Entry} (accepted : Accepted es t) {s : Side}
include accepted

theorem openBranches_eq_nil : openBranches s es = [] := by
  have overlays : Overlays t (es ++ []) := by rw [List.append_nil]; exact accepted.overlays
  exact List.map_eq_nil_iff.mp (overlays.kinds_openBranches (accepted.closed s))

/-- An open branch is ended later on. -/
theorem exists_ended {b k : Nat} (inside : k ≤ es.length)
    (opened : b ∈ openBranches s (es.take k)) : ∃ j e, k ≤ j ∧ Ended s es b j e := by
  obtain ⟨left, same⟩ : ∃ left, es.length = k + left := ⟨es.length - k, by omega⟩
  induction left generalizing k with
  | zero =>
      rw [List.take_of_length_le (by omega), accepted.openBranches_eq_nil] at opened
      cases opened
  | succ left ih =>
      by_cases stays : b ∈ openBranches s (es.take (k + 1))
      · obtain ⟨j, e, later, ended⟩ := ih (by omega) stays (by omega)
        exact ⟨j, e, by omega, ended⟩
      · have lookup : es[k]? = some es[k] := List.getElem?_eq_getElem (by omega)
        generalize es[k] = e at lookup
        refine ⟨k, e, Nat.le_refl k, ?_⟩
        rw [openBranches_take_succ lookup] at stays
        have present : e.edit.existsOn s := by
          by_contra absent
          rw [if_neg absent] at stays
          exact stays opened
        rw [if_pos present] at stays
        have innermost (popped : b ∉ (openBranches s (es.take k)).tail) :
            ∃ outer, openBranches s (es.take k) = b :: outer := by
          cases before : openBranches s (es.take k) with
          | nil => rw [before] at opened; cases opened
          | cons c outer =>
              rw [before] at opened popped
              obtain rfl | member := List.mem_cons.mp opened
              · exact ⟨outer, rfl⟩
              · exact absurd member popped
        unfold Entry.behind Entry.around at stays
        cases kind : e.kind <;> simp only [kind] at stays
        case code => exact absurd opened stays
        case endif => exact ⟨lookup, present, .inr kind, innermost stays⟩
        case root | ifBranch => exact absurd (List.mem_cons_of_mem _ opened) stays
        case elifBranch =>
            exact ⟨lookup, present, .inl (.inl kind),
              innermost (List.not_mem_of_not_mem_cons stays)⟩
        case elseBranch =>
            exact ⟨lookup, present, .inl (.inr kind),
              innermost (List.not_mem_of_not_mem_cons stays)⟩

end Accepted

namespace Ended

variable {t : Tree} {es : List Entry} (overlays : Overlays t es) {s : Side} {b k : Nat} {e : Entry}
include overlays

theorem not_mem_behind (ended : Ended s es b k e) : b ∉ openBranches s (es.take (k + 1)) := by
  obtain ⟨outer, innermost⟩ := ended.innermost
  have inside := (List.getElem?_eq_some_iff.mp ended.lookup).1
  have nested := overlays.nested (Nat.le_of_lt inside) s
  rw [innermost] at nested
  have gone : b ∉ outer := fun member => Nat.lt_irrefl b (nested.lt_head b member)
  have below : b < k + 1 := Nat.lt_succ_of_le nested.2.2.1
  rw [openBranches_take_succ ended.lookup, if_pos ended.present, innermost]
  unfold Entry.behind Entry.around
  rcases ended.ends with (kind | kind) | kind <;> simp only [kind, List.tail_cons, List.mem_cons]
  · exact not_or.mpr ⟨Nat.ne_of_lt below, gone⟩
  · exact not_or.mpr ⟨Nat.ne_of_lt below, gone⟩
  · exact gone

theorem le (ended : Ended s es b k e) : b ≤ k := by
  obtain ⟨outer, innermost⟩ := ended.innermost
  have nested := overlays.nested (Nat.le_of_lt (List.getElem?_eq_some_iff.mp ended.lookup).1) s
  rw [innermost] at nested
  exact nested.2.2.1

/-- A branch is ended once. -/
theorem unique {j : Nat} {f : Entry} (ended : Ended s es b k e) (endedToo : Ended s es b j f) :
    k = j := by
  have once {k j : Nat} {e f : Entry} (ended : Ended s es b k e) (endedToo : Ended s es b j f) :
      j ≤ k := by
    by_contra later
    obtain ⟨outer, innermost⟩ := endedToo.innermost
    refine not_mem_openBranches_of_le (Nat.le_succ_of_le (ended.le overlays))
      (ended.not_mem_behind overlays) (Nat.lt_of_not_le later) ?_
    rw [innermost]
    exact List.mem_cons_self
  exact Nat.le_antisymm (once endedToo ended) (once ended endedToo)

end Ended

private theorem tail_dropWhile_filter_range {test : Nat → Bool} {n i : Nat} (inside : i < n)
    (passes : test i) :
    (((List.range n).filter test).dropWhile (· ≠ i)).tail =
      (List.range n).filter fun c => decide (i < c) && test c := by
  obtain ⟨rest, rfl⟩ : ∃ rest, n = i + (rest + 1) := ⟨n - i - 1, by omega⟩
  have nothing : (List.range i).filter (fun c => decide (i < c) && test c) = [] := by
    rw [List.filter_eq_nil_iff]
    intro c member
    have := List.mem_range.mp member
    simp only [Bool.and_eq_true, decide_eq_true_eq]
    omega
  rw [List.range_add, List.filter_append, List.filter_append, nothing, List.nil_append,
    List.dropWhile_append_of_pos, List.range_succ_eq_map, List.map_cons, Nat.add_zero,
    List.filter_cons_of_pos passes, List.filter_cons_of_neg (by simp),
    List.dropWhile_cons_of_neg (by simp), List.tail_cons]
  · apply List.filter_congr
    intro c member
    obtain ⟨j, stepped, rfl⟩ := List.mem_map.mp member
    obtain ⟨l, -, rfl⟩ := List.mem_map.mp stepped
    simp
  · intro c member
    have := List.mem_range.mp (List.mem_filter.mp member).1
    simpa using Nat.ne_of_lt this

namespace Overlays

variable {t : Tree} {es : List Entry} (overlays : Overlays t es) {s : Side}
include overlays

theorem siblingsBehind_eq {i p : Nat} (linked : t.parent s i = some p) :
    t.siblingsBehind s i =
      (List.range t.size).filter fun c => decide (i < c) && decide (t.parent s c = some p) := by
  rw [Tree.siblingsBehind, linked, Option.elim_some, overlays.children,
    tail_dropWhile_filter_range (Tree.lt_size_of_parent linked) (by simpa using linked)]

theorem mem_siblingsBehind {i c : Nat} {p : Nat} (linked : t.parent s i = some p) :
    c ∈ t.siblingsBehind s i ↔ i < c ∧ t.parent s c = some p := by
  rw [overlays.siblingsBehind_eq linked, List.mem_filter, List.mem_range, Bool.and_eq_true,
    decide_eq_true_eq, decide_eq_true_eq, and_iff_right_iff_imp]
  exact fun here => Tree.lt_size_of_parent here.2

theorem siblingsBehind_pairwise {i p : Nat} (linked : t.parent s i = some p) :
    (t.siblingsBehind s i).Pairwise (· < ·) := by
  rw [overlays.siblingsBehind_eq linked]
  exact List.pairwise_lt_range.filter _

theorem siblingsBehind_next {i j p : Nat} (linked : t.parent s i = some p)
    (linkedToo : t.parent s j = some p) (later : i < j)
    (alone : ∀ c, i < c → c < j → t.parent s c ≠ some p) :
    t.siblingsBehind s i = j :: t.siblingsBehind s j := by
  refine List.Pairwise.eq_of_mem_iff (overlays.siblingsBehind_pairwise linked)
    (List.pairwise_cons.mpr ⟨fun c member => ((overlays.mem_siblingsBehind linkedToo).mp member).1,
      overlays.siblingsBehind_pairwise linkedToo⟩) fun c => ?_
  rw [List.mem_cons, overlays.mem_siblingsBehind linked, overlays.mem_siblingsBehind linkedToo]
  constructor
  · rintro ⟨behind, sibling⟩
    rcases Nat.lt_trichotomy c j with below | same | above
    · exact absurd sibling (alone c behind below)
    · exact .inl same
    · exact .inr ⟨above, sibling⟩
  · rintro (rfl | ⟨behind, sibling⟩)
    · exact ⟨later, linkedToo⟩
    · exact ⟨Nat.lt_trans later behind, sibling⟩

end Overlays

namespace Accepted

variable {t : Tree} {es : List Entry} (accepted : Accepted es t) {s : Side}
include accepted

theorem exists_ended_before {k : Nat} {e : Entry} (lookup : es[k]? = some e)
    (present : e.edit.existsOn s) (further : e.kind = .elifBranch ∨ e.kind = .elseBranch) :
    ∃ b, Ended s es b k e := by
  obtain ⟨b, outer, opened, -⟩ := accepted.exists_continued lookup present further
  exact ⟨b, lookup, present, .inl further, outer, opened⟩

theorem rivals_next {b k : Nat} {e : Entry} (ended : Ended s es b k e)
    (further : e.kind = .elifBranch ∨ e.kind = .elseBranch) :
    t.rivals s (k + 1) = b :: t.rivals s b := by
  obtain ⟨outer, opened⟩ := ended.innermost
  obtain ⟨c, outer', openedToo, -, rivals⟩ :=
    accepted.exists_continued ended.lookup ended.present further
  obtain rfl := (List.cons.inj (opened.symm.trans openedToo)).1
  exact rivals

/-- What a further branch or an `endif` ends is a branch. -/
theorem branch_of_ended {b k : Nat} {e : Entry} (ended : Ended s es b k e) :
    ((t.node b).kind = .ifBranch ∨ t.isFurther b) ∧ (t.node b).existsOn s := by
  obtain ⟨outer, opened⟩ := ended.innermost
  have member : b ∈ openBranches s (es.take k) := by rw [opened]; exact List.mem_cons_self
  obtain ⟨present, scope⟩ := (accepted.overlays.split k).owner (.inr member)
  have notRoot : (t.node b).kind ≠ .root := by
    obtain ⟨l, f, rfl, -⟩ := exists_entry_of_mem_openBranches member
    exact fun root => Nat.succ_ne_zero l (accepted.kind_eq_root_iff.mp root)
  refine ⟨?_, present⟩
  rw [Tree.isFurther_iff]
  cases kind : (t.node b).kind <;> simp_all [NodeKind.isScope]

/-- An `endif` ends the branch that it stands below. -/
theorem ended_above {k p : Nat} {e : Entry} (lookup : es[k]? = some e) (kind : e.kind = .endif)
    (linked : t.parent s (k + 1) = some p) : Ended s es p k e := by
  rw [accepted.overlays.parent_entry lookup] at linked
  split at linked
  · next present =>
      obtain ⟨scopes, advanced⟩ := accepted.exists_allowed lookup present
      rw [Entry.scope, Entry.around, kind] at linked
      rw [kind] at advanced
      cases opened : openBranches s (es.take k) with
      | nil => simp [opened, advance] at advanced
      | cons b outer =>
          simp only [opened, List.headD_cons, Option.some.injEq] at linked
          exact ⟨lookup, present, .inr kind, outer, linked ▸ opened⟩
  · cases linked

theorem furtherBranches_next {b k : Nat} {e : Entry} (ended : Ended s es b k e)
    (further : e.kind = .elifBranch ∨ e.kind = .elseBranch) :
    t.furtherBranches s b = (k + 1) :: t.furtherBranches s (k + 1) := by
  obtain ⟨outer, opened⟩ := ended.innermost
  have beside := accepted.overlays.parent_next ended.lookup ended.present further opened
  have nested :=
    accepted.overlays.nested (Nat.le_of_lt (List.getElem?_eq_some_iff.mp ended.lookup).1) s
  rw [opened] at nested
  obtain ⟨linked, -, below, alone, -⟩ := nested
  have follows : t.isFurther (k + 1) := by
    rw [Tree.isFurther_iff, accepted.overlays.kind_entry ended.lookup]
    exact further
  rw [Tree.furtherBranches, accepted.overlays.siblingsBehind_next linked (beside.trans linked)
    (Nat.lt_succ_of_le below) fun c later earlier => linked ▸ alone c later (by omega),
    List.takeWhile_cons_of_pos follows]
  rfl

theorem furtherBranches_last {b k : Nat} {e : Entry} (ended : Ended s es b k e)
    (kind : e.kind = .endif) : t.furtherBranches s b = [] := by
  obtain ⟨outer, opened⟩ := ended.innermost
  have nested :=
    accepted.overlays.nested (Nat.le_of_lt (List.getElem?_eq_some_iff.mp ended.lookup).1) s
  rw [opened] at nested
  have linked := nested.1
  rw [Tree.furtherBranches]
  cases behind : t.siblingsBehind s b with
  | nil => rfl
  | cons c rest =>
      refine List.takeWhile_cons_of_neg fun follows => ?_
      rw [Tree.isFurther_iff] at follows
      have sibling := (accepted.overlays.mem_siblingsBehind linked (c := c)).mp
        (by rw [behind]; exact List.mem_cons_self)
      have first : ∀ d ∈ t.siblingsBehind s b, c ≤ d := by
        have sorted := accepted.overlays.siblingsBehind_pairwise linked
        rw [behind] at sorted ⊢
        exact List.forall_mem_cons.mpr ⟨Nat.le_refl c, fun d member =>
          Nat.le_of_lt ((List.pairwise_cons.mp sorted).1 d member)⟩
      obtain ⟨l, f, rfl, lookup⟩ := accepted.exists_directive (i := c)
        (by rcases follows with kind | kind <;> rw [kind] <;> decide)
        (by rcases follows with kind | kind <;> rw [kind] <;> decide)
      rw [accepted.overlays.kind_entry lookup] at follows
      have present : f.edit.existsOn s := by
        by_contra absent
        rw [accepted.overlays.parent_entry lookup, if_neg absent] at sibling
        cases sibling.2
      -- the branch that this one follows would be ended twice
      obtain ⟨d, endedToo⟩ := accepted.exists_ended_before lookup present follows
      obtain ⟨outer', openedToo⟩ := endedToo.innermost
      have beside := accepted.overlays.parent_next lookup present follows openedToo
      have nestedToo :=
        accepted.overlays.nested (Nat.le_of_lt (List.getElem?_eq_some_iff.mp lookup).1) s
      rw [openedToo] at nestedToo
      obtain ⟨-, -, below, alone, -⟩ := nestedToo
      rcases Nat.lt_trichotomy d b with before | rfl | later
      · exact alone b before (by omega) (by rw [linked, ← beside, sibling.2])
      · obtain rfl := ended.unique accepted.overlays endedToo
        obtain rfl := Option.some.inj (ended.lookup.symm.trans lookup)
        rw [kind] at follows
        rcases follows with other | other <;> cases other
      · have := first d ((accepted.overlays.mem_siblingsBehind linked).mpr
          ⟨later, beside.symm.trans sibling.2⟩)
        omega

theorem lastBranch_next {b k : Nat} {e : Entry} (ended : Ended s es b k e)
    (further : e.kind = .elifBranch ∨ e.kind = .elseBranch) :
    t.lastBranch s b = t.lastBranch s (k + 1) := by
  rw [Tree.lastBranch, accepted.furtherBranches_next ended further, List.getLastD_cons,
    Tree.lastBranch]

/-- What holds of branches that an `endif` ends, and passes back from a further branch to the branch
that it follows, holds of every branch. -/
theorem branch_induction {motive : Nat → Prop}
    (last : ∀ {b k e}, Ended s es b k e → e.kind = .endif → motive b)
    (next : ∀ {b k e}, Ended s es b k e → (e.kind = .elifBranch ∨ e.kind = .elseBranch) →
      motive (k + 1) → motive b) {b k : Nat} (inside : k ≤ es.length)
    (opened : b ∈ openBranches s (es.take k)) : motive b := by
  induction left : es.length - k using Nat.strongRecOn generalizing b k with
  | ind left ih =>
      obtain ⟨j, e, later, ended⟩ := accepted.exists_ended inside opened
      have insideToo := (List.getElem?_eq_some_iff.mp ended.lookup).1
      rcases ended.ends with further | kind
      · refine next ended further (ih (es.length - (j + 1)) (by omega) insideToo ?_ rfl)
        rw [openBranches_take_succ ended.lookup, if_pos ended.present, Entry.behind]
        rcases further with kind | kind <;> rw [kind] <;> exact List.mem_cons_self
      · exact last ended kind

theorem mem_openBranches_of_branch {b : Nat} (branch : (t.node b).kind = .ifBranch ∨ t.isFurther b)
    (present : (t.node b).existsOn s) : ∃ k ≤ es.length, b ∈ openBranches s (es.take k) := by
  rw [Tree.isFurther_iff] at branch
  obtain ⟨k, e, rfl, lookup⟩ := accepted.exists_directive (i := b)
    (by rcases branch with kind | kind | kind <;> rw [kind] <;> decide)
    (by rcases branch with kind | kind | kind <;> rw [kind] <;> decide)
  rw [accepted.overlays.kind_entry lookup] at branch
  rw [accepted.overlays.existsOn_entry lookup] at present
  have noRoot : e.kind ≠ .root := accepted.line lookup
  refine ⟨k + 1, (List.getElem?_eq_some_iff.mp lookup).1, ?_⟩
  rw [openBranches_take_succ lookup, if_pos (by simpa [noRoot] using present), Entry.behind]
  rcases branch with kind | kind | kind <;> rw [kind] <;> exact List.mem_cons_self

/-- A conditional has one `endif`, and it stands below the last branch. -/
theorem exists_endif {i : Nat} (opens : (t.node i).kind = .ifBranch)
    (present : (t.node i).existsOn s) :
    ∃ e, (t.node e).kind = .endif ∧ t.parent s e = some (t.lastBranch s i) ∧
      ∀ b ∈ t.conditional s i, ∀ f, (t.node f).kind = .endif → t.parent s f = some b →
        b = t.lastBranch s i ∧ f = e := by
  obtain ⟨k, inside, opened⟩ := accepted.mem_openBranches_of_branch (.inl opens) present
  -- what is said of the `if` holds of every branch with those that follow it
  refine accepted.branch_induction (motive := fun i => ∃ e, (t.node e).kind = .endif ∧
    t.parent s e = some (t.lastBranch s i) ∧ ∀ b ∈ t.conditional s i, ∀ f,
      (t.node f).kind = .endif → t.parent s f = some b → b = t.lastBranch s i ∧ f = e)
    ?_ ?_ inside opened
  · intro b k e ended kind
    obtain ⟨outer, innermost⟩ := ended.innermost
    rw [Tree.lastBranch, Tree.conditional, accepted.furtherBranches_last ended kind,
      List.getLastD_nil]
    refine ⟨k + 1, (accepted.overlays.kind_entry ended.lookup).trans kind, ?_, ?_⟩
    · rw [accepted.overlays.parent_entry ended.lookup, if_pos ended.present, Entry.scope,
        Entry.around, kind, innermost, List.headD_cons]
    · intro c member f endif linked
      obtain rfl := List.mem_singleton.mp member
      refine ⟨rfl, ?_⟩
      obtain ⟨l, g, rfl, lookup⟩ := accepted.exists_directive (i := f)
        (by rw [endif]; decide) (by rw [endif]; decide)
      rw [accepted.overlays.kind_entry lookup] at endif
      rw [ended.unique accepted.overlays (accepted.ended_above lookup endif linked)]
  · rintro b k e ended further ⟨f, endif, linked, only⟩
    rw [accepted.lastBranch_next ended further, Tree.conditional,
      accepted.furtherBranches_next ended further]
    refine ⟨f, endif, linked, List.forall_mem_cons.mpr ⟨fun g endif linked => ?_, only⟩⟩
    obtain ⟨l, h, rfl, lookup⟩ := accepted.exists_directive (i := g)
      (by rw [endif]; decide) (by rw [endif]; decide)
    rw [accepted.overlays.kind_entry lookup] at endif
    have endedToo := accepted.ended_above lookup endif linked
    obtain rfl := ended.unique accepted.overlays endedToo
    obtain rfl := Option.some.inj (ended.lookup.symm.trans lookup)
    rw [endif] at further
    rcases further with other | other <;> cases other

/-- Every branch belongs to a conditional, with which it shares its last branch. -/
theorem exists_opens {b : Nat} (branch : (t.node b).kind = .ifBranch ∨ t.isFurther b)
    (present : (t.node b).existsOn s) :
    ∃ i, (t.node i).kind = .ifBranch ∧ (t.node i).existsOn s ∧
      t.lastBranch s i = t.lastBranch s b := by
  induction b using Nat.strongRecOn with
  | ind b ih =>
      rcases branch with opens | follows
      · exact ⟨b, opens, present, rfl⟩
      · rw [Tree.isFurther_iff] at follows
        obtain ⟨k, e, rfl, lookup⟩ := accepted.exists_directive (i := b)
          (by rcases follows with kind | kind <;> rw [kind] <;> decide)
          (by rcases follows with kind | kind <;> rw [kind] <;> decide)
        rw [accepted.overlays.kind_entry lookup] at follows
        rw [accepted.overlays.existsOn_entry lookup] at present
        have noRoot : e.kind ≠ .root := accepted.line lookup
        obtain ⟨d, ended⟩ := accepted.exists_ended_before lookup (s := s)
          (by simpa [noRoot] using present) follows
        obtain ⟨branch, present⟩ := accepted.branch_of_ended ended
        obtain ⟨i, opens, presentToo, same⟩ :=
          ih d (Nat.lt_succ_of_le (ended.le accepted.overlays)) branch present
        exact ⟨i, opens, presentToo, same.trans (accepted.lastBranch_next ended follows)⟩

/-- The branches of a conditional come after the same `if`. -/
theorem getLast?_rivals {b c k : Nat} (inside : k ≤ es.length)
    (opened : b ∈ openBranches s (es.take k)) (member : c ∈ t.conditional s b) :
    (c :: t.rivals s c).getLast? = (b :: t.rivals s b).getLast? := by
  refine accepted.branch_induction (motive := fun b => c ∈ t.conditional s b →
    (c :: t.rivals s c).getLast? = (b :: t.rivals s b).getLast?) ?_ ?_ inside opened member
  · intro b k e ended kind member
    rw [Tree.conditional, accepted.furtherBranches_last ended kind, List.mem_singleton] at member
    rw [member]
  · intro b k e ended further ih member
    rw [Tree.conditional, accepted.furtherBranches_next ended further, List.mem_cons] at member
    rcases member with rfl | later
    · rfl
    · rw [ih later, accepted.rivals_next ended further, List.getLast?_cons_cons]

theorem lastBranch_injective {i j : Nat} (opens : (t.node i).kind = .ifBranch)
    (present : (t.node i).existsOn s) (opensToo : (t.node j).kind = .ifBranch)
    (presentToo : (t.node j).existsOn s) (same : t.lastBranch s i = t.lastBranch s j) :
    i = j := by
  have opener {i : Nat} (opens : (t.node i).kind = .ifBranch) (present : (t.node i).existsOn s) :
      (t.lastBranch s i :: t.rivals s (t.lastBranch s i)).getLast? = some i := by
    obtain ⟨k, inside, opened⟩ := accepted.mem_openBranches_of_branch (.inl opens) present
    rw [accepted.getLast?_rivals inside opened (t.lastBranch_mem s i), Tree.rivals, opens]
    rfl
  have found := opener opens present
  rw [same, opener opensToo presentToo] at found
  exact (Option.some.inj found).symm

/-- On each side there is one `endif` below the last branch of every conditional, and no other. -/
theorem perm_lastBranch (s : Side) :
    ((t.ofKind s .endif).map (t.parent s)).Perm
      ((t.ofKind s .ifBranch).map fun i => some (t.lastBranch s i)) := by
  have nodup (kind : NodeKind) : (t.ofKind s kind).Nodup := by
    rw [Tree.ofKind, Tree.positions_eq]
    exact List.nodup_range.filter _
  -- an `endif` ends the last branch of a conditional
  have closes {f : Nat} (listed : f ∈ t.ofKind s .endif) :
      ∃ i, (t.node i).kind = .ifBranch ∧ (t.node i).existsOn s ∧
        t.parent s f = some (t.lastBranch s i) := by
    obtain ⟨inside, endif, present⟩ := Tree.mem_ofKind.mp listed
    obtain ⟨k, e, rfl, lookup⟩ := accepted.exists_directive (i := f)
      (by rw [endif]; decide) (by rw [endif]; decide)
    rw [accepted.overlays.kind_entry lookup] at endif
    obtain ⟨b, linked⟩ := Option.isSome_iff_exists.mp
      ((accepted.existsOn_iff_linked inside (Nat.succ_ne_zero k) s).mp present)
    have ended := accepted.ended_above lookup endif linked
    obtain ⟨branch, presentAbove⟩ := accepted.branch_of_ended ended
    obtain ⟨i, opens, presentToo, same⟩ := accepted.exists_opens branch presentAbove
    have last : t.lastBranch s b = b := by
      rw [Tree.lastBranch, accepted.furtherBranches_last ended endif, List.getLastD_nil]
    exact ⟨i, opens, presentToo, by rw [linked, same, last]⟩
  refine (List.perm_ext_iff_of_nodup ?_ ?_).mpr fun p => ?_
  · refine (List.nodup_map_iff_inj_on (nodup .endif)).mpr fun f listed g listedToo same => ?_
    obtain ⟨i, opens, present, linked⟩ := closes listed
    obtain ⟨e, -, -, only⟩ := accepted.exists_endif opens present
    have once {f : Nat} (listed : f ∈ t.ofKind s .endif)
        (linked : t.parent s f = some (t.lastBranch s i)) : f = e :=
      (only _ (t.lastBranch_mem s i) f (Tree.mem_ofKind.mp listed).2.1 linked).2
    rw [once listed linked, once listedToo (same ▸ linked)]
  · refine (List.nodup_map_iff_inj_on (nodup .ifBranch)).mpr fun i listed j listedToo same => ?_
    obtain ⟨-, opens, present⟩ := Tree.mem_ofKind.mp listed
    obtain ⟨-, opensToo, presentToo⟩ := Tree.mem_ofKind.mp listedToo
    exact accepted.lastBranch_injective opens present opensToo presentToo (Option.some.inj same)
  · rw [List.mem_map, List.mem_map]
    constructor
    · rintro ⟨f, listed, rfl⟩
      obtain ⟨i, opens, present, linked⟩ := closes listed
      exact ⟨i, Tree.mem_ofKind.mpr ⟨Tree.lt_size_of_kind_ne_code (by rw [opens]; decide), opens,
        present⟩, linked.symm⟩
    · rintro ⟨i, listed, rfl⟩
      obtain ⟨-, opens, present⟩ := Tree.mem_ofKind.mp listed
      obtain ⟨e, endif, linked, -⟩ := accepted.exists_endif opens present
      have inside := Tree.lt_size_of_parent linked
      have line : e ≠ 0 := by
        rintro rfl
        rw [accepted.overlays.kind_root] at endif
        cases endif
      have presentToo := (accepted.existsOn_iff_linked inside line s).mpr (by rw [linked]; rfl)
      exact ⟨e, Tree.mem_ofKind.mpr ⟨inside, endif, presentToo⟩, linked⟩

end Accepted

end Patch

end Variability
