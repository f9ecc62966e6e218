import Variability.Proofs.Patch.Conditional
import Variability.Proofs.Patch.Cut
import Variability.Proofs.Tree.Survivors

/-!
Conditionals after the cut. An `endif` stays with the last branch of its conditional, so what
becomes of a conditional depends on its first and its last branch alone: where both stay or both go
it stays balanced, where only one of them stays it does not.
-/

namespace Variability

namespace Tree

/-- Of the branches of a conditional that the cut keeps one owns an `endif`, and only one. -/
def StaysClosed (t : Tree) (s : Side) (i : Nat) : Prop :=
  ∃! b, b ∈ (t.conditional s i).filterMap t.cutPlace? ∧
    ∃ e ∈ t.cutUnedited.children s b, (t.cutUnedited.node e).kind = .endif

variable {t : Tree}

theorem ofKind_cut (t : Tree) (s : Side) (kind : NodeKind) :
    t.cutUnedited.ofKind s kind = (t.ofKind s kind).filterMap t.cutPlace? := by
  rw [ofKind, ofKind, cutUnedited]
  refine positions_restrict fun i j placed => ?_
  rw [(t.embeds_restrict _).kind placed, (t.embeds_restrict _).existsOn placed]

theorem length_ofKind_cut (t : Tree) (s : Side) (kind : NodeKind) :
    (t.cutUnedited.ofKind s kind).length =
      (t.ofKind s kind).countP (t.cutPlace? · |>.isSome) := by
  rw [ofKind_cut, List.length_filterMap_eq_countP]

end Tree

namespace Patch

private theorem countP_add_countP {α : Type} (p q : α → Bool) (l : List α) :
    l.countP p + l.countP (fun a => !p a && q a) = l.countP q + l.countP fun a => p a && !q a := by
  induction l with
  | nil => rfl
  | cons a l ih =>
      simp only [List.countP_cons]
      cases p a <;> cases q a <;> simp <;> omega

namespace Accepted

variable {t : Tree} {es : List Entry} (accepted : Accepted es t) {s : Side}
include accepted

/-- An `endif` stays when the branch above it does. -/
theorem isSome_cutPlace?_endif {e b : Nat} (endif : (t.node e).kind = .endif)
    (linked : t.parent s e = some b) : (t.cutPlace? e).isSome = (t.cutPlace? b).isSome := by
  rw [Bool.eq_iff_iff]
  constructor
  · intro stays
    obtain ⟨j, placed⟩ := Option.isSome_iff_exists.mp stays
    exact accepted.linked.grounded.isSome_cutPlace?_of_parent placed linked
  · intro stays
    exact accepted.wellFormed.isSome_cutPlace?_iff.mpr (.inr ⟨endif, s, b, linked, stays⟩)

theorem staysClosed_iff {i : Nat} (opens : (t.node i).kind = .ifBranch)
    (present : (t.node i).existsOn s) :
    t.StaysClosed s i ↔ (t.cutPlace? (t.lastBranch s i)).isSome := by
  obtain ⟨e, endif, linked, only⟩ := accepted.exists_endif opens present
  -- an `endif` below a branch that stays comes from the one of the conditional
  have origin {c j f : Nat} (member : c ∈ t.conditional s i) (placed : t.cutPlace? c = some j)
      (child : f ∈ t.cutUnedited.children s j) (kind : (t.cutUnedited.node f).kind = .endif) :
      c = t.lastBranch s i := by
    rw [t.embeds_cut.children placed] at child
    obtain ⟨g, below, placedBelow⟩ := List.mem_filterMap.mp child
    rw [t.embeds_cut.kind placedBelow] at kind
    exact (only c member g kind (accepted.overlays.mem_children.mp below)).1
  constructor
  · rintro ⟨j, ⟨member, f, child, kind⟩, -⟩
    obtain ⟨c, member, placed⟩ := List.mem_filterMap.mp member
    rw [← origin member placed child kind, placed]
    rfl
  · intro stays
    obtain ⟨j, placed⟩ := Option.isSome_iff_exists.mp stays
    obtain ⟨k, placedBelow⟩ := Option.isSome_iff_exists.mp
      ((accepted.isSome_cutPlace?_endif endif linked).trans stays)
    refine ⟨j, ⟨List.mem_filterMap.mpr ⟨_, t.lastBranch_mem s i, placed⟩, k, ?_, ?_⟩, ?_⟩
    · rw [t.embeds_cut.children placed]
      exact List.mem_filterMap.mpr
        ⟨e, accepted.overlays.mem_children.mpr linked, placedBelow⟩
    · rw [t.embeds_cut.kind placedBelow, endif]
    · rintro l ⟨member, f, child, kind⟩
      obtain ⟨c, member, placedToo⟩ := List.mem_filterMap.mp member
      rw [origin member placedToo child kind, placed] at placedToo
      exact (Option.some.inj placedToo).symm

/-- As many `endif`s stay as last branches do. -/
theorem length_ofKind_endif_cut (s : Side) :
    (t.cutUnedited.ofKind s .endif).length =
      (t.ofKind s .ifBranch).countP fun i => (t.cutPlace? (t.lastBranch s i)).isSome := by
  let stays (p? : Option Nat) : Bool := p?.any (t.cutPlace? · |>.isSome)
  have above : ∀ e ∈ t.ofKind s .endif, (t.cutPlace? e).isSome ↔ stays (t.parent s e) := by
    intro e listed
    obtain ⟨inside, endif, present⟩ := Tree.mem_ofKind.mp listed
    have line : e ≠ 0 := by
      rintro rfl
      rw [accepted.overlays.kind_root] at endif
      cases endif
    obtain ⟨b, linked⟩ := Option.isSome_iff_exists.mp
      ((accepted.existsOn_iff_linked inside line s).mp present)
    rw [accepted.isSome_cutPlace?_endif endif linked, linked]
    rfl
  calc (t.cutUnedited.ofKind s .endif).length
    _ = (t.ofKind s .endif).countP (t.cutPlace? · |>.isSome) := t.length_ofKind_cut s .endif
    _ = (t.ofKind s .endif).countP fun e => stays (t.parent s e) := List.countP_congr above
    _ = ((t.ofKind s .endif).map (t.parent s)).countP stays := by rw [List.countP_map]; rfl
    _ = ((t.ofKind s .ifBranch).map fun i => some (t.lastBranch s i)).countP stays :=
      (accepted.perm_lastBranch s).countP_eq stays
    _ = (t.ofKind s .ifBranch).countP fun i => (t.cutPlace? (t.lastBranch s i)).isSome := by
      rw [List.countP_map]
      rfl

end Accepted

/-- What the cut makes of conditionals. It keeps a branch that leads to a change, and leaves a
conditional closed when its last branch leads to one. So on each side there are as many `if`s
left as `endif`s, up to the conditionals of which only the last branch stays and those of which only
the `if` does; and every `if` that is left is closed, with as many `endif`s as `if`s on both sides,
exactly when for every conditional the `if` leads to a change as soon as the last branch does, and
the other way round. -/
theorem cutUnedited_balanced_iff {text path commit : String} {t : Tree}
    (parsed : parse text path commit = .ok (.ok t)) :
    (∀ j < t.cutUnedited.size, t.cutPlace? (t.cutUnedited.node j).id = some j) ∧
    (∀ s, ∀ i ∈ t.ofKind s .ifBranch,
      ((t.cutPlace? i).isSome ↔ t.LeadsToChange i) ∧
        ((t.cutPlace? (t.lastBranch s i)).isSome ↔ t.LeadsToChange (t.lastBranch s i)) ∧
        (t.StaysClosed s i ↔ t.LeadsToChange (t.lastBranch s i))) ∧
    (∀ s, (t.cutUnedited.ofKind s .ifBranch).length +
        ((t.ofKind s .ifBranch).countP fun i =>
          !(t.cutPlace? i).isSome && (t.cutPlace? (t.lastBranch s i)).isSome) =
      (t.cutUnedited.ofKind s .endif).length +
        (t.ofKind s .ifBranch).countP fun i =>
          (t.cutPlace? i).isSome && !(t.cutPlace? (t.lastBranch s i)).isSome) ∧
    ((∀ s, (∀ i ∈ t.ofKind s .ifBranch, (t.cutPlace? i).isSome → t.StaysClosed s i) ∧
        (t.cutUnedited.ofKind s .ifBranch).length = (t.cutUnedited.ofKind s .endif).length) ↔
      ∀ s, ∀ i ∈ t.ofKind s .ifBranch,
        t.LeadsToChange i ↔ t.LeadsToChange (t.lastBranch s i)) := by
  have accepted := accepted_of_parse parsed
  have kept {s : Side} {i b : Nat} (listed : i ∈ t.ofKind s .ifBranch)
      (member : b ∈ t.conditional s i) : (t.cutPlace? b).isSome ↔ t.LeadsToChange b :=
    accepted.wellFormed.isSome_cutPlace?_iff_leads
      (Tree.kind_ne_endif_of_mem_conditional (Tree.mem_ofKind.mp listed).2.1 member)
  have closed {s : Side} {i : Nat} (listed : i ∈ t.ofKind s .ifBranch) :
      t.StaysClosed s i ↔ (t.cutPlace? (t.lastBranch s i)).isSome :=
    accepted.staysClosed_iff (Tree.mem_ofKind.mp listed).2.1 (Tree.mem_ofKind.mp listed).2.2
  have counts (s : Side) := countP_add_countP (fun i => (t.cutPlace? i).isSome)
    (fun i => (t.cutPlace? (t.lastBranch s i)).isSome) (t.ofKind s .ifBranch)
  simp only [← accepted.length_ofKind_endif_cut, ← Tree.length_ofKind_cut] at counts
  refine ⟨fun j inside => ?_,
    fun s i listed => ⟨kept listed List.mem_cons_self, kept listed (t.lastBranch_mem s i),
      (closed listed).trans (kept listed (t.lastBranch_mem s i))⟩,
    counts, ?_⟩
  · obtain ⟨i, placed⟩ := t.exists_place_restrict (fun i _ => t.editedMarks.has i) inside
    rw [Tree.id_cut placed, accepted.overlays.id_eq (Tree.lt_size_of_cutPlace? placed).1]
    exact placed
  refine forall_congr' fun s => ?_
  have count := counts s
  constructor
  · rintro ⟨closes, balanced⟩ i listed
    rw [← kept listed List.mem_cons_self, ← kept listed (t.lastBranch_mem s i)]
    have onlyFirst : ((t.ofKind s .ifBranch).countP fun i =>
        (t.cutPlace? i).isSome && !(t.cutPlace? (t.lastBranch s i)).isSome) = 0 := by
      rw [List.countP_eq_zero]
      intro i listed both
      rw [Bool.and_eq_true] at both
      simp [(closed listed).mp (closes i listed both.1)] at both
    have onlyLast : ((t.ofKind s .ifBranch).countP fun i =>
        !(t.cutPlace? i).isSome && (t.cutPlace? (t.lastBranch s i)).isSome) = 0 := by
      omega
    have here := List.countP_eq_zero.mp onlyFirst i listed
    have hereToo := List.countP_eq_zero.mp onlyLast i listed
    cases first : (t.cutPlace? i).isSome <;>
      cases last : (t.cutPlace? (t.lastBranch s i)).isSome <;> simp_all
  · intro together
    have same : ∀ i ∈ t.ofKind s .ifBranch,
        ((t.cutPlace? i).isSome ↔ (t.cutPlace? (t.lastBranch s i)).isSome) := by
      intro i listed
      rw [kept listed List.mem_cons_self, kept listed (t.lastBranch_mem s i)]
      exact together i listed
    refine ⟨fun i listed stays => (closed listed).mpr ((same i listed).mp stays), ?_⟩
    rw [Tree.length_ofKind_cut, accepted.length_ofKind_endif_cut]
    exact List.countP_congr same

theorem cutUnedited_balanced_iff_else :
    ∃ t, parse " #if A\n-a\n #else\n+b\n #endif\n" "f" "c" = .ok (.ok t) ∧
      t.lastBranch .after 1 = 3 ∧ t.StaysClosed .after 1 := by
  have parses : parsesTo " #if A\n-a\n #else\n+b\n #endif\n" "f" "c" (fun t =>
      t.lastBranch .after 1 = 3 && decide (1 ∈ t.ofKind .after .ifBranch) &&
        (t.node 4).edit ≠ .kept && t.parent .after 4 = some 3) := by decide +kernel
  obtain ⟨t, parsed, facts⟩ := exists_of_parsesTo parses
  simp only [Bool.and_eq_true, decide_eq_true_eq] at facts
  obtain ⟨⟨⟨last, listed⟩, edited⟩, linked⟩ := facts
  obtain ⟨-, kept, -⟩ := cutUnedited_balanced_iff parsed
  refine ⟨t, parsed, last, (kept .after 1 listed).2.2.mpr ?_⟩
  rw [last]
  exact .inr ⟨.after, 4, .inl edited, .single linked⟩

theorem not_cutUnedited_balanced :
    ∃ t, parse " #if A\n+a\n #else\n b\n #endif\n" "f" "c" = .ok (.ok t) ∧
      t.ofKind .after .ifBranch = [1] ∧ (t.cutPlace? 1).isSome ∧ ¬ t.StaysClosed .after 1 ∧
      t.cutUnedited.ofKind .after .ifBranch = [1] ∧ t.cutUnedited.ofKind .after .endif = [] := by
  have parses : parsesTo " #if A\n+a\n #else\n b\n #endif\n" "f" "c" (fun t =>
      t.ofKind .after .ifBranch = [1] && (t.cutPlace? 1).isSome &&
        t.cutUnedited.nodes.all (·.kind ≠ .endif) &&
        t.cutUnedited.ofKind .after .ifBranch = [1] &&
        t.cutUnedited.ofKind .after .endif = []) := by decide +kernel
  obtain ⟨t, parsed, facts⟩ := exists_of_parsesTo parses
  simp only [Bool.and_eq_true, decide_eq_true_eq] at facts
  obtain ⟨⟨⟨⟨opens, stays⟩, none⟩, openings⟩, endings⟩ := facts
  refine ⟨t, parsed, opens, stays, ?_, openings, endings⟩
  rintro ⟨b, ⟨-, e, -, endif⟩, -⟩
  have inside := Tree.lt_size_of_kind_ne_code (t := t.cutUnedited) (i := e) (by rw [endif]; decide)
  have other := Array.all_eq_true_iff_forall_mem.mp none _ (Tree.mem_nodes.mpr ⟨e, inside, rfl⟩)
  exact absurd endif (of_decide_eq_true other)

end Patch

end Variability
