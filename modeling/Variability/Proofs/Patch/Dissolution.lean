import Variability.Proofs.Patch.Preprocessor
import Variability.Proofs.Tree.Union

/-!
Presence conditions in graphs. A tree that is dissolved keeps all nodes but the root and all links
among them; a top-level node has no parent then, so it is not known any more which branches of its
conditional come before it.
-/

namespace Variability

namespace Patch

namespace Accepted

variable {t : Tree} {es : List Entry} (accepted : Accepted es t)
include accepted

theorem wellFormed : t.WellFormed :=
  Tree.firstFlaw?_eq_none_iff_wellFormed.mp
    (accepted.overlays.firstFlaw?_eq_none fun e member => (accepted.proper e member).line)

theorem sound : t.Sound where
  ordered := accepted.overlays.parentsFirst
  inside := fun child => Tree.lt_size_of_parent (accepted.overlays.mem_children.mp child)
  guarded := accepted.guarded

theorem kind_eq_root_iff {i : Nat} : (t.node i).kind = .root ↔ i = 0 := by
  constructor
  · intro kind
    rcases Nat.eq_zero_or_pos i with root | positive
    · exact root
    · exact absurd kind (accepted.overlays.kind_ne_root
        (fun e member => (accepted.proper e member).line) (by omega))
  · rintro rfl
    exact accepted.overlays.kind_root

theorem existsOn_iff_linked {i : Nat} (inside : i < t.size) (line : i ≠ 0) (s : Side) :
    (t.node i).existsOn s ↔ (t.parent s i).isSome :=
  accepted.overlays.existsOn_iff_linked (fun e member => (accepted.proper e member).line) inside
    line s

theorem exists_opening {s : Side} {i : Nat} (present : (t.node i).existsOn s)
    (further : (t.node i).kind = .elifBranch ∨ (t.node i).kind = .elseBranch) :
    ∃ b ∈ t.rivals s i, (t.node b).kind = .ifBranch := by
  induction i using Nat.strongRecOn with
  | ind i ih =>
      obtain ⟨k, e, rfl, lookup⟩ := accepted.exists_directive (i := i)
        (by rcases further with kind | kind <;> rw [kind] <;> decide)
        (by rcases further with kind | kind <;> rw [kind] <;> decide)
      rw [accepted.overlays.kind_entry lookup] at further
      rw [accepted.overlays.existsOn_entry lookup] at present
      have noRoot : e.kind ≠ .root := accepted.line lookup
      obtain ⟨b, outer, opened, continued, rivals⟩ := accepted.exists_continued lookup
        (s := s) (by simpa [noRoot] using present) further
      rw [rivals]
      rcases continued with kind | kind
      · exact ⟨b, by simp, kind⟩
      · have member : b ∈ openBranches s (es.take k) := by simp [opened]
        have below : b < k + 1 := by
          have := le_of_mem_openBranches member
          have := List.length_take_le k es
          omega
        have owner := (accepted.overlays.split k).owner (.inr member)
        obtain ⟨c, earlier, opens⟩ := ih b below owner.1 (.inl kind)
        exact ⟨c, List.mem_cons_of_mem b earlier, opens⟩

/-- A relation that passes from branch to branch holds between a node and the branches before it, if
it holds between entries and the branches that are open where they stand. -/
theorem rival_induction {s : Side} {motive : Nat → Nat → Prop}
    (opened : ∀ {k b : Nat} {e : Entry}, es[k]? = some e → b ∈ openBranches s (es.take k) →
      motive (k + 1) b)
    (trans : ∀ {i b c : Nat}, motive i b → motive b c → motive i c) {i b : Nat}
    (present : (t.node i).existsOn s) (rival : b ∈ t.rivals s i) : motive i b := by
  induction i using Nat.strongRecOn generalizing b with
  | ind i ih =>
      have further := Tree.further_of_mem_rivals rival
      obtain ⟨k, e, rfl, lookup⟩ := accepted.exists_directive (i := i)
        (by rcases further with kind | kind <;> rw [kind] <;> decide)
        (by rcases further with kind | kind <;> rw [kind] <;> decide)
      rw [accepted.overlays.kind_entry lookup] at further
      rw [accepted.overlays.existsOn_entry lookup] at present
      obtain ⟨c, outer, innermost, -, rivals⟩ := accepted.exists_continued lookup
        (s := s) (by simpa [accepted.line lookup] using present) further
      have member : c ∈ openBranches s (es.take k) := by simp [innermost]
      have own := opened lookup member
      rw [rivals] at rival
      rcases List.mem_cons.mp rival with rfl | rival
      · exact own
      · have below := le_of_mem_openBranches member
        have length := List.length_take_le k es
        have owner := (accepted.overlays.split k).owner (.inr member)
        exact trans own (ih c (by omega) owner.1 rival)

theorem lt_of_mem_rivals {s : Side} {i b : Nat} (present : (t.node i).existsOn s)
    (rival : b ∈ t.rivals s i) : b < i := by
  refine accepted.rival_induction (motive := fun i b => b < i) (fun {k b e} _ member => ?_)
    (fun first second => Nat.lt_trans second first) present rival
  have below := le_of_mem_openBranches member
  have length := List.length_take_le k es
  omega

/-- Where the nodes above a node and the branches before it have places with it, its presence
condition is the same at its place. -/
theorem presenceCondition_place {u : Tree} {s d : Side} {place : Nat → Option Nat}
    (embeds : t.SideEmbeds s u d place) (ordered : u.ParentsFirst)
    (above : ∀ {c p}, (place c).isSome → t.parent s c = some p → (place p).isSome)
    (beside : ∀ {c b}, (place c).isSome → (t.node c).existsOn s → b ∈ t.rivals s c →
      (place b).isSome) {i j : Nat} (placed : place i = some j) (present : (t.node i).existsOn s) :
    u.presenceCondition d j = t.presenceCondition s i := by
  obtain ⟨chain, lineage⟩ := accepted.overlays.parentsFirst.exists_lineage s i
  have presentChain : ∀ k ∈ chain, (t.node k).existsOn s := fun k member =>
    accepted.overlays.existsOn_of_mem_lineage present lineage member
  have stay : ∀ k ∈ chain, (place k).isSome := by
    have ordered := accepted.overlays.parentsFirst
    have closed := ordered.ascend (motive := fun i => ∀ chain, (place i).isSome →
      t.lineage? s i = some chain → ∀ k ∈ chain, (place k).isSome) s ?_ ?_ i
    · exact closed chain (Option.isSome_of_eq_some placed) lineage
    · intro i unlinked chain placed lineage
      rw [Tree.lineage?_of_parent_none unlinked, Option.some.injEq] at lineage
      simpa [← lineage] using placed
    · intro i p linked ih chain placed lineage
      rw [ordered.lineage?_of_parent linked] at lineage
      obtain ⟨rest, lineageAbove, rfl⟩ := Option.map_eq_some_iff.mp lineage
      exact List.forall_mem_cons.mpr ⟨placed, ih rest (above placed linked) lineageAbove⟩
  refine embeds.presenceCondition accepted.overlays.parentsFirst ordered accepted.guarded placed
    lineage stay presentChain ?_
    fun k member b rival => beside (stay k member) (presentChain k member) rival
  intro k member l placedToo
  have own := stay k member
  refine embeds.rivals placedToo (fun p linked => above own linked) fun further => ?_
  obtain ⟨b, rival, opens⟩ := accepted.exists_opening (presentChain k member) further
  exact ⟨b, rival, opens, beside own (presentChain k member) rival⟩

theorem isSome_place_rivals {place : Nat → Option Nat}
    (others : ∀ i, 0 < i → i < t.size → (place i).isSome) {s : Side} {i b : Nat}
    (member : b ∈ t.rivals s i) : (place b).isSome := by
  have guarded := Tree.hasGuard_of_mem_rivals member
  refine others b (Nat.pos_of_ne_zero ?_) (Tree.lt_size_of_hasGuard guarded)
  rintro rfl
  rw [accepted.overlays.kind_root] at guarded
  cases guarded

section Dissolved

variable {t' : Tree} {place : Nat → Option Nat} (embeds : t.Embeds t' place)
  (others : ∀ i, 0 < i → i < t.size → (place i).isSome)
include embeds

omit accepted in
/-- Of a top-level node whose root is gone only its own guard is left. -/
theorem admits_top (root : place 0 = none) {s : Side} {i j : Nat} (linked : t.parent s i = some 0)
    (placed : place i = some j) :
    t'.parent s j = none ∧
      ∀ env, t'.admits env s j = (!(t.node i).kind.hasGuard || t.holds env i) := by
  have unlinked : t'.parent s j = none := by
    rw [embeds.parent placed, linked]
    exact root
  have alone : t'.rivals s j = [] := by
    unfold Tree.rivals Tree.earlierBranches
    rw [unlinked]
    split <;> rfl
  refine ⟨unlinked, fun env => ?_⟩
  rw [Tree.admits, alone, embeds.kind placed, (embeds.onSide s).holds placed, List.all_nil,
    Bool.and_true]

include others

/-- Below the top level nodes keep their siblings, and with them what they admit. -/
theorem admits_below {s : Side} {i j p : Nat} (present : (t.node i).existsOn s)
    (linked : t.parent s i = some p) (notRoot : 0 < p) (placed : place i = some j) :
    (∃ q, place p = some q ∧ t'.parent s j = some q) ∧
      ∀ env, t'.admits env s j = t.admits env s i := by
  have inside := Nat.lt_trans (accepted.overlays.parentsFirst s i p linked)
    (Tree.lt_size_of_parent linked)
  obtain ⟨q, placedAbove⟩ := Option.isSome_iff_exists.mp (others p notRoot inside)
  have rivals : t'.rivals s j = (t.rivals s i).filterMap place := by
    refine (embeds.onSide s).rivals placed (fun p' linkedToo => ?_) fun further => ?_
    · obtain rfl : p = p' := Option.some.inj (linked.symm.trans linkedToo)
      rw [placedAbove, Option.isSome_some]
    · obtain ⟨b, member, opens⟩ := accepted.exists_opening present further
      exact ⟨b, member, opens, accepted.isSome_place_rivals others member⟩
  have found (c : Nat) : c ∈ t'.rivals s j ↔ ∃ b ∈ t.rivals s i, place b = some c := by
    rw [rivals, List.mem_filterMap]
  have all : (t.rivals s i).filter (place · |>.isSome) = t.rivals s i :=
    List.filter_eq_self.mpr fun b member => accepted.isSome_place_rivals others member
  refine ⟨⟨q, placedAbove, ?_⟩, fun env => ?_⟩
  · rw [embeds.parent placed, linked]
    exact placedAbove
  · rw [(embeds.onSide s).admits placed found, all, Tree.admits]

theorem dissolved (ordered' : t'.ParentsFirst) (root : place 0 = none) {s : Side}
    {below : List Nat} {top : Nat} {i j : Nat} (present : (t.node i).existsOn s)
    (lineage : t.lineage? s i = some (below ++ [top, 0])) (placed : place i = some j) :
    ∃ chain, t'.lineage? s j = some chain ∧ (∀ k ∈ chain, (t'.node k).existsOn s) ∧
      ∀ env, chain.all (t'.admits env s) =
        (below.all (t.admits env s) && (!(t.node top).kind.hasGuard || t.holds env top)) := by
  have ordered := accepted.overlays.parentsFirst
  induction below generalizing i j with
  | nil =>
      obtain ⟨above, same⟩ := Tree.exists_lineage_cons lineage
      obtain ⟨rfl, -⟩ := List.cons.inj same
      obtain ⟨linked, -⟩ := ordered.parent_of_lineage lineage
      obtain ⟨unlinked, admits⟩ := admits_top embeds root linked placed
      refine ⟨[j], Tree.lineage?_of_parent_none unlinked, ?_, fun env => ?_⟩
      · simpa [embeds.existsOn placed] using present
      · simp [admits env]
  | cons k below ih =>
      obtain ⟨above, same⟩ := Tree.exists_lineage_cons lineage
      obtain ⟨rfl, -⟩ := List.cons.inj same
      obtain ⟨p, rest, hAbove⟩ : ∃ p rest, below ++ [top, 0] = p :: rest := by
        cases below <;> simp
      rw [List.cons_append, hAbove] at lineage
      obtain ⟨linked, lineageAbove⟩ := ordered.parent_of_lineage lineage
      rw [← hAbove] at lineageAbove
      have notRoot : 0 < p := by
        rcases Nat.eq_zero_or_pos p with rfl | positive
        · rw [Tree.lineage?_of_parent_none (accepted.overlays.parent_root s)] at lineageAbove
          have := congrArg List.length (Option.some.inj lineageAbove)
          simp at this
        · exact positive
      obtain ⟨⟨q, placedAbove, linked'⟩, admits⟩ :=
        accepted.admits_below embeds others present linked notRoot placed
      obtain ⟨chain, lineage', presentChain, meaning⟩ :=
        ih (accepted.overlays.parent_owns linked).1 lineageAbove placedAbove
      refine ⟨j :: chain, ?_, ?_, fun env => ?_⟩
      · rw [ordered'.lineage?_of_parent linked', lineage']
        rfl
      · simpa [embeds.existsOn placed] using ⟨present, presentChain⟩
      · rw [List.all_cons, meaning, admits env, List.all_cons, Bool.and_assoc]

end Dissolved

theorem exists_top {s : Side} {i : Nat} (inside : i < t.size) (line : i ≠ 0)
    (present : (t.node i).existsOn s) :
    ∃ below top, t.lineage? s i = some (below ++ [top, 0]) := by
  obtain ⟨k, e, rfl, lookup⟩ := accepted.overlays.lookup inside line
  rw [accepted.overlays.existsOn_entry lookup] at present
  have noRoot : e.kind ≠ .root := accepted.line lookup
  rw [accepted.overlays.lineage_entry lookup (by simpa [noRoot] using present)]
  obtain ⟨below, top, last⟩ := (List.eq_nil_or_concat
    ((k + 1) :: e.around (openBranches s (es.take k)))).resolve_left (by simp)
  rw [last]
  exact ⟨below, top, by simp⟩

theorem place?_of_pos {i : Nat} (positive : 0 < i) (inside : i < t.size) :
    t.place? (fun _ n => n.kind ≠ .root) i = some (i - 1) := by
  have stays {k : Nat} (inside : k < t.size) :
      t.stays (fun _ n => n.kind ≠ .root) k = decide (0 < k) := by
    simp [Tree.stays, inside, accepted.kind_eq_root_iff, Nat.pos_iff_ne_zero]
  have rank : ∀ k, k < t.size → Tree.rank (t.stays fun _ n => n.kind ≠ .root) k = k - 1 := by
    intro k inside
    induction k with
    | zero => rfl
    | succ k ih =>
        rw [Tree.rank_succ, ih (by omega), stays (by omega)]
        rcases Nat.eq_zero_or_pos k with rfl | positive
        · rfl
        · simp only [positive, decide_true, if_true]
          omega
  rw [Tree.place?_eq_some_iff, stays inside, rank i inside]
  exact ⟨by simpa using positive, rfl⟩

theorem embeds_toGraph :
    t.Embeds t.toGraph (t.place? fun _ n => n.kind ≠ .root) := by
  have embeds := t.embeds_restrict fun _ n => n.kind ≠ .root
  unfold Tree.toGraph
  rw [accepted.overlays.shape]
  exact ⟨embeds.ordered, embeds.content, embeds.parent, embeds.children⟩

theorem place?_root : t.place? (fun _ n => n.kind ≠ .root) 0 = none := by
  simp [Tree.place?, Tree.stays, accepted.overlays.kind_root]

theorem lt_size_toGraph {i : Nat} (positive : 0 < i) (inside : i < t.size) :
    i - 1 < t.toGraph.size := by
  have size : t.toGraph.size = (t.restrict fun _ n => n.kind ≠ .root).size := by
    unfold Tree.toGraph
    rw [accepted.overlays.shape]
    rfl
  have placed := accepted.place?_of_pos positive inside
  rw [Tree.place?_eq_some_iff] at placed
  rw [size, Tree.size_restrict, ← placed.2]
  exact Tree.rank_lt placed.1 inside

theorem exists_condition_dissolved (o : Oracle) {g : Tree} (sound : g.Sound)
    {place : Nat → Option Nat} (embeds : t.Embeds g place) (root : place 0 = none)
    (others : ∀ i, 0 < i → i < t.size → (place i).isSome) {s : Side} {below : List Nat}
    {top i j : Nat} (present : (t.node i).existsOn s)
    (lineage : t.lineage? s i = some (below ++ [top, 0])) (placed : place i = some j) :
    ∃ f, (⟨g, o⟩ : Analysis).condition s j = .ok f ∧
      ∀ env, f.eval env =
        (below.all (t.admits env s) && (!(t.node top).kind.hasGuard || t.holds env top)) := by
  obtain ⟨chain, lineage', presentChain, meaning⟩ :=
    accepted.dissolved embeds others sound.ordered root present lineage placed
  obtain ⟨f, condition, meaning'⟩ :=
    Analysis.exists_condition (a := ⟨g, o⟩) sound.guarded lineage' presentChain
  exact ⟨f, condition, fun env => (meaning' env).trans (meaning env)⟩

theorem exists_condition_commitGraph (o : Oracle) {before after : List Tree}
    (others : ∀ u ∈ before ++ after, u.Sound) (commit : String) {s : Side} {below : List Nat}
    {top i : Nat} (positive : 0 < i) (inside : i < t.size) (present : (t.node i).existsOn s)
    (lineage : t.lineage? s i = some (below ++ [top, 0])) :
    ((Tree.commitGraph commit (before ++ t :: after)).node
        ((Tree.commitGraph commit before).size + (i - 1))).content = (t.node i).content ∧
      ∃ f, (⟨Tree.commitGraph commit (before ++ t :: after), o⟩ : Analysis).condition s
          ((Tree.commitGraph commit before).size + (i - 1)) = .ok f ∧
        ∀ env, f.eval env =
          (below.all (t.admits env s) && (!(t.node top).kind.hasGuard || t.holds env top)) := by
  have all : ∀ u ∈ before ++ t :: after, u.Sound := by
    intro u member
    simp only [List.mem_append, List.mem_cons] at member
    rcases member with member | rfl | member
    · exact others u (List.mem_append_left _ member)
    · exact accepted.sound
    · exact others u (List.mem_append_right _ member)
  have embeds :=
    accepted.embeds_toGraph.trans (accepted.sound.embeds_commitGraph others commit)
  have placed {k : Nat} (above : 0 < k) (below : k < t.size) :
      (t.place? (fun _ n => n.kind ≠ .root) k).bind
        (t.toGraph.shifted (Tree.commitGraph commit before).size) =
          some ((Tree.commitGraph commit before).size + (k - 1)) := by
    rw [accepted.place?_of_pos above below, Option.bind_some, Tree.shifted,
      if_pos (accepted.lt_size_toGraph above below)]
  refine ⟨embeds.content (placed positive inside), ?_⟩
  exact accepted.exists_condition_dissolved o (Tree.Sound.commitGraph all commit) embeds
    (by rw [accepted.place?_root]; rfl) (fun k above below => by rw [placed above below]; rfl)
    present lineage (placed positive inside)

end Accepted

/-- Dissolving the root, in the graph of one file or of a whole commit, keeps the presence
condition of a line except for one part: that the branches before the top-level branch which the
line is in do not hold. So conditions stay equivalent exactly when that follows from what is
left. -/
theorem presence_toGraph_iff {text path commit : String} {t : Tree}
    (parsed : parse text path commit = .ok (.ok t)) (o : Oracle) {s : Side} {i : Nat}
    (inside : i < t.size) (present : (t.node i).existsOn s) (line : (t.node i).kind ≠ .root) :
    ∃ below top f g, t.lineage? s i = some (below ++ [top, 0]) ∧
      (⟨t, o⟩ : Analysis).condition s i = .ok f ∧
      (t.toGraph.node (i - 1)).content = (t.node i).content ∧
      (⟨t.toGraph, o⟩ : Analysis).condition s (i - 1) = .ok g ∧
      (∀ commit' before after,
        (∀ u ∈ before ++ after, ∃ text path commit, parse text path commit = .ok (.ok u)) →
        ((Tree.commitGraph commit' (before ++ t :: after)).node
            ((Tree.commitGraph commit' before).size + (i - 1))).content = (t.node i).content ∧
        ∃ h, (⟨Tree.commitGraph commit' (before ++ t :: after), o⟩ : Analysis).condition s
            ((Tree.commitGraph commit' before).size + (i - 1)) = .ok h ∧
          ∀ env, h.eval env = g.eval env) ∧
      (∀ env, f.eval env = (g.eval env && (t.rivals s top).all (!t.holds env ·))) ∧
      ((∀ env, f.eval env = g.eval env) ↔
        ∀ env, g.eval env → ∀ b ∈ t.rivals s top, ¬ t.holds env b) := by
  have accepted := accepted_of_parse parsed
  have notRoot : i ≠ 0 := mt accepted.kind_eq_root_iff.mpr line
  have positive : 0 < i := Nat.pos_of_ne_zero notRoot
  obtain ⟨below, top, lineage⟩ := accepted.exists_top inside notRoot present
  obtain ⟨f, condition, meaning⟩ := accepted.exists_condition o present lineage
  have placed := accepted.place?_of_pos positive inside
  obtain ⟨g, conditionGraph, meaningGraph⟩ := accepted.exists_condition_dissolved o
    accepted.sound.toGraph accepted.embeds_toGraph accepted.place?_root
    (fun k above below => by rw [accepted.place?_of_pos above below]; rfl) present lineage placed
  have root (env : String → Bool) : t.admits env s 0 = true := by
    simp [Tree.admits, Tree.rivals, accepted.overlays.kind_root, NodeKind.hasGuard]
  have split (env : String → Bool) :
      f.eval env = (g.eval env && (t.rivals s top).all (!t.holds env ·)) := by
    rw [meaning, meaningGraph, List.all_append, List.all_cons, List.all_cons, List.all_nil, root,
      Bool.and_true, Bool.and_true, Tree.admits, Bool.and_assoc]
  refine ⟨below, top, f, g, lineage, condition, accepted.embeds_toGraph.content placed,
    conditionGraph, ?_, split, Tree.forall_eval_eq_iff split⟩
  · intro commit' before after others
    have sound : ∀ u ∈ before ++ after, u.Sound := by
      intro u member
      obtain ⟨text, path, commit, parsed⟩ := others u member
      exact (accepted_of_parse parsed).sound
    obtain ⟨content, h, conditionAll, meaningAll⟩ :=
      accepted.exists_condition_commitGraph o sound commit' positive inside present lineage
    exact ⟨content, h, conditionAll, fun env => (meaningAll env).trans (meaningGraph env).symm⟩

theorem presence_toGraph_iff_else :
    ∃ t f g, parse " #if A\n a\n #else\n b\n #endif\n" "f" "c" = .ok (.ok t) ∧
      (⟨t, .bounded 16⟩ : Analysis).condition .before 4 = .ok f ∧
      (⟨t.toGraph, .bounded 16⟩ : Analysis).condition .before 3 = .ok g ∧
      ∀ env, f.eval env = (g.eval env && !t.holds env 1) := by
  have parses : parsesTo " #if A\n a\n #else\n b\n #endif\n" "f" "c" (fun t =>
      decide (4 < t.size) && (t.node 4).existsOn .before && (t.node 4).kind = .code &&
        t.lineage? .before 4 = some [4, 3, 0] && t.rivals .before 3 = [1]) := by decide +kernel
  obtain ⟨t, parsed, facts⟩ := exists_of_parsesTo parses
  simp only [Bool.and_eq_true, decide_eq_true_eq] at facts
  obtain ⟨⟨⟨⟨inside, present⟩, code⟩, lineage⟩, rivals⟩ := facts
  obtain ⟨below, top, f, g, lineage', condition, -, conditionGraph, -, split, -⟩ :=
    presence_toGraph_iff parsed (.bounded 16) inside present (by simp [code])
  rw [lineage] at lineage'
  obtain ⟨-, same⟩ := List.append_inj' (Option.some.inj lineage' : [4] ++ [3, 0] = _) rfl
  obtain ⟨rfl, -⟩ := List.cons.inj same
  refine ⟨t, f, g, parsed, condition, conditionGraph, fun env => ?_⟩
  rw [split env, rivals]
  simp

theorem not_presence_toGraph :
    ∃ t f g, parse " #if A\n a\n #else\n b\n #endif\n" "f" "c" = .ok (.ok t) ∧
      (t.node 4).kind = .code ∧ (t.node 4).existsOn .before ∧
      (t.toGraph.node 3).bare = (t.node 4).bare ∧
      (⟨t, .bounded 16⟩ : Analysis).condition .before 4 = .ok f ∧
      (⟨t.toGraph, .bounded 16⟩ : Analysis).condition .before 3 = .ok g ∧
      ∃ env, f.eval env ≠ g.eval env := by
  have parses : parsesTo " #if A\n a\n #else\n b\n #endif\n" "f" "c" (fun t =>
      (t.node 4).kind = .code && (t.node 4).existsOn .before &&
        (t.toGraph.node 3).bare = (t.node 4).bare &&
        (⟨t, .bounded 16⟩ : Analysis).condition .before 4 = .ok (.not (.var "A")) &&
        (⟨t.toGraph, .bounded 16⟩ : Analysis).condition .before 3 = .ok .tt) := by decide +kernel
  obtain ⟨t, parsed, facts⟩ := exists_of_parsesTo parses
  simp only [Bool.and_eq_true, decide_eq_true_eq] at facts
  obtain ⟨⟨⟨⟨code, present⟩, bare⟩, condition⟩, conditionGraph⟩ := facts
  exact ⟨t, _, _, parsed, code, present, bare, condition, conditionGraph,
    ⟨fun _ => true, by decide⟩⟩

end Patch

end Variability
