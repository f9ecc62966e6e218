import Mathlib.Data.List.Perm.Subperm
import Mathlib.Data.List.Nodup
import Mathlib.Logic.Relation
import Variability.Proofs.Tree.Nodes
import Variability.Tree.Path

/-!
Upward walks. A walk that ends meets no node twice, so it ends within as many steps as there are
nodes or never. In trees whose parents stand before their children every walk ends: there each node
has a lineage, and the lineage of a node is the node on top of the lineage of its parent.
-/

namespace Variability.Tree

/-- Every parent stands before its children. -/
def ParentsFirst (t : Tree) : Prop :=
  ∀ s i p, t.parent s i = some p → p < i

/-- A node is another one or stands above it on a side. -/
def Above (t : Tree) (s : Side) (i j : Nat) : Prop :=
  Relation.ReflTransGen (fun c p => t.parent s c = some p) i j

/-- A node or one above it has different parents before and after the edit. -/
def Moved (t : Tree) (i : Nat) : Prop :=
  ∃ s j, t.Above s i j ∧ t.parent .before j ≠ t.parent .after j

theorem moved_of_ne {t : Tree} {i : Nat} (different : t.parent .before i ≠ t.parent .after i) :
    t.Moved i :=
  ⟨.before, i, .refl, different⟩

theorem not_moved_of_unlinked {t : Tree} {i : Nat} (unlinked : ∀ s, t.parent s i = none) :
    ¬ t.Moved i := by
  rintro ⟨s, j, above, different⟩
  rcases Relation.ReflTransGen.cases_head above with rfl | ⟨p, linked, -⟩
  · rw [unlinked, unlinked] at different
    exact different rfl
  · rw [unlinked] at linked
    cases linked

theorem moved_iff_of_parent {t : Tree} {i p : Nat} (linked : ∀ s, t.parent s i = some p) :
    t.Moved i ↔ t.Moved p := by
  constructor
  · rintro ⟨s, j, above, different⟩
    rcases Relation.ReflTransGen.cases_head above with rfl | ⟨q, linked', above⟩
    · rw [linked, linked] at different
      exact absurd rfl different
    · obtain rfl : p = q := Option.some.inj ((linked s).symm.trans linked')
      exact ⟨s, j, above, different⟩
  · rintro ⟨s, j, above, different⟩
    exact ⟨s, j, .head (linked s) above, different⟩

theorem lt_size_of_parent {t : Tree} {s : Side} {i p : Nat} (linked : t.parent s i = some p) :
    i < t.size := by
  rcases Nat.lt_or_ge i t.size with inside | outside
  · exact inside
  · rw [parent_of_size_le outside] at linked
    simp at linked

theorem climb?_of_parent_none {t : Tree} {s : Side} {i : Nat} (unlinked : t.parent s i = none)
    (steps : Nat) : t.climb? s steps i = some [i] := by
  unfold climb?
  simp [unlinked]

theorem climb?_succ_of_parent {t : Tree} {s : Side} {i p : Nat} (linked : t.parent s i = some p)
    (steps : Nat) : t.climb? s (steps + 1) i = (t.climb? s steps p).map (i :: ·) := by
  rw [climb?]
  simp [linked]

/-- A walk that ends is over at once, or goes on from the parent. -/
theorem climb?_cases {t : Tree} {s : Side} {steps i : Nat} {chain : List Nat}
    (ends : t.climb? s steps i = some chain) :
    (t.parent s i = none ∧ chain = [i]) ∨
      ∃ k p above, steps = k + 1 ∧ t.parent s i = some p ∧ t.climb? s k p = some above ∧
        chain = i :: above := by
  cases linked : t.parent s i with
  | none =>
      rw [climb?_of_parent_none linked] at ends
      exact .inl ⟨rfl, (Option.some.inj ends).symm⟩
  | some p =>
      cases steps with
      | zero =>
          unfold climb? at ends
          simp [linked] at ends
      | succ k =>
          rw [climb?_succ_of_parent linked] at ends
          obtain ⟨above, hAbove, rfl⟩ := Option.map_eq_some_iff.mp ends
          exact .inr ⟨k, p, above, rfl, rfl, hAbove, rfl⟩

theorem exists_cons_of_climb? {t : Tree} {s : Side} {steps i : Nat} {chain : List Nat}
    (ends : t.climb? s steps i = some chain) : ∃ above, chain = i :: above := by
  rcases climb?_cases ends with ⟨-, rfl⟩ | ⟨k, p, above, -, -, -, rfl⟩
  · exact ⟨[], rfl⟩
  · exact ⟨above, rfl⟩

theorem climb?_mono {t : Tree} {s : Side} {steps more i : Nat} {chain : List Nat}
    (ends : t.climb? s steps i = some chain) (enough : steps ≤ more) :
    t.climb? s more i = some chain := by
  induction steps generalizing i more chain with
  | zero =>
      rcases climb?_cases ends with ⟨linked, rfl⟩ | ⟨k, p, above, impossible, -⟩
      · exact climb?_of_parent_none linked more
      · cases impossible
  | succ steps ih =>
      rcases climb?_cases ends with ⟨linked, rfl⟩ | ⟨k, p, above, same, linked, hAbove, rfl⟩
      · exact climb?_of_parent_none linked more
      · obtain rfl := Nat.succ.inj same
        obtain ⟨more, rfl⟩ : ∃ k, more = k + 1 := ⟨more - 1, by omega⟩
        rw [climb?_succ_of_parent linked, ih hAbove (by omega), Option.map_some]

theorem climb?_of_suffix {t : Tree} {s : Side} {steps i j : Nat} {chain above : List Nat}
    (ends : t.climb? s steps i = some chain) (suffix : (j :: above) <:+ chain) :
    t.climb? s steps j = some (j :: above) := by
  induction steps generalizing i chain with
  | zero =>
      rcases climb?_cases ends with ⟨linked, rfl⟩ | ⟨k, p, rest, impossible, -⟩
      · obtain ⟨rfl, rfl⟩ : j = i ∧ above = [] := by simpa [List.suffix_cons_iff] using suffix
        exact ends
      · cases impossible
  | succ steps ih =>
      rcases climb?_cases ends with ⟨linked, rfl⟩ | ⟨k, p, rest, same, linked, hRest, rfl⟩
      · obtain ⟨rfl, rfl⟩ : j = i ∧ above = [] := by simpa [List.suffix_cons_iff] using suffix
        exact ends
      · obtain rfl := Nat.succ.inj same
        rcases List.suffix_cons_iff.mp suffix with whole | short
        · obtain ⟨rfl, rfl⟩ := List.cons.inj whole
          exact ends
        · exact climb?_mono (ih hRest short) (Nat.le_succ steps)

theorem lineage?_of_suffix {t : Tree} {s : Side} {i j : Nat} {chain above : List Nat}
    (lineage : t.lineage? s i = some chain) (suffix : (j :: above) <:+ chain) :
    t.lineage? s j = some (j :: above) :=
  climb?_of_suffix lineage suffix

theorem eq_of_climb? {t : Tree} {s : Side} {steps more i : Nat} {chain other : List Nat}
    (ends : t.climb? s steps i = some chain) (endsToo : t.climb? s more i = some other) :
    chain = other := by
  have reached := climb?_mono ends (Nat.le_add_right steps more)
  have reachedToo := climb?_mono endsToo (Nat.le_add_left more steps)
  exact Option.some.inj (reached.symm.trans reachedToo)

/-- A walk that ends meets no node twice. -/
theorem nodup_of_climb? {t : Tree} {s : Side} {steps i : Nat} {chain : List Nat}
    (ends : t.climb? s steps i = some chain) : chain.Nodup := by
  induction steps generalizing i chain with
  | zero =>
      rcases climb?_cases ends with ⟨-, rfl⟩ | ⟨k, p, above, impossible, -⟩
      · exact List.nodup_singleton i
      · cases impossible
  | succ steps ih =>
      rcases climb?_cases ends with ⟨-, rfl⟩ | ⟨k, p, above, same, linked, hAbove, rfl⟩
      · exact List.nodup_singleton i
      · obtain rfl := Nat.succ.inj same
        refine List.nodup_cons.mpr ⟨fun again => ?_, ih hAbove⟩
        -- a second visit would end the walk after fewer nodes
        obtain ⟨front, rest, rfl⟩ := List.append_of_mem again
        have shorter := climb?_of_suffix hAbove (List.suffix_append front (i :: rest))
        have same := congrArg List.length (eq_of_climb? ends shorter)
        simp only [List.length_cons, List.length_append] at same
        omega

theorem lt_size_of_mem_dropLast_climb? {t : Tree} {s : Side} {steps i j : Nat} {chain : List Nat}
    (ends : t.climb? s steps i = some chain) (member : j ∈ chain.dropLast) : j < t.size := by
  induction steps generalizing i chain with
  | zero =>
      rcases climb?_cases ends with ⟨-, rfl⟩ | ⟨k, p, above, impossible, -⟩
      · simp at member
      · cases impossible
  | succ steps ih =>
      rcases climb?_cases ends with ⟨-, rfl⟩ | ⟨k, p, above, same, linked, hAbove, rfl⟩
      · simp at member
      · obtain rfl := Nat.succ.inj same
        obtain ⟨higher, rfl⟩ := exists_cons_of_climb? hAbove
        rw [List.dropLast_cons_of_ne_nil (List.cons_ne_nil p higher)] at member
        rcases List.mem_cons.mp member with rfl | further
        · exact lt_size_of_parent linked
        · exact ih hAbove further

theorem climb?_of_length_le {t : Tree} {s : Side} {steps more i : Nat} {chain : List Nat}
    (ends : t.climb? s steps i = some chain) (enough : chain.length ≤ more + 1) :
    t.climb? s more i = some chain := by
  induction steps generalizing i more chain with
  | zero => exact climb?_mono ends (Nat.zero_le more)
  | succ steps ih =>
      rcases climb?_cases ends with ⟨unlinked, rfl⟩ | ⟨k, p, above, same, linked, hAbove, rfl⟩
      · exact climb?_of_parent_none unlinked more
      · obtain rfl := Nat.succ.inj same
        obtain ⟨higher, rfl⟩ := exists_cons_of_climb? hAbove
        rw [List.length_cons, List.length_cons] at enough
        obtain ⟨more, rfl⟩ : ∃ k, more = k + 1 := ⟨more - 1, by omega⟩
        rw [climb?_succ_of_parent linked, ih hAbove (by rw [List.length_cons]; omega),
          Option.map_some]

/-- As many steps as there are nodes suffice for every walk that ends at all. -/
theorem lineage?_of_climb? {t : Tree} {s : Side} {steps i : Nat} {chain : List Nat}
    (ends : t.climb? s steps i = some chain) : t.lineage? s i = some chain := by
  have inside : chain.dropLast ⊆ List.range t.size := fun j member =>
    List.mem_range.mpr (lt_size_of_mem_dropLast_climb? ends member)
  have nodup := (nodup_of_climb? ends).sublist (List.dropLast_sublist chain)
  have fewer := (nodup.subperm inside).length_le
  rw [List.length_dropLast, List.length_range] at fewer
  exact climb?_of_length_le ends (by omega)

/-- Where the walk up from a node never ends, there is a parent to go on from, and the walk from
there does not end either. -/
theorem exists_parent_of_lineage?_none {t : Tree} {s : Side} {i : Nat}
    (endless : t.lineage? s i = none) : ∃ p, t.parent s i = some p ∧ t.lineage? s p = none := by
  cases linked : t.parent s i with
  | none =>
      rw [lineage?, climb?_of_parent_none linked] at endless
      cases endless
  | some p =>
      refine ⟨p, rfl, ?_⟩
      cases above : t.lineage? s p with
      | none => rfl
      | some chain =>
          have ends : t.climb? s (t.size + 1) i = some (i :: chain) := by
            rw [climb?_succ_of_parent linked, ← lineage?, above, Option.map_some]
          rw [lineage?_of_climb? ends] at endless
          cases endless

theorem exists_lineage_cons {t : Tree} {s : Side} {i : Nat} {chain : List Nat}
    (lineage : t.lineage? s i = some chain) : ∃ above, chain = i :: above :=
  exists_cons_of_climb? lineage

namespace ParentsFirst

variable {t : Tree} (ordered : t.ParentsFirst)
include ordered

/-- What holds of the nodes without a parent and passes from a parent to its children holds of
every node. -/
theorem ascend {motive : Nat → Prop} (s : Side)
    (top : ∀ i, t.parent s i = none → motive i)
    (step : ∀ i p, t.parent s i = some p → motive p → motive i) (i : Nat) : motive i := by
  induction i using Nat.strongRecOn with
  | ind i ih =>
      cases linked : t.parent s i with
      | none => exact top i linked
      | some p => exact step i p linked (ih p (ordered s i p linked))

theorem climb?_isSome (s : Side) {i steps : Nat} (enough : i ≤ steps) :
    (t.climb? s steps i).isSome := by
  induction steps generalizing i with
  | zero =>
      cases linked : t.parent s i with
      | none => simp [climb?_of_parent_none linked]
      | some p =>
          have := ordered s i p linked
          omega
  | succ steps ih =>
      cases linked : t.parent s i with
      | none => simp [climb?_of_parent_none linked]
      | some p =>
          have := ordered s i p linked
          rw [climb?_succ_of_parent linked, Option.isSome_map]
          exact ih (by omega)

theorem lineage?_of_parent {s : Side} {i p : Nat} (linked : t.parent s i = some p) :
    t.lineage? s i = (t.lineage? s p).map (i :: ·) := by
  have below := ordered s i p linked
  have inside := lt_size_of_parent linked
  obtain ⟨steps, hSteps⟩ : ∃ k, t.size = k + 1 := ⟨t.size - 1, by omega⟩
  have enough : p ≤ steps := by omega
  obtain ⟨chain, hChain⟩ := Option.isSome_iff_exists.mp (climb?_isSome ordered s enough)
  rw [lineage?, lineage?, hSteps, climb?_succ_of_parent linked, hChain,
    climb?_mono hChain (Nat.le_succ steps)]

theorem exists_lineage (s : Side) (i : Nat) : ∃ chain, t.lineage? s i = some chain := by
  refine ascend ordered (motive := fun i => ∃ chain, t.lineage? s i = some chain) s ?_ ?_ i
  · intro i unlinked
    exact ⟨[i], climb?_of_parent_none unlinked _⟩
  · rintro i p linked ⟨chain, hChain⟩
    exact ⟨i :: chain, by rw [lineage?_of_parent ordered linked, hChain, Option.map_some]⟩

theorem parent_of_lineage {s : Side} {i p : Nat} {above : List Nat}
    (lineage : t.lineage? s i = some (i :: p :: above)) :
    t.parent s i = some p ∧ t.lineage? s p = some (p :: above) := by
  cases linked : t.parent s i with
  | none =>
      rw [lineage?, climb?_of_parent_none linked] at lineage
      cases lineage
  | some q =>
      rw [lineage?_of_parent ordered linked] at lineage
      obtain ⟨chain, lineageAbove, same⟩ := Option.map_eq_some_iff.mp lineage
      obtain ⟨rest, rfl⟩ := exists_lineage_cons lineageAbove
      obtain ⟨-, rfl, rfl⟩ : i = i ∧ q = p ∧ rest = above := by simpa using same
      exact ⟨rfl, lineageAbove⟩

theorem unmovedWithin_eq {i steps more : Nat} (enough : i < steps) (enoughToo : i < more) :
    t.unmovedWithin steps i = t.unmovedWithin more i := by
  induction steps generalizing i more with
  | zero => omega
  | succ steps ih =>
      obtain ⟨more, rfl⟩ : ∃ k, more = k + 1 := ⟨more - 1, by omega⟩
      rw [unmovedWithin, unmovedWithin]
      split
      · cases linked : t.parent .before i with
        | none => rfl
        | some p =>
            have := ordered .before i p linked
            exact ih (by omega) (by omega)
      · rfl

theorem unmoved_eq {i : Nat} (inside : i < t.size) :
    t.unmoved i = (decide (t.parent .before i = t.parent .after i) &&
      (t.parent .before i).all t.unmoved) := by
  rw [unmoved, unmovedWithin]
  by_cases same : t.parent .before i = t.parent .after i
  · rw [if_pos same]
    cases linked : t.parent .before i with
    | none =>
        rw [linked] at same
        simp [← same]
    | some p =>
        have := ordered .before i p linked
        rw [linked] at same
        simp only [← same, decide_true, Option.all_some, Bool.true_and]
        exact unmovedWithin_eq ordered (by omega) (by omega)
  · rw [if_neg same]
    simp [same]

theorem unmoved_iff {i : Nat} (inside : i < t.size) : t.unmoved i ↔ ¬ t.Moved i := by
  refine ascend ordered (motive := fun i => i < t.size → (t.unmoved i ↔ ¬ t.Moved i)) .before
    ?_ ?_ i inside
  · intro i unlinked inside
    rw [unmoved_eq ordered inside, unlinked]
    by_cases same : none = t.parent .after i
    · have moved := not_moved_of_unlinked (t := t) (i := i) (by rintro (_ | _) <;> simp [*])
      simp [← same, moved]
    · simp [same, moved_of_ne (unlinked ▸ same)]
  · intro i p linked ih inside
    have below := ordered .before i p linked
    rw [unmoved_eq ordered inside, linked]
    by_cases same : some p = t.parent .after i
    · rw [moved_iff_of_parent (p := p) (by rintro (_ | _) <;> simp [*]),
        ← ih (Nat.lt_trans below inside)]
      simp [← same]
    · simp [same, moved_of_ne (linked ▸ same)]

end ParentsFirst

theorem eq_or_parent_of_mem_climb? {t : Tree} {s : Side} {steps i j : Nat} {chain : List Nat}
    (ends : t.climb? s steps i = some chain) (member : j ∈ chain) :
    j = i ∨ ∃ c, t.parent s c = some j := by
  induction steps generalizing i chain with
  | zero =>
      rcases climb?_cases ends with ⟨-, rfl⟩ | ⟨k, p, above, impossible, -⟩
      · exact .inl (List.mem_singleton.mp member)
      · cases impossible
  | succ steps ih =>
      rcases climb?_cases ends with ⟨-, rfl⟩ | ⟨k, p, above, same, linked, hAbove, rfl⟩
      · exact .inl (List.mem_singleton.mp member)
      · obtain rfl := Nat.succ.inj same
        rcases List.mem_cons.mp member with here | higher
        · exact .inl here
        · rcases ih hAbove higher with rfl | owner
          · exact .inr ⟨i, linked⟩
          · exact .inr owner

theorem eq_or_parent_of_mem_lineage {t : Tree} {s : Side} {i j : Nat} {chain : List Nat}
    (lineage : t.lineage? s i = some chain) (member : j ∈ chain) :
    j = i ∨ ∃ c, t.parent s c = some j :=
  eq_or_parent_of_mem_climb? lineage member

theorem lineage?_of_parent_none {t : Tree} {s : Side} {i : Nat} (unlinked : t.parent s i = none) :
    t.lineage? s i = some [i] :=
  climb?_of_parent_none unlinked _

end Variability.Tree
