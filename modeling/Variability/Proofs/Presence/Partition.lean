import Variability.Proofs.Presence.Conversation
import Variability.Proofs.Presence.Verdict

/-!
The elementary patterns as parts. A line falls under one of them, and every pattern but the last
accepts just the lines that fall under it. No line is accepted by two, and two that cannot decide
fail in the same way, so a line is classified alike in whatever order they are tried.
-/

namespace Variability

namespace LineView

variable {v : LineView} {o : Oracle}

/-- The pattern that a line falls under. -/
def verdict (v : LineView) (o : Oracle) : Except MatchError EditPattern :=
  match v.edit with
  | .added => .ok (if v.parentEdit .after = some .added then .addWithMapping else .addToPC)
  | .removed => .ok (if v.parentEdit .before = some .removed then .remWithMapping else .remFromPC)
  | .kept => (v.relation o).map (patternOf · v.unmoved)

theorem acceptsRelation_eq {p : EditPattern} (kept : p.edit = .kept) (named : p ≠ .untouched)
    (r : Relation) (unmoved : Bool) :
    p.acceptsRelation r unmoved = decide (patternOf r unmoved = p) := by
  obtain ⟨first, second⟩ := r
  cases p with
  | untouched => exact absurd rfl named
  | addToPC | addWithMapping | remFromPC | remWithMapping => cases kept
  | specialization | generalization | reconfiguration | refactoring =>
      cases first <;> cases second <;> cases unmoved <;> rfl

/-- A pattern, unless it accepts everything, accepts the lines of its edit that fall under it. -/
theorem accepts_eq {p : EditPattern} (named : p ≠ .untouched) :
    v.accepts o p =
      if v.edit = p.edit then (v.verdict o).map (decide <| · = p) else .ok false := by
  unfold accepts
  by_cases same : v.edit = p.edit
  · rw [if_neg (not_not.mpr same), if_pos same, verdict, same]
    cases p with
    | addToPC | addWithMapping =>
        by_cases branch : v.parentEdit .after = some .added <;>
          simp [branch, EditPattern.edit, Except.map]
    | remFromPC | remWithMapping =>
        by_cases branch : v.parentEdit .before = some .removed <;>
          simp [branch, EditPattern.edit, Except.map]
    | untouched => exact absurd rfl named
    | specialization | generalization | reconfiguration | refactoring =>
        cases relation : v.relation o with
        | error e => rfl
        | ok r => exact congrArg Except.ok (acceptsRelation_eq rfl named r v.unmoved)
  · rw [if_pos same, if_neg same]

theorem verdict_of_accepts {p : EditPattern} (named : p ≠ .untouched)
    (accepted : v.accepts o p = .ok true) : v.verdict o = .ok p := by
  rw [accepts_eq named] at accepted
  split at accepted
  · cases fallen : v.verdict o with
    | error e =>
        rw [fallen] at accepted
        cases accepted
    | ok q =>
        rw [fallen] at accepted
        rw [of_decide_eq_true (Except.ok.inj accepted)]
  · cases accepted

theorem edit_of_verdict {p : EditPattern} (fallen : v.verdict o = .ok p) : p.edit = v.edit := by
  unfold verdict at fallen
  cases edit : v.edit with
  | added | removed =>
      simp only [edit, Except.ok.injEq] at fallen
      subst fallen
      split <;> rfl
  | kept =>
      simp only [edit] at fallen
      cases relation : v.relation o with
      | error e =>
          rw [relation] at fallen
          cases fallen
      | ok r =>
          rw [relation] at fallen
          obtain rfl := Except.ok.inj fallen
          obtain ⟨first, second⟩ := r
          cases first <;> cases second <;> cases v.unmoved <;> rfl

theorem accepts_iff_verdict {p : EditPattern} (named : p ≠ .untouched) :
    v.accepts o p = .ok true ↔ v.verdict o = .ok p := by
  refine ⟨verdict_of_accepts named, fun fallen => ?_⟩
  rw [accepts_eq named, if_pos (edit_of_verdict fallen).symm, fallen]
  simp [Except.map]

theorem exists_condition {r : Relation} (related : v.relation o = .ok r) (s : Side) :
    ∃ f, v.condition s = .ok f := by
  unfold relation Oracle.relationOf at related
  cases before : v.condition .before with
  | error e =>
      rw [before] at related
      cases related
  | ok f =>
      cases after : v.condition .after with
      | error e =>
          rw [before, after] at related
          cases related
      | ok g =>
          cases s with
          | before => exact ⟨f, before⟩
          | after => exact ⟨g, after⟩

theorem classify_of_relation {r : Relation} (code : v.kind = .code) (kept : v.edit = .kept)
    (related : v.relation o = .ok r) :
    ∃ found, v.classify o EditPattern.elementary = .ok found ∧ v.verdict o = .ok found.pattern := by
  obtain ⟨f, before⟩ := exists_condition related .before
  obtain ⟨g, after⟩ := exists_condition related .after
  obtain ⟨found, classified, pattern⟩ := classify_kept code kept before after related
  refine ⟨found, classified, ?_⟩
  rw [pattern, verdict, kept, related]
  rfl

/-! Order. -/

/-- Of two patterns it does not matter which is tried first. -/
def Independent (v : LineView) (o : Oracle) (p q : EditPattern) : Prop :=
  p = q ∨ v.accepts o p = .ok false ∨ v.accepts o q = .ok false ∨
    ∃ e, v.accepts o p = .error e ∧ v.accepts o q = .error e

theorem independent_of_named {p q : EditPattern} (named : p ≠ .untouched)
    (namedToo : q ≠ .untouched) : v.Independent o p q := by
  have either {p : EditPattern} (named : p ≠ .untouched) : v.accepts o p = .ok false ∨
      v.accepts o p = (v.verdict o).map (decide <| · = p) := by
    rw [accepts_eq named]
    split
    · exact .inr rfl
    · exact .inl rfl
  -- two patterns of the edit of the line fail alike or are both compared with its verdict
  rcases either named with no | first
  · exact .inr (.inl no)
  rcases either namedToo with no | second
  · exact .inr (.inr (.inl no))
  cases fallen : v.verdict o with
  | error e => exact .inr (.inr (.inr ⟨e, by rw [first, fallen]; rfl, by rw [second, fallen]; rfl⟩))
  | ok w =>
      rw [fallen] at first second
      by_cases own : w = p
      · by_cases ownToo : w = q
        · exact .inl (own.symm.trans ownToo)
        · exact .inr (.inr (.inl (by rw [second, Except.map, decide_eq_false ownToo])))
      · exact .inr (.inl (by rw [first, Except.map, decide_eq_false own]))

theorem firstMatch_of_false {p : EditPattern} (no : v.accepts o p = .ok false)
    (ps : List EditPattern) : v.firstMatch o (p :: ps) = v.firstMatch o ps := by
  rw [firstMatch, no]
  rfl

theorem firstMatch_of_error {p : EditPattern} {e : MatchError} (failed : v.accepts o p = .error e)
    (ps : List EditPattern) : v.firstMatch o (p :: ps) = .error e := by
  rw [firstMatch, failed]
  rfl

theorem firstMatch_cons_congr (p : EditPattern) {ps qs : List EditPattern}
    (same : v.firstMatch o ps = v.firstMatch o qs) :
    v.firstMatch o (p :: ps) = v.firstMatch o (p :: qs) := by
  rw [firstMatch, firstMatch, same]

theorem firstMatch_swap {p q : EditPattern} (independent : v.Independent o p q)
    (ps : List EditPattern) : v.firstMatch o (p :: q :: ps) = v.firstMatch o (q :: p :: ps) := by
  rcases independent with rfl | no | no | ⟨e, failed, failedToo⟩
  · rfl
  · rw [firstMatch_of_false no]
    exact firstMatch_cons_congr q (firstMatch_of_false no ps).symm
  · rw [firstMatch_of_false no]
    exact firstMatch_cons_congr p (firstMatch_of_false no ps)
  · rw [firstMatch_of_error failed, firstMatch_of_error failedToo]

theorem firstMatch_perm {ps qs : List EditPattern} (perm : ps.Perm qs)
    (independent : ∀ p ∈ ps, ∀ q ∈ ps, v.Independent o p q) (rest : List EditPattern) :
    v.firstMatch o (ps ++ rest) = v.firstMatch o (qs ++ rest) := by
  induction perm with
  | nil => rfl
  | cons p perm ih =>
      refine firstMatch_cons_congr p (ih fun q member r memberToo => ?_)
      exact independent q (List.mem_cons_of_mem p member) r (List.mem_cons_of_mem p memberToo)
  | swap p q ps => exact firstMatch_swap (independent q (by simp) p (by simp)) (ps ++ rest)
  | trans first second ih ihToo =>
      refine (ih independent).trans (ihToo fun p member q memberToo => ?_)
      exact independent p (first.mem_iff.mpr member) q (first.mem_iff.mpr memberToo)

theorem classify_perm {ps qs : List EditPattern} (perm : ps.Perm qs) (named : .untouched ∉ ps)
    (rest : List EditPattern) : v.classify o (ps ++ rest) = v.classify o (qs ++ rest) := by
  have other {p : EditPattern} (member : p ∈ ps) : p ≠ .untouched := fun same =>
    named (same ▸ member)
  rw [classify, classify, firstMatch_perm perm fun p member q memberToo =>
    independent_of_named (other member) (other memberToo)]

end LineView

namespace Analysis

open Query

/-- The answer to a question that comes after some calls. -/
def answerAfter {ε α : Type} (a : Analysis) (calls : List Call) (q : Query ε α) : Except ε α :=
  q.answerIn ((a.replies calls).run (.blank a.tree.size)).2

theorem agrees_after (a : Analysis) (calls : List Call) {m : Memory} (agrees : m.Agrees a) :
    (((a.replies calls).run m).2).Agrees a := by
  induction calls generalizing m with
  | nil => exact agrees
  | cons c calls ih => exact ih ((reply_steady c).holds_after agrees)

theorem answerAfter_eq {ε α : Type} {a : Analysis} {q : Query ε α} {r : Except ε α}
    (answers : Answers (Memory.Agrees a) q r) (calls : List Call) : a.answerAfter calls q = r :=
  answers.answerIn_eq (a.agrees_after calls (Memory.agrees_blank a a.tree.size))

/-- The elementary patterns partition the lines of code. Whatever was asked before, at most one
pattern but the last accepts a line, exactly one accepts a line that was added or removed, a kept
line whose relation can be had is classified by the one that accepts it and else by the last, and
the order of the others does not matter. -/
theorem elementary_partition (a : Analysis) (calls : List Call) (i : Nat) :
    ((a.tree.node i).kind = .code →
      (∀ p q, p ≠ .untouched → q ≠ .untouched →
        a.answerAfter calls (a.accepts p i) = .ok true →
        a.answerAfter calls (a.accepts q i) = .ok true → p = q) ∧
      ((a.tree.node i).edit ≠ .kept →
        ∃ p, p ≠ .untouched ∧ a.answerAfter calls (a.accepts p i) = .ok true) ∧
      ((a.tree.node i).edit = .kept → ∀ r, a.answerAfter calls (a.relation i) = .ok r →
        ∃ found, a.answerAfter calls (a.classify EditPattern.elementary i) = .ok found ∧
          ∀ p, p ≠ .untouched →
            (a.answerAfter calls (a.accepts p i) = .ok true ↔ found.pattern = p))) ∧
    ∀ others ps, ps.Perm EditPattern.elementary.dropLast →
      a.answerAfter others (a.classify (ps ++ [.untouched]) i) =
        a.answerAfter calls (a.classify EditPattern.elementary i) := by
  -- what was asked before shows nowhere, so all is about the line as the tree has it
  have accepts (p : EditPattern) : a.answerAfter calls (a.accepts p i) =
      (a.tree.view i).accepts a.oracle p := answerAfter_eq (accepts_answers p i) calls
  have classify (calls : List Call) (catalog : List EditPattern) :
      a.answerAfter calls (a.classify catalog i) = (a.tree.view i).classify a.oracle catalog :=
    answerAfter_eq (classify_answers catalog i) calls
  have relation : a.answerAfter calls (a.relation i) = (a.tree.view i).relation a.oracle :=
    answerAfter_eq (relation_answers i) calls
  simp only [accepts, classify, relation]
  generalize view : a.tree.view i = v
  have kind : (a.tree.node i).kind = v.kind := by rw [← view, Tree.view_kind]
  have edit : (a.tree.node i).edit = v.edit := by rw [← view, Tree.view_edit]
  rw [kind, edit]
  refine ⟨fun code => ⟨fun p q named namedToo first second => ?_, fun touched => ?_,
    fun kept r related => ?_⟩, fun others ps perm => ?_⟩
  · have one := LineView.verdict_of_accepts named first
    exact Except.ok.inj (one.symm.trans (LineView.verdict_of_accepts namedToo second))
  · cases fallen : v.verdict a.oracle with
    | error e =>
        unfold LineView.verdict at fallen
        cases edit : v.edit <;> simp_all
    | ok p =>
        have named : p ≠ .untouched := by
          rintro rfl
          exact touched (LineView.edit_of_verdict fallen).symm
        exact ⟨p, named, (LineView.accepts_iff_verdict named).mpr fallen⟩
  · obtain ⟨found, classified, fallen⟩ := LineView.classify_of_relation code kept related
    refine ⟨found, classified, fun p named => ?_⟩
    rw [LineView.accepts_iff_verdict named, fallen, Except.ok.injEq]
  · have named : .untouched ∉ ps := fun member => by
      simpa [EditPattern.elementary] using perm.mem_iff.mp member
    exact LineView.classify_perm perm named [.untouched]

/-- A line that a new branch was put around, tried against the patterns in reverse order. -/
theorem elementary_partition_reverse :
    ∃ (a : Analysis) (i : Nat) (found : PatternMatch), (a.tree.node i).kind = .code ∧
      a.answerAfter [] (a.accepts .specialization i) = .ok true ∧
      found.pattern = .specialization ∧
      a.answerAfter [.relation i]
        (a.classify (EditPattern.elementary.dropLast.reverse ++ [.untouched]) i) = .ok found := by
  let branch : Node := { Node.fresh 1 .ifBranch .added "A" with guard := some (.var "A") }
  let nodes := ((Tree.singleton ⟨"f", "c", none⟩).push branch).push (.fresh 2 .code .kept "x")
  let t := ((nodes.addEdge .after 0 1).addEdge .before 0 2).addEdge .after 1 2
  let a := t.analysis 16
  obtain ⟨parts, ordered⟩ := elementary_partition a [] 2
  have code : (a.tree.node 2).kind = .code := by decide +kernel
  obtain ⟨-, -, kept⟩ := parts code
  have related : a.answerAfter [] (a.relation 2) = .ok ⟨true, false⟩ := by decide +kernel
  have accepted : a.answerAfter [] (a.accepts .specialization 2) = .ok true := by decide +kernel
  obtain ⟨found, classified, accepts⟩ := kept (by decide +kernel) ⟨true, false⟩ related
  have reversed := ordered [.relation 2] _ EditPattern.elementary.dropLast.reverse_perm
  exact ⟨a, 2, found, code, accepted, (accepts .specialization nofun).mp accepted,
    reversed.trans classified⟩

end Analysis

end Variability
