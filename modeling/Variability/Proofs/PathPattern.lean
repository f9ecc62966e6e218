import Variability.DiffFilter
import Variability.Proofs.Regex.Language
import Variability.Proofs.Regex.MirrorGroup

/-!
What path patterns accept. A pattern is put between the start and the end of a path as text. Where
the pattern closes no group that it has not opened, this comes to the same as taking it as a regular
expression of its own that has to match the whole path, and a pattern that is none is refused.
-/

namespace Variability

namespace Regex

/-- An expression between the start and the end of a text. -/
def whole (r : Regex) : Regex :=
  .seq (.look .textStart) (.seq r (.look .textStop))

theorem branchSizes_whole (d : Direction) (r : Regex) : (r.whole.branchSizes d) =
    ((if r = empty then 0 else branchedSize (r.branchSizes d).1 (r.branchSizes d).2) +
      2 * stateSize, 1) := by
  simp [whole, branchSizes, branchedSize, stateSize]
  omega

/-- What stands around an expression takes room too. -/
theorem footprint_le_whole (d : Direction) (r : Regex) : r.footprint d ≤ r.whole.footprint d := by
  have part : branchedSize (r.branchSizes d).1 (r.branchSizes d).2 ≤
      (if r = empty then 0 else branchedSize (r.branchSizes d).1 (r.branchSizes d).2) +
        2 * stateSize := by
    split
    · next nothing =>
      rw [nothing]
      cases d <;> decide
    · exact Nat.le_add_right _ _
  change branchedSize (r.branchSizes d).1 (r.branchSizes d).2 + _ ≤
    branchedSize (r.whole.branchSizes d).1 (r.whole.branchSizes d).2 + _
  rw [branchSizes_whole]
  exact Nat.add_le_add_right part _

theorem fits_of_whole {r : Regex} (fits : r.whole.fits) : r.fits := by
  simp only [Regex.fits, Bool.and_eq_true, decide_eq_true_eq] at fits ⊢
  exact ⟨(footprint_le_whole _ _).trans fits.1, (footprint_le_whole _ _).trans fits.2⟩

theorem matchesIn_whole_iff (r : Regex) (text : List Char) :
    r.whole.matchesIn text ↔ r.Matches text.toArray 0 text.length := by
  have first (i : Nat) (inside : i ≤ text.length) :
      (Look.textStart.holds (before? text.toArray i) text.toArray[i]?) ↔ i = 0 := by
    cases i with
    | zero => simp [Look.holds, before?]
    | succ i =>
        have before : before? text.toArray (i + 1) = some text[i] := by
          simp [before?, List.getElem?_eq_getElem inside]
        simp [Look.holds, before]
  have last (i : Nat) : (Look.textStop.holds (before? text.toArray i) text.toArray[i]?) ↔
      text.length ≤ i := by
    simp [Look.holds]
  rw [matchesIn_iff]
  constructor
  · rintro ⟨i, inside, j, within, _, ⟨start, rfl⟩, k, matched, stop, rfl⟩
    rw [(first _ inside).mp start] at matched
    rw [Nat.le_antisymm within ((last _).mp stop)] at matched
    exact matched
  · intro matched
    exact ⟨0, Nat.zero_le _, text.length, Nat.le_refl _, 0,
      ⟨(first 0 (Nat.zero_le _)).mpr rfl, rfl⟩, text.length, matched,
      (last _).mpr (Nat.le_refl _), rfl⟩

theorem read_eq_ok_iff {text : List Char} {e : Expression} :
    Expression.read text = .ok e ↔
      (∃ t, Reads (readParts (text.length + 1) ⟨.ofOpening none 0, []⟩) (.ofText text) e t) ∧
        e.tooDeep? maxDepth = none := by
  unfold Expression.read Reads
  cases (readParts (text.length + 1) ⟨.ofOpening none 0, []⟩).run (.ofText text) with
  | error p => simp [bind, Except.bind]
  | ok result =>
      obtain ⟨e', t⟩ := result
      simp only [bind, Except.bind]
      cases deep : e'.tooDeep? maxDepth with
      | none =>
          constructor
          · rintro ⟨⟩
            exact ⟨⟨t, rfl⟩, deep⟩
          · rintro ⟨⟨_, ⟨⟩⟩, -⟩
            rfl
      | some span =>
          refine iff_of_false (fun same => ?_) ?_
          · cases same
          · rintro ⟨⟨_, ⟨⟩⟩, shallow⟩
            exact absurd (deep.symm.trans shallow) (by simp)

theorem not_tooDeep_of_enclosed {e : Expression} {stop depth : Nat}
    (shallow : (e.enclosed stop).tooDeep? (depth + 2) = none) : e.tooDeep? (depth + 2) = none := by
  have inner : (e.moved 4).tooDeep? depth = none := by
    simpa [Expression.enclosed, Expression.tooDeep?, Expression.anyTooDeep?] using shallow
  rw [Expression.tooDeep?_moved, Option.map_eq_none_iff] at inner
  exact e.not_tooDeep_succ (e.not_tooDeep_succ inner)

theorem meaning_enclosed {e : Expression} {stop : Nat} {r' : Regex} {f : Flags}
    (means : (e.enclosed stop).meaning .standard = .ok (r', f)) :
    ∃ r g, e.meaning .standard = .ok (r, g) ∧ r' = r.whole := by
  have same := Expression.toOption_meaning_moved 4 .standard e
  have outside : (e.enclosed stop).meaning .standard =
      ((e.moved 4).meaning .standard).map fun p => (p.1.whole, .standard) := by
    simp only [Expression.enclosed, Expression.meaning, Expression.meaningOfAll, Flags.change,
      List.foldl_nil, bind, Except.bind]
    cases (e.moved 4).meaning .standard with
    | error p => rfl
    | ok result => rfl
  rw [outside] at means
  cases inner : (e.moved 4).meaning .standard with
  | error p =>
      rw [inner] at means
      cases means
  | ok result =>
      rw [inner] at means same
      cases alone : e.meaning .standard with
      | error p =>
          rw [alone] at same
          cases same
      | ok result =>
          rw [alone] at same
          cases same
          cases means
          exact ⟨_, _, rfl, rfl⟩

end Regex

namespace PathPattern

open Regex

theorem anchored_eq (text : List Char) :
    anchored text = '^' :: '(' :: '?' :: ':' :: (text ++ closing) := by
  rw [anchored, show "^(?:".toList = ['^', '(', '?', ':'] from by decide,
    show ")$".toList = closing from by decide, List.append_assoc]
  rfl

theorem run_anchored (text : List Char) :
    (readParts ((anchored text).length + 1) ⟨.ofOpening none 0, []⟩).run (.ofText (anchored text)) =
      (readParts (text.length + 1 + 4) (OpenGroups.mk (.ofOpening none 0) []).inside).run
        (Scan.ofText text).inside := by
  have length : (anchored text).length + 1 = text.length + 1 + 4 + 1 + 1 := by
    simp [anchored_eq, closing]
  rw [length, anchored_eq]
  rfl

end PathPattern

namespace Regex

/-- The text is no expression because it closes a group that it has not opened. -/
def ClosesUnopened (text : List Char) : Prop :=
  ∃ p, Expression.read text = .error p ∧ p.cause = .groupUnopened

instance (text : List Char) : Decidable (ClosesUnopened text) :=
  match read : Expression.read text with
  | .ok _ => .isFalse fun ⟨_, refused, _⟩ => by cases read.symm.trans refused
  | .error p => decidable_of_iff (p.cause = .groupUnopened) (by simp [ClosesUnopened, read])

theorem read_anchored {text : List Char} {e : Expression}
    (read : Expression.read (PathPattern.anchored text) = .ok e) :
    (∃ e₀ stop, Expression.read text = .ok e₀ ∧ e = e₀.enclosed stop) ∨ ClosesUnopened text := by
  obtain ⟨⟨t, reads⟩, shallow⟩ := read_eq_ok_iff.mp read
  rw [Reads, PathPattern.run_anchored] at reads
  have outermost : Nested (OpenGroup.ofOpening none 0) [] := rfl
  rcases encloses_readParts (text.length + 1) (g := ⟨.ofOpening none 0, []⟩) outermost
    (Nat.lt_succ_self _) reads with ⟨e₀, u, alone, rfl⟩ | ⟨span, stray⟩
  · exact .inl ⟨e₀, u.position,
      read_eq_ok_iff.mpr ⟨⟨u, alone⟩, not_tooDeep_of_enclosed shallow⟩, rfl⟩
  · refine .inr ⟨⟨.groupUnopened, span, none⟩, ?_, rfl⟩
    unfold Expression.read
    rw [stray]
    rfl

theorem ofText_eq_ok_iff {text : List Char} {r : Regex} :
    Regex.ofText text = .ok r ↔
      ∃ e f, Expression.read text = .ok e ∧ e.meaning .standard = .ok (r, f) ∧ r.fits := by
  unfold Regex.ofText
  cases Expression.read text with
  | error p => simp
  | ok e =>
      dsimp only
      cases means : e.meaning .standard with
      | error p => simp [means]
      | ok result =>
          obtain ⟨r', f⟩ := result
          dsimp only
          split
          · next fits =>
            constructor
            · rintro ⟨⟩
              exact ⟨e, f, rfl, means, fits⟩
            · rintro ⟨_, _, ⟨⟩, same, -⟩
              rw [means] at same
              cases same
              rfl
          · next large =>
            refine iff_of_false (fun same => ?_) ?_
            · cases same
            · rintro ⟨_, _, ⟨⟩, same, fits⟩
              rw [means] at same
              cases same
              exact large fits

/-- A pattern that is taken is an expression of its own, unless it closes a group that it has not
opened. -/
theorem ofText_anchored {text : List Char} {r' : Regex}
    (taken : Regex.ofText (PathPattern.anchored text) = .ok r') :
    (∃ r, Regex.ofText text = .ok r ∧ r' = r.whole) ∨ ClosesUnopened text := by
  obtain ⟨e, f, read, means, fits⟩ := ofText_eq_ok_iff.mp taken
  refine (read_anchored read).imp_left ?_
  rintro ⟨e₀, stop, alone, rfl⟩
  obtain ⟨r, g, meaning, rfl⟩ := meaning_enclosed means
  exact ⟨r, ofText_eq_ok_iff.mpr ⟨e₀, g, alone, meaning, fits_of_whole fits⟩, rfl⟩

end Regex

/-- The text is a regular expression of its own that matches a whole path. -/
def MatchesWhole (text path : String) : Prop :=
  ∃ r, Regex.ofText text.toList = .ok r ∧ r.Matches path.toList.toArray 0 path.toList.length

theorem PathPattern.ofText_eq_ok {text : String} {p : PathPattern}
    (taken : PathPattern.ofText text = .ok p) :
    Regex.ofText (anchored text.toList) = .ok p.regex := by
  unfold PathPattern.ofText at taken
  cases read : Regex.ofText (anchored text.toList) with
  | error e =>
      rw [read] at taken
      cases taken
  | ok r =>
      rw [read] at taken
      cases taken
      rfl

theorem PathPattern.accepts_iff {text : String} {p : PathPattern}
    (taken : PathPattern.ofText text = .ok p) (closed : ¬ Regex.ClosesUnopened text.toList)
    (path : String) : p.accepts path ↔ MatchesWhole text path := by
  rcases Regex.ofText_anchored (PathPattern.ofText_eq_ok taken) with ⟨r, alone, whole⟩ | stray
  · rw [PathPattern.accepts, whole, Regex.matchesIn_whole_iff]
    constructor
    · exact fun matched => ⟨r, alone, matched⟩
    · rintro ⟨r', alone', matched⟩
      cases alone.symm.trans alone'
      exact matched
  · exact absurd stray closed

/-- Patterns that were taken from texts accept what one of the texts matches. -/
theorem PathPattern.exists_accepts_iff {texts : String → Prop} {ps : List PathPattern}
    (members : ∀ p, p ∈ ps ↔ ∃ text, texts text ∧ PathPattern.ofText text = .ok p)
    (taken : ∀ text, texts text → ∃ p, PathPattern.ofText text = .ok p)
    (closed : ∀ text, texts text → ¬ Regex.ClosesUnopened text.toList) (path : String) :
    (∃ p ∈ ps, p.accepts path) ↔ ∃ text, texts text ∧ MatchesWhole text path := by
  constructor
  · rintro ⟨p, member, accepts⟩
    obtain ⟨text, asked, read⟩ := (members p).mp member
    exact ⟨text, asked, (PathPattern.accepts_iff read (closed text asked) path).mp accepts⟩
  · rintro ⟨text, asked, whole⟩
    obtain ⟨p, read⟩ := taken text asked
    exact ⟨p, (members p).mpr ⟨text, asked, read⟩,
      (PathPattern.accepts_iff read (closed text asked) path).mpr whole⟩

/-- A path pattern that is allowed or blocked. -/
inductive PathRule where
  | allow (text : String)
  | block (text : String)
  deriving DecidableEq, Repr

def PathRule.text : PathRule → String
  | allow text | block text => text

namespace DiffFilter

def restrict (f : DiffFilter) : PathRule → Except PathPatternError DiffFilter
  | .allow text => f.allowPath text
  | .block text => f.blockPath text

def restrictAll (f : DiffFilter) (rules : List PathRule) : Except PathPatternError DiffFilter :=
  rules.foldlM restrict f

/-- What a filter has from another one and from rules about paths that were taken. -/
structure Restricted (f : DiffFilter) (rules : List PathRule) (g : DiffFilter) : Prop where
  taken : ∀ rule ∈ rules, ∃ p, PathPattern.ofText rule.text = .ok p
  mem_allowed : ∀ p, p ∈ g.allowedPaths ↔
    p ∈ f.allowedPaths ∨ ∃ text, .allow text ∈ rules ∧ PathPattern.ofText text = .ok p
  mem_blocked : ∀ p, p ∈ g.blockedPaths ↔
    p ∈ f.blockedPaths ∨ ∃ text, .block text ∈ rules ∧ PathPattern.ofText text = .ok p

theorem restricted_nil (f : DiffFilter) : f.Restricted [] f where
  taken := by simp
  mem_allowed := by simp
  mem_blocked := by simp

theorem restricted_of_restrict {f g : DiffFilter} {rule : PathRule}
    (accepted : f.restrict rule = .ok g) : f.Restricted [rule] g := by
  cases rule with
  | allow text =>
      change (PathPattern.ofText text).map _ = .ok g at accepted
      cases read : PathPattern.ofText text with
      | error e => simp [read, Except.map] at accepted
      | ok p =>
          rw [read] at accepted
          cases accepted
          constructor
          · simp [PathRule.text, read]
          · simp [read, eq_comm]
          · simp
  | block text =>
      change (PathPattern.ofText text).map _ = .ok g at accepted
      cases read : PathPattern.ofText text with
      | error e => simp [read, Except.map] at accepted
      | ok p =>
          rw [read] at accepted
          cases accepted
          constructor
          · simp [PathRule.text, read]
          · simp
          · simp [read, eq_comm]

theorem Restricted.append {f g h : DiffFilter} {rules more : List PathRule}
    (first : f.Restricted rules g) (second : g.Restricted more h) :
    f.Restricted (rules ++ more) h where
  taken rule member := (List.mem_append.mp member).elim (first.taken rule) (second.taken rule)
  mem_allowed p := by
    rw [second.mem_allowed, first.mem_allowed]
    simp only [List.mem_append, or_and_right, exists_or, or_assoc]
  mem_blocked p := by
    rw [second.mem_blocked, first.mem_blocked]
    simp only [List.mem_append, or_and_right, exists_or, or_assoc]

theorem restricted_of_restrictAll {f g : DiffFilter} {rules : List PathRule}
    (accepted : f.restrictAll rules = .ok g) : f.Restricted rules g := by
  induction rules generalizing f with
  | nil =>
      cases accepted
      exact restricted_nil _
  | cons rule rules ih =>
      rw [restrictAll, List.foldlM_cons] at accepted
      cases next : f.restrict rule with
      | error e =>
          rw [next] at accepted
          cases accepted
      | ok h =>
          rw [next] at accepted
          exact (restricted_of_restrict next).append (ih accepted)

theorem acceptsPath_iff (f : DiffFilter) (path : String) : f.acceptsPath path ↔
    (∀ p ∈ f.blockedPaths, ¬ p.accepts path) ∧
      (f.allowedPaths = [] ∨ ∃ p ∈ f.allowedPaths, p.accepts path) := by
  simp [acceptsPath, and_comm]

/-- Rules that close no group that they have not opened decide as their texts do. -/
theorem Restricted.acceptsPath_iff {f g : DiffFilter} {rules : List PathRule}
    (restricted : f.Restricted rules g) (unrestricted : f.allowedPaths = [] ∧ f.blockedPaths = [])
    (closed : ∀ rule ∈ rules, ¬ Regex.ClosesUnopened rule.text.toList) (path : String) :
    g.acceptsPath path ↔
      (∀ text, .block text ∈ rules → ¬ MatchesWhole text path) ∧
        ((∀ text, .allow text ∉ rules) ∨ ∃ text, .allow text ∈ rules ∧ MatchesWhole text path) := by
  obtain ⟨noAllowed, noBlocked⟩ := unrestricted
  have allowed (p : PathPattern) : p ∈ g.allowedPaths ↔
      ∃ text, .allow text ∈ rules ∧ PathPattern.ofText text = .ok p := by
    simp [restricted.mem_allowed, noAllowed]
  have blocked (p : PathPattern) : p ∈ g.blockedPaths ↔
      ∃ text, .block text ∈ rules ∧ PathPattern.ofText text = .ok p := by
    simp [restricted.mem_blocked, noBlocked]
  have byAllowed := PathPattern.exists_accepts_iff allowed
    (fun text => restricted.taken (.allow text)) (fun text => closed (.allow text)) path
  have byBlocked := PathPattern.exists_accepts_iff blocked
    (fun text => restricted.taken (.block text)) (fun text => closed (.block text)) path
  have noneAllowed : g.allowedPaths = [] ↔ ∀ text, .allow text ∉ rules := by
    rw [List.eq_nil_iff_forall_not_mem]
    constructor
    · intro nothing text member
      obtain ⟨p, read⟩ := restricted.taken _ member
      exact nothing p ((allowed p).mpr ⟨text, member, read⟩)
    · intro nothing p member
      obtain ⟨text, member, -⟩ := (allowed p).mp member
      exact nothing text member
  rw [DiffFilter.acceptsPath_iff, noneAllowed, byAllowed]
  simpa only [not_exists, not_and] using and_congr_left fun _ => not_congr byBlocked

theorem acceptsFile_iff {f : DiffFilter} {d : FileDiff}
    (change : f.changes.isEmpty || f.changes.contains d.change)
    (extension : f.acceptsExtension d.path) : f.acceptsFile d ↔ f.acceptsPath d.path := by
  rw [acceptsFile, change, extension, Bool.true_and, Bool.true_and]

/-- A text that is no expression is refused, unless it closes a group that it has not opened. -/
theorem restrict_of_invalid {text : String} (closed : ¬ Regex.ClosesUnopened text.toList)
    (invalid : ∀ r, Regex.ofText text.toList ≠ .ok r) (f : DiffFilter) :
    ∃ error, f.allowPath text = .error ⟨text, error⟩ ∧ f.blockPath text = .error ⟨text, error⟩ := by
  unfold allowPath blockPath PathPattern.ofText
  cases read : Regex.ofText (PathPattern.anchored text.toList) with
  | error error => exact ⟨error, rfl, rfl⟩
  | ok r =>
      rcases Regex.ofText_anchored read with ⟨alone, valid, -⟩ | stray
      · exact absurd valid (invalid alone)
      · exact absurd stray closed

end DiffFilter

end Variability
