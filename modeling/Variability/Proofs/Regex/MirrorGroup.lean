import Variability.Proofs.Regex.MirrorClass

/-!
Reading repetitions, groups and whole expressions in a text that stands between `^(?:` and `)$`. The
groups that are open in the text are open inside the group around it.
-/

namespace Variability.Regex

open Reader

variable {s : Scan}

/-! Repetitions. -/

theorem mirrors_readCount : Mirrors lost id s readCount readCount := by
  refine mirrors_takeWhile.bind (fun _ _ _ => ?_) (by grind)
  refine mirrors_position (mirrors_takeWhile.bind (fun digits _ _ => ?_) (by grind))
  refine mirrors_since (mirrors_takeWhile.bind (fun _ _ _ => ?_) (by grind))
  dsimp only [id]
  split
  · exact never_fail.mirrors
  · split
    · exact never_fail.mirrors
    · exact mirrors_pure rfl

theorem mirrors_skipLazy : Mirrors lost id s skipLazy skipLazy :=
  (mirrors_skipIf (by decide)).bind (fun _ _ _ => mirrors_pure rfl) (by grind)

theorem mirrors_readMost {start start' least : Nat} :
    Mirrors spent id s (readMost start least) (readMost start' least) := by
  refine mirrors_peekIs (by decide) (fun _ => mirrors_skipOver ?_ (by grind))
    fun _ => mirrors_pure rfl
  refine mirrors_unlessDone.bind_spent (fun _ _ _ => ?_) (by grind)
  refine mirrors_peekIs (by decide) (fun _ => mirrors_pure rfl) fun _ => ?_
  exact mirrors_readCount.bind (fun _ _ _ => mirrors_pure rfl) (by grind)

theorem mirrors_readBounds {start start' : Nat} :
    Mirrors spent id s (readBounds start) (readBounds start') := by
  refine mirrors_unlessDone.bind_spent (fun _ _ _ => ?_) (by grind)
  refine mirrors_readCount.bind (fun least _ _ => ?_) (by grind)
  refine mirrors_unlessDone.bind_spent (fun _ _ _ => ?_) (by grind)
  exact mirrors_readMost.bind_spent (fun most _ _ => mirrors_pure rfl) (by grind)

theorem mirrors_closeCounts {start start' : Nat} {bounds : Nat × Option Nat} :
    Mirrors lost id s (closeCounts start bounds) (closeCounts start' bounds) := by
  refine mirrors_peekIsNot (by decide) (fun _ => ?_) fun _ =>
    (never_bind fun _ => never_fail).mirrors
  refine mirrors_skipOver (mirrors_skipLazy.bind (fun _ _ _ => ?_) (by grind)) (by grind)
  split
  · exact (never_bind fun _ => never_fail).mirrors
  · exact mirrors_pure rfl

/-- No count is closed by what is left of the closing. -/
theorem not_reads_closeCounts {start : Nat} {bounds result : Nat × Option Nat} {t : Scan}
    (behind : s.rest <:+ closing) : ¬ Reads (closeCounts start bounds) s result t := by
  intro reads
  obtain ⟨_, _, ⟨⟩, reads⟩ := reads_bind.mp reads
  split at reads
  · exact never_bind (fun _ => never_fail) reads
  · next brace =>
    have closes := behind.subset (List.mem_of_mem_head? (Decidable.not_not.mp brace))
    exact absurd closes (by decide)

theorem mirrors_readCounts : Mirrors lost id s readCounts readCounts := by
  refine mirrors_position (mirrors_skipOver ?_ (by grind))
  exact mirrors_readBounds.bind_of (fun _ _ _ => mirrors_closeCounts)
    fun _ _ _ _ behind reads => (not_reads_closeCounts behind reads).elim

/-- Braces that are left at the end of the text hold no count. -/
theorem Dangling.not_reads_readCounts {t u : Scan} {result : Nat × Option Nat}
    (left : Dangling t) : ¬ Reads readCounts t result u := by
  obtain ⟨s, rfl, brace, done⟩ := left
  intro reads
  obtain ⟨_, _, ⟨⟩, reads⟩ := reads_bind.mp reads
  obtain ⟨_, _, ⟨⟩, reads⟩ := reads_bind.mp reads
  obtain ⟨bounds, v, read, reads⟩ := reads_bind.mp reads
  have first : s.rest.length ≠ 0 := by
    obtain ⟨w, here⟩ := List.head?_eq_some_iff.mp brace
    simp [here]
  have behind : (s.inside.advance 1).skipBlanks.rest <:+ closing := by
    rw [Scan.advance_inside (by omega)]
    rcases Scan.skipBlanks_inside (s.advance 1) with same | nothing
    · rw [same, Scan.inside_rest_of_done done]
    · rw [nothing]
      exact List.nil_suffix
  exact not_reads_closeCounts ((advances_readBounds read).trans behind) reads

theorem mirrors_readTimes {sign : Char} : Mirrors lost id s (readTimes sign) (readTimes sign) := by
  unfold readTimes
  split
  · exact mirrors_readCounts
  · refine mirrors_skip (mirrors_skipLazy.bind (fun _ _ _ => ?_) ?_) (by grind)
    · split
      · exact mirrors_pure rfl
      · exact mirrors_pure rfl
      · exact mirrors_pure rfl
    · grind

/-! Groups. -/

def FlagItem.moved (k : Nat) (item : FlagItem) : FlagItem :=
  ⟨item.span.moved k, item.flag⟩

theorem changesOf_moved (k : Nat) (on : Bool) (items : List FlagItem) :
    changesOf on (items.map (·.moved k)) = changesOf on items := by
  induction items generalizing on with
  | nil => rfl
  | cons item items ih =>
      obtain ⟨span, flag⟩ := item
      cases flag with
      | none => exact ih false
      | some flag => exact congrArg ((flag, on) :: ·) (ih on)

theorem find_flag_moved (k : Nat) (items : List FlagItem) (flag : Option Flag) :
    (items.map (·.moved k)).find? (·.flag = flag) =
      (items.find? (·.flag = flag)).map (·.moved k) :=
  List.find?_map

theorem mirrors_readFlags (count : Nat) (items : List FlagItem) (enough : s.rest.length < count) :
    Mirrors spent id s (readFlags count items) (readFlags (count + 2) (items.map (·.moved 4))) := by
  induction count generalizing s items with
  | zero => exact absurd enough (Nat.not_lt_zero _)
  | succ count ih =>
      have changes : changesOf true (items.map (·.moved 4)).reverse =
          changesOf true items.reverse := by
        rw [← List.map_reverse, changesOf_moved]
      refine mirrors_nextSpan (mirrors_peek (fun done => ?_) fun c w here => ?_)
      · refine Advances.mirrors_of_done (k := 0) ?_ done
        dsimp only
        grind
      · dsimp only
        split
        · match items, changes with
          | [], _ => exact mirrors_pure rfl
          | ⟨span, none⟩ :: items, _ => exact never_fail.mirrors
          | ⟨span, some flag⟩ :: items, changes => exact mirrors_pure changes
        · split
          · exact never_fail.mirrors
          · rw [find_flag_moved]
            cases items.find? (·.flag = Flag.ofLetter? c) with
            | some item => exact never_throw.mirrors
            | none =>
                refine mirrors_skip (ih (⟨⟨s.position, s.position + 1⟩, _⟩ :: items) ?_) (by grind)
                have shorter : (s.advance 1).rest.length < s.rest.length :=
                  advances_skip.length_lt rfl here
                omega

theorem mirrors_readNameChars (count : Nat) (first : Bool) (enough : s.rest.length < count) :
    Mirrors lost id s (readNameChars count first) (readNameChars (count + 2) first) := by
  induction count generalizing s first with
  | zero => exact absurd enough (Nat.not_lt_zero _)
  | succ count ih =>
      refine mirrors_peek (fun done => ?_) fun c w here => ?_
      · refine Advances.mirrors_of_done (k := 1) (advances_ite ?_ ?_) done
        · exact advances_skip.bind fun _ => (advances_readNameChars _ _).bind fun _ => advances_pure
        · exact (never_bind fun _ => never_fail).advances
      · split
        · exact (never_bind fun _ => never_bind fun _ => never_fail).mirrors
        · exact mirrors_pure rfl
        · split
          · have shorter : (s.advance 1).rest.length < s.rest.length :=
              advances_skip.length_lt rfl here
            refine mirrors_skip ((ih _ (by omega)).bind (fun _ _ _ => mirrors_pure rfl) ?_) ?_
            · grind
            · grind
          · exact (never_bind fun _ => never_fail).mirrors

theorem lookup_moved (k : Nat) (names : List (List Char × Span)) (name : List Char) :
    (names.map fun (name, span) => (name, span.moved k)).lookup name =
      (names.lookup name).map (·.moved k) := by
  induction names with
  | nil => rfl
  | cons entry names ih =>
      obtain ⟨other, span⟩ := entry
      rw [List.map_cons, List.lookup_cons, List.lookup_cons]
      split
      · rfl
      · exact ih

theorem mirrors_addName {name : List Char} {span : Span} :
    Mirrors lost id s (addName name span) (addName name (span.moved 4)) := by
  have found : s.inside.names.lookup name = (s.names.lookup name).map (·.moved 4) :=
    lookup_moved 4 s.names name
  refine mirrors_get ?_
  rw [found]
  cases s.names.lookup name with
  | some other => exact never_throw.mirrors
  | none => exact mirrors_modify_last rfl

theorem mirrors_readName : Mirrors lost id s readName readName := by
  refine mirrors_position (mirrors_get ?_)
  rw [Scan.inside_length]
  refine (mirrors_readNameChars _ true (Nat.lt_succ_self _)).bind (fun name u _ => ?_) (by grind)
  refine mirrors_since (mirrors_skip ?_ (by grind))
  dsimp only [id]
  split
  · exact never_fail.mirrors
  · exact mirrors_addName

theorem mirrors_refuseLookAround {start start' : Nat} (signs : List String)
    (plain : ∀ sign ∈ signs, ')' ∉ sign.toList) :
    Mirrors lost id s (refuseLookAround start signs) (refuseLookAround start' signs) := by
  induction signs generalizing s with
  | nil => exact mirrors_pure rfl
  | cons sign signs ih =>
      refine (mirrors_skipIf (plain sign List.mem_cons_self)).bind (fun found _ _ => ?_) (by grind)
      cases found with
      | false => exact ih fun sign mem => plain sign (List.mem_cons_of_mem _ mem)
      | true => exact (never_bind fun _ => never_fail).mirrors

theorem mirrors_nameSign :
    Mirrors lost id s (skipIf "?P<".toList <||> skipIf "?<".toList)
      (skipIf "?P<".toList <||> skipIf "?<".toList) := by
  refine (mirrors_skipIf (by decide)).bind (fun found _ _ => ?_) fun found => ?_
  · cases found with
    | false => exact mirrors_skipIf (by decide)
    | true => exact mirrors_pure rfl
  · cases found with
    | false => exact advances_skipIf
    | true => exact advances_pure

theorem mirrors_readFlagged {start inner : Nat} :
    Mirrors lost id s (readFlagged start inner) (readFlagged (start + 4) (inner + 4)) := by
  have takes (inner : Nat) (changes : FlagChanges) : Advances 1 (do
      let closed := (← peek?) = some ')'
      skip
      if !closed then return .group (.flags changes)
      else if changes.isEmpty then fail .repetitionMissing ⟨inner, inner⟩
      else return Opened.flags changes) :=
    advances_bind advances_peek fun _ => by grind
  refine mirrors_isDone (fun done => ?_) fun more => mirrors_get ?_
  · refine Advances.mirrors_of_done (k := 1) (advances_bind advances_get fun _ => ?_) done
    exact advances_bind (advances_readFlags _ _) fun _ => takes _ _
  · rw [Scan.inside_length]
    refine (mirrors_readFlags _ [] (Nat.lt_succ_self _)).bind_of (fun changes u _ => ?_) ?_
    · refine mirrors_peek (fun done => ?_) fun c w here => ?_
      · exact Advances.mirrors_of_done (k := 1) (by grind) done
      · refine mirrors_skip ?_ (by grind)
        dsimp only [id]
        split
        · exact mirrors_pure rfl
        · split
          · exact never_fail.mirrors
          · exact mirrors_pure rfl
    · intro changes t opened v behind reads
      exact (takes _ _ reads).trans (drop_suffix_drop 1 behind)

theorem mirrors_readOpened {start inner : Nat} :
    Mirrors lost id s (readOpened start inner) (readOpened (start + 4) (inner + 4)) := by
  refine mirrors_nameSign.bind (fun found _ _ => ?_) (by grind)
  cases found with
  | true => exact mirrors_readName.bind (fun _ _ _ => mirrors_pure rfl) (by grind)
  | false =>
      refine (mirrors_skipIf (by decide)).bind (fun flagged _ _ => ?_) (by grind)
      cases flagged with
      | true => exact mirrors_readFlagged
      | false => exact mirrors_pure rfl

theorem mirrors_readParenthesis : Mirrors lost id s readParenthesis readParenthesis := by
  refine mirrors_position (mirrors_skip (mirrors_skipBlanks (mirrors_position ?_) ?_) ?_)
  · exact (mirrors_refuseLookAround _ (by decide)).bind (fun _ _ _ => mirrors_readOpened) (by grind)
  · grind
  · grind

theorem mirrors_readPrimitive {c : Char} :
    Mirrors (lostOrLeft Expression.IsAssertion) (Expression.moved 4) s (readPrimitive c)
      (readPrimitive c) := by
  unfold readPrimitive
  split
  · exact mirrors_readEscape
  · refine mirrors_nextSpan (mirrors_skip ?_ ?_)
    · split
      · exact mirrors_pure rfl
      · exact mirrors_pure rfl
      · exact mirrors_pure rfl
      · exact mirrors_pure rfl
    · grind

/-! Whole expressions. -/

/-- The group around the text. -/
def around : Span × GroupKind × Bool :=
  (⟨1, 2⟩, .flags [], false)

/-- An open group when the text stands inside; what is read in no group stands in the one around. -/
def OpenGroup.inside (g : OpenGroup) : OpenGroup :=
  { opening := some (g.opening.elim around fun (span, kind, ignored) =>
      (span.moved 4, kind, ignored))
    start := g.start + 4
    branches := g.branches.map (·.moved 4)
    branchStart := g.branchStart + 4
    parts := g.parts.map (·.moved 4) }

theorem OpenGroup.branch_inside (g : OpenGroup) (stop : Nat) :
    g.inside.branch (stop + 4) = (g.branch stop).moved 4 := by
  obtain ⟨opening, start, branches, branchStart, parts⟩ := g
  rcases parts with _ | ⟨e, _ | ⟨e', parts⟩⟩
  · rfl
  · rfl
  · change Expression.sequence ⟨branchStart + 4, stop + 4⟩
      ((e :: e' :: parts).map (·.moved 4)).reverse = _
    rw [← List.map_reverse, ← Expression.allMoved_eq_map]
    rfl

theorem OpenGroup.nextBranch_inside (g : OpenGroup) (bar : Nat) :
    g.inside.nextBranch (bar + 4) = (g.nextBranch bar).inside := by
  unfold OpenGroup.nextBranch
  rw [OpenGroup.branch_inside]
  rfl

theorem OpenGroup.body_inside (g : OpenGroup) (stop : Nat) :
    g.inside.body (stop + 4) = (g.body stop).moved 4 := by
  unfold OpenGroup.body
  rw [OpenGroup.branch_inside]
  change (if (g.branches.map (·.moved 4)).isEmpty then _ else
    Expression.alternation ⟨g.start + 4, stop + 4⟩
      ((g.branch stop).moved 4 :: g.branches.map (·.moved 4)).reverse) = _
  rw [List.isEmpty_map]
  split
  · rfl
  · rw [← List.map_cons (f := Expression.moved 4), ← List.map_reverse, ← Expression.allMoved_eq_map]
    rfl

/-- What stands outside the group around the text: the place before it. -/
def root : OpenGroup :=
  ⟨none, 0, [], 0, [.assertion ⟨0, 1⟩ .lineStart]⟩

def OpenGroups.inside (g : OpenGroups) : OpenGroups :=
  ⟨g.innermost.inside, g.outer.map (·.inside) ++ [root]⟩

theorem mirrors_openGroup {g : OpenGroups} :
    Mirrors lost OpenGroups.inside s (openGroup g) (openGroup g.inside) := by
  refine mirrors_position (mirrors_get (mirrors_readParenthesis.bind (fun opened u _ => ?_) ?_))
  · cases opened with
    | flags changes => exact mirrors_modify rfl (mirrors_since (mirrors_pure rfl))
    | group kind => exact mirrors_modify rfl (mirrors_position (mirrors_pure rfl))
  · intro opened
    cases opened with
    | flags changes =>
        exact (advances_modify fun _ => List.suffix_rfl).bind fun _ => advances_since.bind fun _ =>
          advances_pure
    | group kind =>
        exact (advances_modify fun _ => List.suffix_rfl).bind fun _ => advances_position.bind
          fun _ => advances_pure

/-- A parenthesis in the text closes a group in the text, or is stray. -/
theorem mirrors_closeGroup {off : OpenGroups → Scan → Prop} {g : OpenGroups} {c : Char}
    {w : List Char} (here : s.rest = c :: w) :
    Mirrors off OpenGroups.inside s (closeGroup g) (closeGroup g.inside) := by
  obtain ⟨⟨opening, start, branches, branchStart, parts⟩, outer⟩ := g
  have first : 1 ≤ s.rest.length := by simp [here]
  match opening, outer with
  | none, _ => exact fun _ _ _ => .inr (.inr ⟨_, rfl⟩)
  | some _, [] => exact fun _ _ _ => .inr (.inr ⟨_, rfl⟩)
  | some (span, kind, ignored), next :: outer =>
      have body := OpenGroup.body_inside ⟨some (span, kind, ignored), start, branches, branchStart,
        parts⟩ s.position
      exact mirrors_position (mirrors_modify (Scan.advance_inside first) (mirrors_modify rfl
        (mirrors_since (mirrors_pure (congrArg (fun e => OpenGroups.mk
          (next.inside.add (.group _ kind e)) (outer.map (·.inside) ++ [root])) body)))))

theorem isRepeatable_moved (k : Nat) (e : Expression) :
    isRepeatable (e.moved k) = isRepeatable e := by
  cases e <;> rfl

theorem mirrors_repeatLast {sign : Char} {g : OpenGroups} :
    Mirrors lost OpenGroups.inside s (repeatLast sign g) (repeatLast sign g.inside) := by
  obtain ⟨⟨opening, start, branches, branchStart, parts⟩, outer⟩ := g
  refine mirrors_position ?_
  cases parts with
  | nil => exact never_fail.mirrors
  | cons last parts =>
      change Mirrors _ _ _ (if isRepeatable last then _ else _)
        (if isRepeatable (last.moved 4) then _ else _)
      rw [isRepeatable_moved]
      split
      · refine mirrors_readTimes.bind (fun times u _ => ?_) (by grind)
        have start : (last.moved 4).span.start = last.span.start + 4 := by
          rw [Expression.span_moved]
          rfl
        dsimp only [id]
        rw [start]
        exact mirrors_since (mirrors_pure rfl)
      · exact never_fail.mirrors

/-- Nothing but the closing is left, or braces that hold no count. -/
abbrev gone : OpenGroups → Scan → Prop :=
  lostOrLeft fun _ => True

theorem mirrors_readPart {c : Char} {g : OpenGroups} :
    Mirrors gone OpenGroups.inside s (readPart c g) (readPart c g.inside) := by
  unfold readPart
  split
  · exact mirrors_openGroup.of_lost
  · refine mirrors_position (mirrors_skip (mirrors_pure ?_) advances_pure)
    exact congrArg (OpenGroups.mk · _) (OpenGroup.nextBranch_inside _ _)
  · exact mirrors_readClass.bind (fun _ _ _ => mirrors_pure rfl) fun _ => advances_pure
  · split
    · exact mirrors_repeatLast.of_lost
    · refine mirrors_readPrimitive.bind_of (fun _ _ _ => mirrors_pure rfl) ?_
      rintro e t g v (behind | ⟨-, left⟩) reads
      · exact .inl ((advances_pure reads).trans behind)
      · obtain ⟨rfl, rfl⟩ := reads_pure.mp reads
        exact .inr ⟨trivial, left⟩

/-! Runs. -/

/-- Groups stay open, and another one can be opened in them. -/
def Deepens (g h : OpenGroups) : Prop :=
  h.outer = g.outer ∧ h.innermost.opening = g.innermost.opening ∨
    h.outer = g.innermost :: g.outer ∧ h.innermost.opening.isSome

theorem deepens_of_openGroup {g h : OpenGroups} {t : Scan} (reads : Reads (openGroup g) s h t) :
    Deepens g h := by
  obtain ⟨_, _, -, reads⟩ := reads_bind.mp reads
  obtain ⟨_, _, -, reads⟩ := reads_bind.mp reads
  obtain ⟨opened, _, -, reads⟩ := reads_bind.mp reads
  cases opened with
  | flags changes =>
      obtain ⟨_, _, -, reads⟩ := reads_bind.mp reads
      obtain ⟨_, _, -, reads⟩ := reads_bind.mp reads
      obtain ⟨rfl, -⟩ := reads_pure.mp reads
      exact .inl ⟨rfl, rfl⟩
  | group kind =>
      obtain ⟨_, _, -, reads⟩ := reads_bind.mp reads
      obtain ⟨_, _, -, reads⟩ := reads_bind.mp reads
      obtain ⟨rfl, -⟩ := reads_pure.mp reads
      exact .inr ⟨rfl, rfl⟩

theorem deepens_of_repeatLast {sign : Char} {g h : OpenGroups} {t : Scan}
    (reads : Reads (repeatLast sign g) s h t) : Deepens g h := by
  obtain ⟨_, _, -, reads⟩ := reads_bind.mp reads
  split at reads
  · exact (never_fail reads).elim
  · split at reads
    · obtain ⟨_, _, -, reads⟩ := reads_bind.mp reads
      obtain ⟨_, _, -, reads⟩ := reads_bind.mp reads
      obtain ⟨rfl, -⟩ := reads_pure.mp reads
      exact .inl ⟨rfl, rfl⟩
    · exact (never_fail reads).elim

/-- Only a closing parenthesis closes a group. -/
theorem deepens_of_readPart {c : Char} {g h : OpenGroups} {t : Scan}
    (reads : Reads (readPart c g) s h t) : Deepens g h := by
  unfold readPart at reads
  split at reads
  · exact deepens_of_openGroup reads
  · obtain ⟨_, _, -, reads⟩ := reads_bind.mp reads
    obtain ⟨_, _, -, reads⟩ := reads_bind.mp reads
    obtain ⟨rfl, -⟩ := reads_pure.mp reads
    exact .inl ⟨rfl, rfl⟩
  · obtain ⟨_, _, -, reads⟩ := reads_bind.mp reads
    obtain ⟨rfl, -⟩ := reads_pure.mp reads
    exact .inl ⟨rfl, rfl⟩
  · split at reads
    · exact deepens_of_repeatLast reads
    · obtain ⟨_, _, -, reads⟩ := reads_bind.mp reads
      obtain ⟨rfl, -⟩ := reads_pure.mp reads
      exact .inl ⟨rfl, rfl⟩

theorem Deepens.isSome {g h : OpenGroups} (deepens : Deepens g h)
    (opened : g.innermost.opening.isSome) : h.innermost.opening.isSome := by
  rcases deepens with ⟨-, same⟩ | ⟨-, deeper⟩
  · rw [same]
    exact opened
  · exact deeper

/-- An open group is not closed any more when its parenthesis is taken. -/
theorem not_reads_readParts_of_lost (count : Nat) {g : OpenGroups} {e : Expression} {s t : Scan}
    (behind : s.rest <:+ ['$']) (opened : g.innermost.opening.isSome) :
    ¬ Reads (readParts count g) s e t := by
  induction count generalizing s g with
  | zero => exact fun reads => never_bind (fun _ => never_bind fun _ => never_fail) reads
  | succ count ih =>
      intro reads
      obtain ⟨_, _, ⟨⟩, reads⟩ := reads_bind.mp reads
      obtain ⟨_, _, ⟨⟩, reads⟩ := reads_bind.mp reads
      have behind : s.skipBlanks.rest <:+ ['$'] := (suffix_skipBlanks s).trans behind
      split at reads
      · obtain ⟨⟨span, _, _⟩, opens⟩ := Option.isSome_iff_exists.mp opened
        rw [opens] at reads
        exact never_fail reads
      · next closes =>
        have dollar := behind.subset (List.mem_of_mem_head? closes)
        exact absurd dollar (by decide)
      · obtain ⟨h, u, part, reads⟩ := reads_bind.mp reads
        exact ih ((advances_readPart.weaken part).trans behind)
          ((deepens_of_readPart part).isSome opened) reads

theorem Dangling.not_reads_readParts (count : Nat) {g : OpenGroups} {e : Expression} {s t : Scan}
    (left : Dangling s) : ¬ Reads (readParts count g) s e t := by
  cases count with
  | zero => exact fun reads => never_bind (fun _ => never_bind fun _ => never_fail) reads
  | succ count =>
      intro reads
      obtain ⟨w, here⟩ := left.exists_rest
      obtain ⟨_, _, ⟨⟩, reads⟩ := reads_bind.mp reads
      obtain ⟨_, _, ⟨⟩, reads⟩ := reads_bind.mp reads
      rw [left.skipBlanks, here] at reads
      obtain ⟨_, _, part, -⟩ := reads_bind.mp reads
      change Reads (repeatLast '{' g) s _ _ at part
      obtain ⟨_, _, ⟨⟩, part⟩ := reads_bind.mp part
      split at part
      · exact never_fail part
      · split at part
        · obtain ⟨_, _, times, -⟩ := reads_bind.mp part
          exact left.not_reads_readCounts times
        · exact never_fail part

/-- An expression in the group around it, between the two places; `stop` is where it ends. -/
def Expression.enclosed (e : Expression) (stop : Nat) : Expression :=
  .sequence ⟨0, stop + 6⟩ [.assertion ⟨0, 1⟩ .lineStart,
    .group ⟨1, stop + 5⟩ (.flags []) (e.moved 4),
    .assertion ⟨stop + 5, stop + 6⟩ .lineStop]

/-- The groups that are open, to the outermost one, which has no parenthesis. -/
def Nested : OpenGroup → List OpenGroup → Prop
  | g, [] => g.opening = none
  | g, next :: outer => g.opening.isSome ∧ Nested next outer

theorem Nested.congr {g h : OpenGroup} {outer : List OpenGroup} (nested : Nested g outer)
    (same : h.opening = g.opening) : Nested h outer := by
  cases outer with
  | nil => exact same.trans nested
  | cons next outer => exact ⟨same ▸ nested.1, nested.2⟩

theorem Deepens.nested {g h : OpenGroups} (deepens : Deepens g h)
    (nested : Nested g.innermost g.outer) : Nested h.innermost h.outer := by
  rcases deepens with ⟨outer, same⟩ | ⟨outer, opened⟩
  · rw [outer]
    exact nested.congr same
  · rw [outer]
    exact ⟨opened, nested⟩

/-- What is closed stands in the next group out, and blanks count there as they did before. -/
theorem reads_closeGroup {g h : OpenGroups} {t : Scan} (reads : Reads (closeGroup g) s h t) :
    ∃ span kind ignored next outer, g.innermost.opening = some (span, kind, ignored) ∧
      g.outer = next :: outer ∧
      h = ⟨next.add (.group ⟨span.start, (s.advance 1).position⟩ kind
        (g.innermost.body s.position)), outer⟩ ∧
      t = { s.advance 1 with ignoreBlanks := ignored } := by
  obtain ⟨⟨opening, start, branches, branchStart, parts⟩, outer⟩ := g
  match opening, outer with
  | none, _ => exact (never_bind (fun _ => never_fail) reads).elim
  | some _, [] => exact (never_bind (fun _ => never_fail) reads).elim
  | some (span, kind, ignored), next :: outer =>
      obtain ⟨_, _, ⟨⟩, reads⟩ := reads_bind.mp reads
      obtain ⟨_, _, ⟨⟩, reads⟩ := reads_bind.mp reads
      obtain ⟨_, _, ⟨⟩, reads⟩ := reads_bind.mp reads
      obtain ⟨_, _, ⟨⟩, reads⟩ := reads_bind.mp reads
      obtain ⟨rfl, rfl⟩ := reads_pure.mp reads
      exact ⟨span, kind, ignored, next, outer, rfl, rfl, rfl, rfl⟩

theorem nested_of_closeGroup {g h : OpenGroups} {t : Scan} (reads : Reads (closeGroup g) s h t)
    (nested : Nested g.innermost g.outer) : Nested h.innermost h.outer := by
  obtain ⟨span, kind, ignored, next, outer, -, behind, rfl, -⟩ := reads_closeGroup reads
  rw [behind] at nested
  exact nested.2.congr rfl

/-- The closing of the text, when no group of the text is open. -/
theorem readParts_closing (count : Nat) {g : OpenGroup} {h : OpenGroups} {e : Expression}
    {t u : Scan} (done : s.rest = []) (outermost : g.opening = none)
    (close : Reads (closeGroup (OpenGroups.mk g []).inside) s.inside h t)
    (reads : Reads (readParts (count + 2) h) t e u) :
    e = (g.body s.position).enclosed s.position := by
  obtain ⟨rest, position, ignoreBlanks, names⟩ := s
  obtain ⟨opening, start, branches, branchStart, parts⟩ := g
  subst done
  subst outermost
  obtain ⟨_, _, _, _, _, ⟨⟩, ⟨⟩, rfl, rfl⟩ := reads_closeGroup close
  -- the place at the end of the line, and then the end of the text
  obtain ⟨_, _, ⟨⟩, reads⟩ := reads_bind.mp reads
  obtain ⟨_, _, ⟨⟩, reads⟩ := reads_bind.mp reads
  change Reads (readPart '$' _ >>= readParts (count + 1)) ⟨['$'], position + 5, false, _⟩ e u
    at reads
  obtain ⟨_, _, part, reads⟩ := reads_bind.mp reads
  change Reads (readPrimitive '$' >>= _) _ _ _ at part
  obtain ⟨_, _, ⟨⟩, part⟩ := reads_bind.mp part
  obtain ⟨rfl, rfl⟩ := reads_pure.mp part
  obtain ⟨_, _, ⟨⟩, reads⟩ := reads_bind.mp reads
  obtain ⟨_, _, ⟨⟩, reads⟩ := reads_bind.mp reads
  obtain ⟨_, _, ⟨⟩, reads⟩ := reads_bind.mp reads
  obtain ⟨rfl, -⟩ := reads_pure.mp reads
  have body := OpenGroup.body_inside ⟨none, start, branches, branchStart, parts⟩ position
  exact congrArg (fun e => Expression.sequence ⟨0, position + 6⟩ [.assertion ⟨0, 1⟩ .lineStart,
    .group ⟨1, position + 5⟩ (.flags []) e,
    .assertion ⟨position + 5, position + 6⟩ .lineStop]) body

/-- At the end of the text, the closing closes the group around it. -/
theorem eq_enclosed_of_done (count : Nat) {g : OpenGroups} {e : Expression} {t : Scan}
    (nested : Nested g.innermost g.outer) (done : s.rest = [])
    (reads : Reads (closeGroup g.inside >>= readParts (count + 2)) s.inside e t) :
    g.innermost.opening = none ∧ e = (g.innermost.body s.position).enclosed s.position := by
  obtain ⟨innermost, outer⟩ := g
  obtain ⟨h, u, close, rest⟩ := reads_bind.mp reads
  cases outer with
  | nil => exact ⟨nested, readParts_closing count done nested close rest⟩
  | cons next outer =>
      have behind := advances_closeGroup close
      rw [Scan.inside_rest_of_done done] at behind
      obtain ⟨_, _, _, _, _, -, ⟨⟩, rfl, -⟩ := reads_closeGroup close
      exact (not_reads_readParts_of_lost _ behind rfl rest).elim

/-- What a reader of the text alone makes of it, when the text inside is read as `e`. -/
def Encloses (m : Reader Expression) (s : Scan) (e : Expression) : Prop :=
  (∃ e₀ u, Reads m s e₀ u ∧ e = e₀.enclosed u.position) ∨ Stray m s

theorem Encloses.of_run {m n : Reader Expression} {s u : Scan} {e : Expression}
    (encloses : Encloses n u e) (run : m.run s = n.run u) : Encloses m s e := by
  unfold Encloses Reads Stray at *
  rw [run]
  exact encloses

theorem Mirrors.encloses {off : OpenGroups → Scan → Prop} {m m' : Reader OpenGroups}
    {n n' : OpenGroups → Reader Expression} {e : Expression} {t : Scan}
    (mirrors : Mirrors off OpenGroups.inside s m m')
    (reads : Reads (m' >>= n') s.inside e t)
    (rest : ∀ g u, Reads m s g u → Reads (n' g.inside) u.inside e t → Encloses (n g) u e)
    (astray : ∀ h v, Reads m' s.inside h v → off h v → ¬ Reads (n' h) v e t) :
    Encloses (m >>= n) s e := by
  obtain ⟨h, v, part, more⟩ := reads_bind.mp reads
  rcases mirrors part with ⟨g, u, alone, rfl, rfl⟩ | behind | ⟨span, stray⟩
  · rcases rest g u alone more with ⟨e₀, w, read, same⟩ | ⟨span, stray⟩
    · exact .inl ⟨e₀, w, reads_bind.mpr ⟨g, u, alone, read⟩, same⟩
    · refine .inr ⟨span, ?_⟩
      rw [StateT.run_bind, alone]
      exact stray
  · exact absurd more (astray h v part behind)
  · refine .inr ⟨span, ?_⟩
    rw [StateT.run_bind, stray]
    rfl

/-- Reads what comes next, which begins with `c`. -/
def readNext (c : Char) (g : OpenGroups) : Reader OpenGroups :=
  if c = ')' then closeGroup g else readPart c g

theorem run_readParts_of_cons {count : Nat} {g : OpenGroups} {c : Char} {w : List Char}
    (here : s.skipBlanks.rest = c :: w) :
    (readParts (count + 1) g).run s = (readNext c g >>= readParts count).run s.skipBlanks := by
  rw [readParts, run_skipBlanks, run_peek, here, readNext, List.head?_cons]
  split
  · next none => cases none
  · next closes => rw [Option.some.inj closes, if_pos rfl]
  · next other same =>
    cases same
    rw [if_neg other]

theorem run_readParts_of_done {count : Nat} {g : OpenGroups} (done : s.skipBlanks.rest = [])
    (outermost : g.innermost.opening = none) :
    (readParts (count + 1) g).run s =
      .ok (g.innermost.body s.skipBlanks.position, s.skipBlanks) := by
  rw [readParts, run_skipBlanks, run_peek, done, outermost]
  rfl

theorem advances_readNext {c : Char} {g : OpenGroups} : Advances 1 (readNext c g) :=
  advances_ite advances_closeGroup advances_readPart

theorem nested_of_readNext {c : Char} {g h : OpenGroups} {t : Scan}
    (reads : Reads (readNext c g) s h t) (nested : Nested g.innermost g.outer) :
    Nested h.innermost h.outer := by
  unfold readNext at reads
  split at reads
  · exact nested_of_closeGroup reads nested
  · exact (deepens_of_readPart reads).nested nested

/-- Where a part gets off the text, no expression is read to its end. -/
theorem mirrors_readNext {c : Char} {w : List Char} (here : s.rest = c :: w) {g : OpenGroups} :
    Mirrors (fun h v => ∀ count e t, ¬ Reads (readParts count h) v e t) OpenGroups.inside s
      (readNext c g) (readNext c g.inside) := by
  unfold readNext
  split
  · exact mirrors_closeGroup here
  · refine mirrors_readPart.mono ?_
    rintro h v part (behind | ⟨-, left⟩) count e t
    · exact not_reads_readParts_of_lost count behind ((deepens_of_readPart part).isSome rfl)
    · exact left.not_reads_readParts count

/-- Inside the group around it, a text is read as it is read alone. -/
theorem encloses_readParts (count : Nat) {g : OpenGroups} (nested : Nested g.innermost g.outer)
    {s : Scan} (enough : s.rest.length < count) {e : Expression} {t : Scan}
    (reads : Reads (readParts (count + 4) g.inside) s.inside e t) :
    Encloses (readParts count g) s e := by
  induction count generalizing s g with
  | zero => exact absurd enough (Nat.not_lt_zero _)
  | succ count ih =>
      have fewer : s.skipBlanks.rest.length ≤ s.rest.length := (suffix_skipBlanks s).length_le
      rcases Scan.skipBlanks_inside s with same | nothing
      · cases here : s.skipBlanks.rest with
        | nil =>
            have closing : s.inside.skipBlanks.rest = ')' :: ['$'] := by
              rw [same]
              exact Scan.inside_rest_of_done here
            rw [Reads, run_readParts_of_cons closing, same] at reads
            obtain ⟨outermost, rfl⟩ := eq_enclosed_of_done (count + 2) nested here reads
            exact .inl ⟨_, _, run_readParts_of_done here outermost, rfl⟩
        | cons c w =>
            have inside : s.inside.skipBlanks.rest = c :: (w ++ closing) := by
              rw [same]
              exact congrArg (· ++ closing) here
            rw [Reads, run_readParts_of_cons inside, same] at reads
            refine Encloses.of_run ?_ (run_readParts_of_cons here)
            refine (mirrors_readNext here).encloses reads (fun h u part more => ?_)
              fun h v _ astray => astray _ e t
            have shorter := advances_readNext.length_lt part here
            exact ih (nested_of_readNext part nested) (by omega) more
      · obtain ⟨_, _, ⟨⟩, reads⟩ := reads_bind.mp reads
        obtain ⟨_, _, ⟨⟩, reads⟩ := reads_bind.mp reads
        rw [nothing] at reads
        exact (never_fail reads).elim

end Variability.Regex
