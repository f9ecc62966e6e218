import Variability.Proofs.Regex.Mirror

/-!
Reading escapes and classes in a text that stands between `^(?:` and `)$`.
-/

namespace Variability.Regex

open Reader

variable {β γ δ : Type} {s : Scan}

/-! Escapes. -/

theorem mirrors_readHexDigit : Mirrors lost id s readHexDigit readHexDigit := by
  refine mirrors_peek (fun _ => ?_) fun c w here => ?_
  · exact (never_bind fun _ => never_fail : Never _).mirrors
  · dsimp only
    split
    · exact (never_bind fun _ => never_fail).mirrors
    · exact mirrors_skipOver (mirrors_pure rfl) advances_pure

theorem mirrors_readHexToBrace {brace brace' : Nat} (count : Nat) (enough : s.rest.length < count) :
    Mirrors lost id s (readHexToBrace brace count) (readHexToBrace brace' (count + 2)) := by
  induction count generalizing s with
  | zero => exact absurd enough (Nat.not_lt_zero _)
  | succ count ih =>
      refine mirrors_peek (fun done => ?_) fun c w here => ?_
      · exact (advances_readHexDigit.bind fun _ =>
          (advances_readHexToBrace _).bind fun _ => advances_pure).mirrors_of_done done
      · split
        · exact (never_bind fun _ => never_fail).mirrors
        · exact mirrors_pure rfl
        · refine mirrors_readHexDigit.bind (fun d u reads => ?_)
            fun _ => (advances_readHexToBrace _).bind fun _ => advances_pure
          have shorter := advances_readHexDigit.length_lt reads here
          exact (ih (by omega)).bind (fun _ _ _ => mirrors_pure rfl) fun _ => advances_pure

theorem mirrors_readCodeInBraces {start : Nat} :
    Mirrors lost (Expression.moved 4) s (readCodeInBraces start)
      (readCodeInBraces (start + 4)) := by
  refine mirrors_position (mirrors_skipOver (mirrors_get ?_) (by grind))
  rw [Scan.inside_length]
  refine (mirrors_readHexToBrace _ (Nat.lt_succ_self _)).bind (fun digits _ _ => ?_) (by grind)
  refine mirrors_position (mirrors_skipOver ?_ (by grind))
  dsimp only [id]
  split
  · exact (never_bind fun _ => never_fail).mirrors
  · split
    · exact never_fail.mirrors
    · exact mirrors_since (mirrors_pure rfl)

theorem mirrors_readHexDigits (l : List Unit) :
    Mirrors lost id s (l.mapM fun _ => readHexDigit) (l.mapM fun _ => readHexDigit) := by
  induction l generalizing s with
  | nil => exact mirrors_pure rfl
  | cons _ l ih =>
      rw [List.mapM_cons]
      refine mirrors_readHexDigit.bind (fun _ _ _ => ?_) fun _ =>
        (advances_readHexDigits _).bind fun _ => advances_pure
      exact ih.bind (fun _ _ _ => mirrors_pure rfl) (by grind)

theorem mirrors_readCode {start : Nat} {letter : Char} :
    Mirrors lost (Expression.moved 4) s (readCode start letter) (readCode (start + 4) letter) := by
  refine mirrors_position ((mirrors_readHexDigits _).bind (fun digits _ _ => ?_) (by grind))
  dsimp only [id]
  split
  · exact (never_bind fun _ => never_fail).mirrors
  · exact mirrors_since (mirrors_pure rfl)

theorem mirrors_readHex {start : Nat} {letter : Char} :
    Mirrors lost (Expression.moved 4) s (readHex start letter) (readHex (start + 4) letter) :=
  mirrors_skipOver (mirrors_peekIs (by decide) (fun _ => mirrors_readCodeInBraces)
    fun _ => mirrors_readCode) (by grind)

theorem mirrors_readProperty {start : Nat} {negated : Bool} :
    Mirrors lost (Expression.moved 4) s (readProperty start negated)
      (readProperty (start + 4) negated) := by
  refine mirrors_skipOver (mirrors_peek (fun done => ?_) fun c w here => ?_)
    (advances_peek.bind fun _ => by grind)
  · exact Advances.mirrors_of_done (k := 1) (by grind) done
  · split
    · exact (never_bind fun _ => never_bind fun _ => never_fail).mirrors
    · exact (never_bind fun _ => never_fail).mirrors
    · refine mirrors_skipOver ?_ (by grind)
      refine mirrors_takeWhile.bind (fun text _ _ => ?_) (by grind)
      refine mirrors_isDone (fun done => ?_) fun _ => ?_
      · exact Advances.mirrors_of_done (k := 1) (by grind) done
      · exact mirrors_skip (mirrors_since (mirrors_pure rfl)) (by grind)
    · exact mirrors_skipOver (mirrors_since (mirrors_pure rfl)) (by grind)

theorem mirrors_readPlaceName {brace brace' : Nat} :
    Mirrors lost id s (readPlaceName brace) (readPlaceName brace') := by
  refine mirrors_position (mirrors_takeWhile.bind (fun name _ _ => ?_) (by grind))
  refine mirrors_peekIsNot (by decide) (fun _ => ?_) fun _ => ?_
  · refine mirrors_since (mirrors_skip ?_ (by grind))
    dsimp only [id]
    split
    · exact never_fail.mirrors
    · exact mirrors_pure rfl
  · exact (never_bind fun _ => never_fail).mirrors

/-- A brace is left that opens at the end of the text, so that no count stands in it. -/
def Dangling (t : Scan) : Prop :=
  ∃ s : Scan, t = s.inside ∧ s.rest.head? = some '{' ∧ (s.advance 1).skipBlanks.rest = []

/-- Alone, braces that open at the end of the text are refused where the name of a place can stand;
inside, they are left for a count, and what was read is told by `p`. -/
def lostOrLeft (p : β → Prop) (b : β) (t : Scan) : Prop :=
  lost b t ∨ p b ∧ Dangling t

instance {p : β → Prop} : Loses (lostOrLeft p) where
  loses _ _ behind := .inl behind

theorem mirrors_readWordPlace {start : Nat} (brace : s.rest.head? = some '{') :
    Mirrors (lostOrLeft (· = none)) id s (readWordPlace? start) (readWordPlace? (start + 4)) := by
  refine mirrors_get ?_
  have opens : s.rest.length ≠ 0 := by
    intro nothing
    rw [List.eq_nil_of_length_eq_zero nothing] at brace
    cases brace
  have one : s.inside.advance 1 = (s.advance 1).inside := Scan.advance_inside (by omega)
  rcases Scan.skipBlanks_inside (s.advance 1) with same | nothing
  · rw [← one] at same
    refine mirrors_modify (h := fun s => (s.advance 1).skipBlanks)
      (j := fun s => (s.advance 1).skipBlanks) same (mirrors_isDone (fun done => ?_) fun more => ?_)
    · intro place t reads
      obtain ⟨_, _, ⟨⟩, reads⟩ := reads_bind.mp reads
      rw [Scan.inside_rest_of_done done, if_pos (by decide)] at reads
      obtain ⟨_, _, ⟨⟩, reads⟩ := reads_bind.mp reads
      obtain ⟨rfl, rfl⟩ := reads_pure.mp reads
      exact .inr (.inl (.inr ⟨rfl, s, rfl, brace, done⟩))
    · refine mirrors_peek (fun done => absurd done more) fun c w here => ?_
      split
      · exact mirrors_of_run s _ _ rfl rfl (mirrors_pure rfl)
      · refine mirrors_readPlaceName.bind (fun place _ _ => mirrors_pure rfl) fun _ => advances_pure
  · intro place t reads
    obtain ⟨_, _, ⟨⟩, reads⟩ := reads_bind.mp reads
    obtain ⟨_, _, ⟨⟩, reads⟩ := reads_bind.mp reads
    change Reads (if (s.inside.advance 1).skipBlanks.rest.isEmpty then _ else _) _ place t at reads
    rw [one, nothing, if_pos List.isEmpty_nil] at reads
    exact ((never_bind fun _ => never_fail : Never _) reads).elim

def Expression.IsAssertion (e : Expression) : Prop :=
  ∃ span a, e = .assertion span a

theorem mirrors_readAssertion {start : Nat} {a : Assertion} :
    Mirrors (lostOrLeft Expression.IsAssertion) (Expression.moved 4) s (readAssertion start a)
      (readAssertion (start + 4) a) := by
  refine mirrors_since (mirrors_peek (fun done => ?_) fun c w here => ?_)
  · have other : (some ')' = some '{') = False := by simp
    simp only [other, decide_false, Bool.and_false, reduceCtorEq]
    exact mirrors_pure rfl
  · split
    · next asked =>
      have brace : s.rest.head? = some '{' := by
        rw [here]
        exact of_decide_eq_true (Bool.and_eq_true_iff.mp asked).2
      refine (mirrors_readWordPlace brace).bind_of (fun place u reads => ?_) ?_
      · dsimp only [id]
        split
        · exact mirrors_pure rfl
        · exact mirrors_since (mirrors_pure rfl)
      · rintro place t e v (behind | ⟨rfl, left⟩) reads
        · refine .inl (List.IsSuffix.trans ((?_ : Advances 0 _) reads) behind)
          split
          · exact advances_pure
          · exact advances_since.bind fun _ => advances_pure
        · obtain ⟨rfl, rfl⟩ := reads_pure.mp reads
          exact .inr ⟨⟨_, _, rfl⟩, left⟩
    · exact mirrors_pure rfl

theorem mirrors_readEscape :
    Mirrors (lostOrLeft Expression.IsAssertion) (Expression.moved 4) s readEscape readEscape := by
  refine mirrors_position (mirrors_skip (mirrors_peek (fun done => ?_) fun c w here => ?_) ?_)
  · exact (Advances.mirrors_of_done (k := 1) (by grind) done).of_lost
  · dsimp only
    split
    · exact (never_bind fun _ => never_fail).mirrors
    split
    · exact mirrors_readHex.of_lost
    split
    · exact mirrors_readProperty.of_lost
    refine mirrors_skip ?_ ?_
    · refine mirrors_since ?_
      split
      · exact mirrors_pure rfl
      · exact mirrors_readAssertion
      · exact mirrors_pure rfl
      · split
        · exact mirrors_pure rfl
        · exact never_fail.mirrors
    · grind
  · refine advances_peek.bind fun _ => ?_
    grind

/-! Classes. -/

def Members.moved (k : Nat) (m : Members) : Members :=
  ⟨m.start + k, m.members.map (·.moved k)⟩

theorem Members.toClass_moved (k : Nat) (m : Members) :
    (m.moved k).toClass = m.toClass.moved k := by
  obtain ⟨start, members⟩ := m
  match members with
  | [] => rfl
  | [c] => rfl
  | last :: next :: more =>
      have first : ((next :: more).map (·.moved k)).getLast?.elim (start + k) (·.span.start) =
          (next :: more).getLast?.elim start (·.span.start) + k := by
        rw [List.getLast?_map]
        cases (next :: more).getLast? with
        | none => rfl
        | some c => simp [Span.moved]
      change CharClass.union ⟨((next :: more).map (·.moved k)).getLast?.elim (start + k)
        (·.span.start), (last.moved k).span.stop⟩ _ = CharClass.union _ _
      rw [first, CharClass.allMoved_eq_map, List.map_reverse, CharClass.span_moved]
      rfl

def OpenClass.moved (k : Nat) (o : OpenClass) : OpenClass :=
  ⟨o.span.moved k, o.negated, o.around.moved k, o.left.map fun (left, operation) =>
    (left.moved k, operation)⟩

theorem OpenClass.body_moved (k : Nat) (o : OpenClass) (m : Members) :
    (o.moved k).body (m.moved k) = (o.body m).moved k := by
  obtain ⟨span, negated, around, left⟩ := o
  cases left with
  | none => exact m.toClass_moved k
  | some left =>
      simp only [OpenClass.body, OpenClass.moved, Option.map_some, Members.toClass_moved,
        CharClass.span_moved, CharClass.moved]
      rfl

theorem mirrors_readHyphens {bracket bracket' : Nat} (count : Nat) (m : Members)
    (enough : s.rest.length ≤ count) :
    Mirrors spent (Members.moved 4) s (readHyphens bracket count m)
      (readHyphens bracket' (count + 2) (m.moved 4)) := by
  induction count generalizing s m with
  | zero =>
      exact (advances_readHyphens 2 _).mirrors_of_done (List.eq_nil_of_length_eq_zero (by omega))
  | succ count ih =>
      refine mirrors_peekIs (by decide) (fun hyphen => ?_) fun _ => mirrors_pure rfl
      obtain ⟨w, here⟩ := List.head?_eq_some_iff.mp hyphen
      refine mirrors_nextSpan (mirrors_skipOver (mirrors_isDone (fun done => ?_) fun more => ?_) ?_)
      · exact (advances_readHyphens _ _).mirrors_of_done done
      · have shorter : (s.advance 1).skipBlanks.rest.length < s.rest.length :=
          advances_skipOver.length_lt rfl here
        exact ih _ (by omega)
      · grind

theorem mirrors_unlessDone {start start' : Nat} {cause : Cause} :
    Mirrors spent id s (unlessDone cause start) (unlessDone cause start') :=
  mirrors_isDone (fun done => advances_pure.mirrors_of_done (k := 0) done) fun _ => mirrors_pure rfl

/-- Like `Mirrors.bind` where the text may be left with its closing still to come. -/
theorem Mirrors.bind_spent {α β γ δ : Type} {m : Reader α} {m' : Reader β} {n : α → Reader γ}
    {n' : β → Reader δ} {f : α → β} {g : γ → δ} (first : Mirrors spent f s m m')
    (rest : ∀ a u, Reads m s a u → Mirrors spent g u (n a) (n' (f a)))
    (advances : ∀ b, Advances 0 (n' b)) : Mirrors spent g s (m >>= n) (m' >>= n') :=
  first.bind_of rest fun b _ _ _ behind more => (advances b more).trans behind

theorem mirrors_readNegation {bracket bracket' : Nat} :
    Mirrors spent id s (readNegation bracket) (readNegation bracket') := by
  refine mirrors_peekIs (by decide) (fun _ => mirrors_skipOver ?_ (by grind))
    fun _ => mirrors_pure rfl
  exact mirrors_unlessDone.bind_spent (fun _ _ _ => mirrors_pure rfl) (by grind)

theorem mirrors_readFirstMembers {bracket bracket' : Nat} :
    Mirrors spent (Members.moved 4) s (readFirstMembers bracket) (readFirstMembers bracket') := by
  refine mirrors_get (mirrors_position ?_)
  rw [Scan.inside_length]
  refine (mirrors_readHyphens _ ⟨s.position, []⟩ (Nat.le_refl _)).bind_spent (fun m u _ => ?_) ?_
  · refine mirrors_peek (fun done => ?_) fun c w here => ?_
    · exact Advances.mirrors_of_done (k := 0) (by grind) done
    · have same : (m.moved 4).members.isEmpty = m.members.isEmpty := List.isEmpty_map
      rw [same]
      split
      · refine mirrors_nextSpan (mirrors_skipOver ?_ ?_)
        · exact mirrors_unlessDone.bind_spent (fun _ _ _ => mirrors_pure rfl) (by grind)
        · grind
      · exact mirrors_pure rfl
  · intro m
    refine advances_peek.bind fun _ => ?_
    grind

theorem mirrors_readOpening {around : Members} :
    Mirrors spent (fun (opening, members) => (opening.moved 4, members.moved 4)) s
      (readOpening around) (readOpening (around.moved 4)) := by
  refine mirrors_position (mirrors_skipOver ?_ (by grind))
  refine mirrors_unlessDone.bind_spent (fun _ _ _ => ?_) (by grind)
  refine mirrors_readNegation.bind_spent (fun _ _ _ => ?_) (by grind)
  refine mirrors_readFirstMembers.bind_spent (fun _ _ _ => ?_) (by grind)
  exact mirrors_since (mirrors_pure rfl)

theorem mirrors_readMember :
    Mirrors (lostOrLeft Expression.IsAssertion) (Expression.moved 4) s readMember readMember := by
  refine mirrors_peek (fun done => ?_) fun c w here => ?_
  · exact (Advances.mirrors_of_done (k := 1) (advances_bind advances_nextSpan fun _ =>
      advances_skip.bind fun _ => advances_pure) done).of_lost
  · split
    · exact mirrors_readEscape
    · exact mirrors_nextSpan (mirrors_skip (mirrors_pure rfl) advances_pure)
    · exact (never_bind fun _ => never_bind fun _ => never_fail).mirrors

theorem mirrors_memberOf {e : Expression} :
    Mirrors spent (CharClass.moved 4) s (memberOf e) (memberOf (e.moved 4)) := by
  cases e with
  | literal l => exact mirrors_pure rfl
  | charClass c => exact mirrors_pure rfl
  | _ => exact never_fail.mirrors

theorem mirrors_endpointOf {e : Expression} :
    Mirrors spent (Literal.moved 4) s (endpointOf e) (endpointOf (e.moved 4)) := by
  cases e with
  | literal l => exact mirrors_pure rfl
  | _ => exact never_fail.mirrors

theorem Dangling.exists_rest {t : Scan} (left : Dangling t) : ∃ w, t.rest = '{' :: w := by
  obtain ⟨s, rfl, brace, -⟩ := left
  obtain ⟨w, here⟩ := List.head?_eq_some_iff.mp brace
  exact ⟨w ++ closing, congrArg (· ++ closing) here⟩

theorem Dangling.skipBlanks {t : Scan} (left : Dangling t) : t.skipBlanks = t := by
  obtain ⟨w, here⟩ := left.exists_rest
  have nothing : Scan.blankLength false t.rest = 0 := by
    rw [here]
    rfl
  unfold Scan.skipBlanks
  rw [nothing]
  split
  · rfl
  · rfl

theorem trimStart_append_closing (w : List Char) :
    Text.trimStart (w ++ closing) = Text.trimStart w ++ closing := by
  unfold Text.trimStart
  rw [List.dropWhile_append]
  split
  · next nothing =>
    rw [List.isEmpty_iff.mp nothing]
    decide
  · rfl

theorem behindBlanks_append_closing (w : List Char) :
    Scan.behindBlanks (w ++ closing) = Scan.behindBlanks w ++ closing := by
  unfold Scan.behindBlanks
  rw [trimStart_append_closing]
  cases Text.trimStart w with
  | nil => rfl
  | cons c rest =>
      by_cases sign : c = '#'
      · subst sign
        exact trimStart_append_closing rest
      · rw [List.cons_append]
        split
        · next same =>
          cases same
          exact absurd rfl sign
        · split
          · next same =>
            cases same
            exact absurd rfl sign
          · rfl

/-- What comes behind the next character is the same where it does not close the group. -/
theorem peekBehind_inside {c : Char} (more : s.rest ≠ []) (notBlank : Text.isBlank c = false)
    (notSign : c ≠ '#') (other : c ≠ ')') :
    s.inside.peekBehind? = some c ↔ s.peekBehind? = some c := by
  have drop : s.inside.rest.drop 1 = s.rest.drop 1 ++ closing :=
    List.drop_append_of_le_length (Nat.pos_of_ne_zero (mt List.eq_nil_of_length_eq_zero more))
  have head (w : List Char) : (w ++ closing).head? = some c ↔ w.head? = some c := by
    cases w with
    | nil => simp [closing, other.symm]
    | cons d w => rfl
  unfold Scan.peekBehind?
  rw [drop]
  dsimp only
  change (if s.ignoreBlanks then _ else _) = _ ↔ _
  cases s.ignoreBlanks with
  | false => exact head _
  | true =>
      rw [if_pos rfl, if_pos rfl, behindBlanks_append_closing]
      cases behind : Scan.behindBlanks (s.rest.drop 1) with
      | cons d w => rfl
      | nil =>
          refine iff_of_false (by simp [closing, other.symm]) fun first => ?_
          obtain ⟨w, here⟩ := List.head?_eq_some_iff.mp first
          have kept : Text.trimStart (c :: w) = c :: w := by
            rw [Text.trimStart, List.dropWhile_cons_of_neg (by simp [notBlank])]
          rw [here, Scan.behindBlanks, kept] at behind
          split at behind
          · next same => exact notSign (List.cons.inj same).1
          · cases behind

theorem mirrors_readRangeFrom {opening opening' : Span} {first : Expression} :
    Mirrors spent (CharClass.moved 4) s (readRangeFrom opening first)
      (readRangeFrom opening' (first.moved 4)) := by
  refine mirrors_skipOver (mirrors_isDone (fun done => ?_) fun _ => ?_) (by grind)
  · exact Advances.mirrors_of_done (k := 0) (by grind) done
  · refine mirrors_readMember.bind_of (fun last _ _ => ?_) ?_
    · refine mirrors_endpointOf.bind_spent (fun low _ _ => ?_) (by grind)
      refine mirrors_endpointOf.bind_spent (fun high _ _ => ?_) (by grind)
      change Mirrors _ _ _ _ (if high.char < low.char then _ else _)
      split
      · exact never_fail.mirrors
      · exact mirrors_pure (by simp [CharClass.moved, Span.moved])
    · rintro e t c v (behind | ⟨⟨span, a, rfl⟩, -⟩) reads
      · refine Loses.loses (List.IsSuffix.trans ((?_ : Advances 0 _) reads) behind)
        grind
      · exact (never_bind (fun _ => Never.bind never_fail) reads).elim

/-- Braces that are left at the end of the text are no members of a class. -/
theorem mirrors_readRange {opening opening' : Span} :
    Mirrors spent (CharClass.moved 4) s (readRange opening) (readRange opening') := by
  refine mirrors_readMember.bind_of (fun first _ _ => ?_) ?_
  · refine mirrors_skipBlanks (mirrors_get (mirrors_isDone (fun done => ?_) fun more => ?_)) ?_
    · exact Advances.mirrors_of_done (k := 0) (by grind) done
    · refine mirrors_peek (fun done => absurd done more) fun c w here => ?_
      have bracket := peekBehind_inside (c := ']') more (by decide) (by decide) (by decide)
      have hyphen := peekBehind_inside (c := '-') more (by decide) (by decide) (by decide)
      simp only [bracket, hyphen]
      split
      · exact mirrors_memberOf
      · exact mirrors_readRangeFrom
    · grind
  · rintro e t c v (behind | ⟨⟨span, a, rfl⟩, left⟩) reads
    · refine Loses.loses (List.IsSuffix.trans ((?_ : Advances 0 _) reads) behind)
      grind
    · obtain ⟨w, here⟩ := left.exists_rest
      obtain ⟨_, _, ⟨⟩, reads⟩ := reads_bind.mp reads
      rw [left.skipBlanks] at reads
      obtain ⟨_, _, ⟨⟩, reads⟩ := reads_bind.mp reads
      obtain ⟨_, _, ⟨⟩, reads⟩ := reads_bind.mp reads
      rw [here, if_neg (by simp)] at reads
      obtain ⟨_, _, ⟨⟩, reads⟩ := reads_bind.mp reads
      rw [here, if_pos (by simp)] at reads
      exact (never_fail reads).elim

/-! Whole classes. -/

theorem operation_append_closing (w : List Char) : operation? (w ++ closing) = operation? w := by
  match w with
  | [] => rfl
  | [c] =>
    change (if c = ')' then operationSigns.lookup c else none) = none
    split
    · next same => rw [same]; rfl
    · rfl
  | c :: d :: w => rfl

theorem className_append_closing (w : List Char) : className? (w ++ closing) = className? w := by
  cases behind : w.dropWhile (· ≠ ':') with
  | nil =>
      have nothing : (w ++ closing).dropWhile (· ≠ ':') = [] := by
        rw [List.dropWhile_append, behind]
        decide
      rw [className?, className?, nothing, behind]
      rfl
  | cons c rest =>
      have whole := List.takeWhile_append_dropWhile (p := (· ≠ ':')) (l := w)
      have name : (w ++ closing).takeWhile (· ≠ ':') = w.takeWhile (· ≠ ':') := by
        rw [List.takeWhile_append, if_neg]
        intro all
        rw [behind] at whole
        have := congrArg List.length whole
        simp only [List.length_append, List.length_cons] at this
        omega
      have kept : (w ++ closing).dropWhile (· ≠ ':') = (c :: rest) ++ closing := by
        rw [List.dropWhile_append, behind, if_neg (by simp)]
      rw [className?, className?, name, kept, behind, isPrefixOf_append_closing (by decide)]

theorem namedClass_append_closing (w : List Char) : namedClass? (w ++ closing) = namedClass? w := by
  have dropped {sign : List Char} (starts : sign.isPrefixOf w) :
      (w ++ closing).drop sign.length = w.drop sign.length ++ closing :=
    List.drop_append_of_le_length (List.isPrefixOf_iff_prefix.mp starts).length_le
  unfold namedClass?
  rw [isPrefixOf_append_closing (by decide), isPrefixOf_append_closing (by decide)]
  split
  · next starts =>
    rw [show 3 = ['[', ':', '^'].length from rfl, dropped starts, className_append_closing]
  · split
    · next starts =>
      rw [show 2 = ['[', ':'].length from rfl, dropped starts, className_append_closing]
    · rfl

/-- No class is read to its end in what is left of the closing. -/
theorem not_reads_readMembers (count : Nat) (o : OpenClasses) {s t : Scan} {c : CharClass}
    (behind : s.rest <:+ closing) : ¬ Reads (readMembers count o) s c t := by
  induction count generalizing s o with
  | zero => exact fun reads => never_fail reads
  | succ count ih =>
      intro reads
      obtain ⟨_, _, ⟨⟩, reads⟩ := reads_bind.mp reads
      obtain ⟨_, _, ⟨⟩, reads⟩ := reads_bind.mp reads
      have behind : s.skipBlanks.rest <:+ closing := (suffix_skipBlanks s).trans behind
      split at reads
      · next bracket =>
        have closes := behind.subset (List.mem_of_mem_head? bracket)
        exact absurd closes (by decide)
      · obtain ⟨_, _, part, reads⟩ := reads_bind.mp reads
        exact ih _ ((advances_readClassPart.weaken part).trans behind) reads

def OpenClasses.moved (k : Nat) (o : OpenClasses) : OpenClasses :=
  ⟨o.innermost.moved k, o.outer.map (·.moved k), o.members.moved k⟩

theorem OpenClass.closed_moved (k : Nat) (o : OpenClass) (m : Members) (stop : Nat) :
    (o.moved k).closed (m.moved k) (stop + k) = (o.closed m stop).moved k := by
  rw [OpenClass.closed, OpenClass.body_moved]
  rfl

theorem OpenClasses.close_moved (k : Nat) (o : OpenClasses) (stop : Nat) :
    (o.moved k).close (stop + k) = (o.close stop).map (·.moved k) (·.moved k) := by
  obtain ⟨innermost, outer, members⟩ := o
  have closed := innermost.closed_moved k members stop
  cases outer with
  | nil => exact congrArg Sum.inr closed
  | cons next outer =>
      change Sum.inl (OpenClasses.mk _ _ ((innermost.moved k).around.add
        ((innermost.moved k).closed (members.moved k) (stop + k)))) = _
      rw [closed]
      rfl

theorem mirrors_readClassPart {o : OpenClasses} :
    Mirrors spent (OpenClasses.moved 4) s (readClassPart o) (readClassPart (o.moved 4)) := by
  refine mirrors_peek (fun done => ?_) fun c w here => ?_
  · refine Advances.mirrors_of_done (k := 0) (advances_get.bind fun _ => ?_) done
    split
    · exact (advances_modify fun _ => List.drop_suffix _ _).bind fun _ =>
        advances_position.bind fun _ => advances_pure
    · exact advances_readRange.weaken.bind fun _ => advances_pure
  · split
    · exact never_fail.mirrors
    · refine mirrors_get ?_
      rw [Scan.inside_rest, namedClass_append_closing]
      split
      · refine mirrors_position (mirrors_advance (mirrors_since (mirrors_pure rfl)) (by grind))
      · exact mirrors_readOpening.bind_spent (fun _ _ _ => mirrors_pure rfl) (by grind)
    · refine mirrors_get ?_
      rw [Scan.inside_rest, operation_append_closing]
      split
      · refine mirrors_advance (mirrors_position (mirrors_pure ?_)) (by grind)
        rw [OpenClasses.moved, OpenClasses.moved, OpenClass.body_moved]
        rfl
      · exact mirrors_readRange.bind_spent (fun _ _ _ => mirrors_pure rfl) (by grind)

theorem mirrors_readMembers (count : Nat) (o : OpenClasses) (enough : s.rest.length < count) :
    Mirrors lost (CharClass.moved 4) s (readMembers count o)
      (readMembers (count + 2) (o.moved 4)) := by
  induction count generalizing s o with
  | zero => exact absurd enough (Nat.not_lt_zero _)
  | succ count ih =>
      have fewer : s.skipBlanks.rest.length ≤ s.rest.length := (suffix_skipBlanks s).length_le
      refine mirrors_skipBlanks (mirrors_peekIs (by decide) (fun bracket => ?_) fun _ => ?_)
        (by grind)
      · obtain ⟨w, here⟩ := List.head?_eq_some_iff.mp bracket
        have shorter : (s.skipBlanks.advance 1).rest.length < s.skipBlanks.rest.length :=
          advances_skip.length_lt rfl here
        refine mirrors_skip (mirrors_position ?_) (by grind)
        rw [OpenClasses.close_moved]
        cases o.close (s.skipBlanks.advance 1).position with
        | inl o => exact ih o (by omega)
        | inr c => exact mirrors_pure rfl
      · refine mirrors_readClassPart.bind_of (fun o u reads => ?_) fun _ _ _ _ behind reads =>
          (not_reads_readMembers _ _ behind reads).elim
        cases here : s.skipBlanks.rest with
        | nil =>
            obtain ⟨_, _, ⟨⟩, reads⟩ := reads_bind.mp reads
            rw [here] at reads
            exact (never_fail reads).elim
        | cons c w =>
            have shorter := advances_readClassPart.length_lt reads here
            exact ih o (by omega)

theorem mirrors_readClass : Mirrors lost (CharClass.moved 4) s readClass readClass := by
  refine mirrors_position (mirrors_readOpening.bind_of (fun (opening, members) _ _ => ?_) ?_)
  · refine mirrors_get ?_
    rw [Scan.inside_length]
    exact mirrors_readMembers _ ⟨opening, [], members⟩ (Nat.lt_succ_self _)
  · intro _ _ _ _ behind reads
    obtain ⟨_, _, ⟨⟩, reads⟩ := reads_bind.mp reads
    exact (not_reads_readMembers _ _ behind reads).elim

end Variability.Regex
