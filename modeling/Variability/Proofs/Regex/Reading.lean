import Mathlib.Data.List.Infix
import Variability.Regex.Reader

/-!
Readers go forward. What a reader leaves of a text is an end of it, and a reader of a part of an
expression takes at least one character.
-/

namespace Variability.Regex

open Reader

variable {α β : Type} {m : Reader α} {n : α → Reader β}

/-- The reader succeeds on a scan with a result and leaves another scan. -/
def Reads (m : Reader α) (s : Scan) (a : α) (t : Scan) : Prop :=
  m.run s = .ok (a, t)

theorem reads_bind {s t : Scan} {b : β} :
    Reads (m >>= n) s b t ↔ ∃ a u, Reads m s a u ∧ Reads (n a) u b t := by
  unfold Reads
  rw [StateT.run_bind]
  cases m.run s with
  | error e => simp [bind, Except.bind]
  | ok p =>
      obtain ⟨a, u⟩ := p
      constructor
      · exact fun rest => ⟨a, u, rfl, rest⟩
      · rintro ⟨_, _, same, rest⟩
        cases same
        exact rest

theorem reads_pure {s t : Scan} {a x : α} : Reads (pure x) s a t ↔ a = x ∧ t = s := by
  rw [Reads, StateT.run_pure]
  constructor
  · rintro ⟨⟩
    exact ⟨rfl, rfl⟩
  · rintro ⟨rfl, rfl⟩
    rfl

/-- The reader does not succeed on any scan. -/
def Never (m : Reader α) : Prop :=
  ∀ ⦃s a t⦄, ¬ Reads m s a t

theorem never_fail {cause : Cause} {span : Span} : Never (fail cause span : Reader α) :=
  nofun

theorem never_throw {p : Problem} : Never (throw p : Reader α) :=
  nofun

theorem Never.bind (first : Never m) : Never (m >>= n) := by
  intro s b t reads
  obtain ⟨a, u, fails, -⟩ := reads_bind.mp reads
  exact first fails

theorem never_bind (rest : ∀ a, Never (n a)) : Never (m >>= n) := by
  intro s b t reads
  obtain ⟨a, u, -, fails⟩ := reads_bind.mp reads
  exact rest a fails

theorem drop_suffix_drop {α : Type} (k : Nat) {u v : List α} (h : u <:+ v) :
    u.drop k <:+ v.drop k := by
  obtain ⟨p, rfl⟩ := h
  have back : u.drop k = (u.drop (k - p.length)).drop (k - (k - p.length)) := by
    rw [List.drop_drop]
    congr 1
    omega
  rw [List.drop_append, back]
  exact (List.drop_suffix _ _).trans (List.suffix_append _ _)

/-- What the reader leaves is an end of the text behind the next `k` characters. -/
def Advances (k : Nat) (m : Reader α) : Prop :=
  ∀ ⦃s a t⦄, Reads m s a t → t.rest <:+ s.rest.drop k

variable {k : Nat}

theorem Never.advances (never : Never m) : Advances k m :=
  fun _ _ _ reads => (never reads).elim

@[grind ←] theorem advances_fail {cause : Cause} {span : Span} :
    Advances k (fail cause span : Reader α) :=
  never_fail.advances

@[grind ←] theorem advances_throw {p : Problem} : Advances k (throw p : Reader α) :=
  never_throw.advances

theorem Advances.weaken (advances : Advances k m) : Advances 0 m :=
  fun s _ _ reads => (advances reads).trans (List.drop_suffix k s.rest)

@[grind ←] theorem Advances.of_taking (advances : Advances 1 m) : Advances 0 m :=
  advances.weaken

/-- Readers that take something leave less than they were given. -/
theorem Advances.length_lt {s t : Scan} {a : α} {c : Char} {w : List Char}
    (advances : Advances 1 m) (reads : Reads m s a t) (here : s.rest = c :: w) :
    t.rest.length < s.rest.length := by
  have shorter := (advances reads).length_le
  rw [here, List.drop_one, List.tail_cons] at shorter
  rw [here, List.length_cons]
  omega

@[grind ←] theorem advances_pure {a : α} : Advances 0 (pure a : Reader α) := by
  intro s b t reads
  rw [(reads_pure.mp reads).2]
  exact List.suffix_rfl

theorem advances_bind (first : Advances 0 m) (rest : ∀ a, Advances k (n a)) :
    Advances k (m >>= n) := by
  intro s b t reads
  obtain ⟨a, u, reads, more⟩ := reads_bind.mp reads
  exact (rest a more).trans (drop_suffix_drop k (first reads))

@[grind ←] theorem Advances.bind (first : Advances k m) (rest : ∀ a, Advances 0 (n a)) :
    Advances k (m >>= n) := by
  intro s b t reads
  obtain ⟨a, u, reads, more⟩ := reads_bind.mp reads
  exact (rest a more).trans (first reads)

theorem advances_ite {c : Prop} [Decidable c] {m' : Reader α} (yes : Advances k m)
    (no : Advances k m') : Advances k (if c then m else m') := by
  split
  · exact yes
  · exact no

/-! Single steps. -/

@[grind ←] theorem advances_get : Advances 0 (get : Reader Scan) := by
  rintro s _ _ ⟨⟩
  exact List.suffix_rfl

theorem advances_modify {f : Scan → Scan} (forward : ∀ s, (f s).rest <:+ s.rest.drop k) :
    Advances k (modify f) := by
  rintro s _ _ ⟨⟩
  exact forward s

@[grind ←] theorem advances_position : Advances 0 position :=
  advances_bind advances_get fun _ => advances_pure

@[grind ←] theorem advances_since {start : Nat} : Advances 0 (since start) :=
  advances_bind advances_position fun _ => advances_pure

@[grind ←] theorem advances_nextSpan : Advances 0 nextSpan :=
  advances_bind advances_position fun _ => advances_bind advances_position fun _ => advances_pure

@[grind ←] theorem advances_peek : Advances 0 peek? :=
  advances_bind advances_get fun _ => advances_pure

@[grind ←] theorem advances_isDone : Advances 0 isDone :=
  advances_bind advances_get fun _ => advances_pure

theorem suffix_skipBlanks (s : Scan) : s.skipBlanks.rest <:+ s.rest := by
  unfold Scan.skipBlanks
  split
  · exact List.drop_suffix _ _
  · exact List.suffix_rfl

@[grind ←] theorem advances_skip : Advances 1 skip :=
  advances_modify fun _ => List.suffix_rfl

@[grind ←] theorem advances_skipBlanks : Advances 0 skipBlanks :=
  advances_modify suffix_skipBlanks

@[grind ←] theorem advances_skipOver : Advances 1 skipOver :=
  advances_modify fun _ => suffix_skipBlanks _

@[grind ←] theorem advances_skipIf {text : List Char} : Advances 0 (skipIf text) := by
  intro s b t reads
  obtain ⟨_, _, ⟨⟩, reads⟩ := reads_bind.mp reads
  split at reads
  · obtain ⟨_, _, ⟨⟩, reads⟩ := reads_bind.mp reads
    rw [(reads_pure.mp reads).2]
    exact List.drop_suffix _ _
  · rw [(reads_pure.mp reads).2]
    exact List.suffix_rfl

@[grind ←] theorem advances_takeUpTo {accept : Char → Bool} (count : Nat) :
    Advances 0 (takeUpTo accept count) := by
  induction count with
  | zero => exact advances_pure
  | succ count ih =>
      refine advances_bind advances_peek fun next => ?_
      split
      · exact advances_pure
      · refine advances_ite ?_ advances_pure
        exact advances_skipOver.weaken.bind fun _ => ih.bind fun _ => advances_pure

@[grind ←] theorem advances_takeWhile {accept : Char → Bool} : Advances 0 (takeWhile accept) :=
  advances_get.bind fun _ => advances_takeUpTo _

/-- A check that fails at the end of the text. -/
@[grind ←] theorem advances_unlessDone {start : Nat} {cause : Cause} :
    Advances 0 (unlessDone cause start) :=
  advances_isDone.bind fun _ =>
    advances_ite (advances_since.bind fun _ => advances_fail) advances_pure

/-! Escapes. -/

@[grind ←] theorem advances_readHexDigit : Advances 1 readHexDigit := by
  refine advances_bind advances_peek fun next => ?_
  split
  · exact (never_bind fun _ => never_bind fun _ => never_fail).advances
  · split
    · exact (never_bind fun _ => never_fail).advances
    · exact advances_skipOver.bind fun _ => advances_pure

@[grind ←] theorem advances_readHexToBrace {brace : Nat} (count : Nat) :
    Advances 0 (readHexToBrace brace count) := by
  induction count with
  | zero => exact (never_bind fun _ => never_fail).advances
  | succ count ih =>
      refine advances_peek.bind fun next => ?_
      split
      · exact (never_bind fun _ => never_fail).advances
      · exact advances_pure
      · exact advances_readHexDigit.weaken.bind fun _ => ih.bind fun _ => advances_pure

@[grind ←] theorem advances_readCodeInBraces {start : Nat} :
    Advances 1 (readCodeInBraces start) := by
  refine advances_bind advances_position fun _ => advances_skipOver.bind fun _ =>
    advances_get.bind fun _ => (advances_readHexToBrace _).bind fun _ => advances_position.bind
    fun _ => advances_skipOver.weaken.bind fun _ => advances_ite ?_ ?_
  · exact (never_bind fun _ => never_fail).advances
  · split
    · exact advances_fail
    · exact advances_since.bind fun _ => advances_pure

theorem advances_readHexDigits (l : List Unit) :
    Advances 0 (l.mapM fun _ => readHexDigit) := by
  induction l with
  | nil => exact advances_pure
  | cons _ l ih =>
      rw [List.mapM_cons]
      exact advances_readHexDigit.weaken.bind fun _ => ih.bind fun _ => advances_pure

@[grind ←] theorem advances_readCode {start : Nat} {letter : Char} :
    Advances 0 (readCode start letter) := by
  refine advances_position.bind fun _ => (advances_readHexDigits _).bind fun _ => ?_
  split
  · exact (never_bind fun _ => never_fail).advances
  · exact advances_since.bind fun _ => advances_pure

@[grind ←] theorem advances_readHex {start : Nat} {letter : Char} :
    Advances 1 (readHex start letter) :=
  advances_skipOver.bind fun _ => advances_peek.bind fun _ =>
    advances_ite advances_readCodeInBraces.weaken advances_readCode

@[grind ←] theorem advances_readProperty {start : Nat} {negated : Bool} :
    Advances 1 (readProperty start negated) := by
  refine advances_skipOver.bind fun _ => advances_peek.bind fun _ => ?_
  split
  · exact (never_bind fun _ => never_bind fun _ => never_fail).advances
  · exact (never_bind fun _ => never_fail).advances
  · refine advances_skipOver.weaken.bind fun _ => advances_takeWhile.bind fun _ =>
      advances_isDone.bind fun _ => advances_ite ?_ ?_
    · exact (never_bind fun _ => never_bind fun _ => never_fail).advances
    · exact advances_skip.weaken.bind fun _ => advances_since.bind fun _ => advances_pure
  · exact advances_skipOver.weaken.bind fun _ => advances_since.bind fun _ => advances_pure

@[grind ←] theorem advances_readPlaceName {brace : Nat} : Advances 0 (readPlaceName brace) := by
  refine advances_position.bind fun _ => advances_takeWhile.bind fun _ =>
    advances_peek.bind fun _ => advances_ite ?_ ?_
  · exact (never_bind fun _ => never_fail).advances
  · refine advances_since.bind fun _ => advances_skip.weaken.bind fun _ => ?_
    split
    · exact advances_fail
    · exact advances_pure

/-- Either the name of a place is read, or braces are left as they are. -/
@[grind ←] theorem advances_readWordPlace {start : Nat} : Advances 0 (readWordPlace? start) := by
  intro s b t reads
  obtain ⟨_, _, ⟨⟩, reads⟩ := reads_bind.mp reads
  obtain ⟨_, u, skipped, reads⟩ := reads_bind.mp reads
  obtain ⟨_, _, ⟨⟩, reads⟩ := reads_bind.mp reads
  split at reads
  · exact ((never_bind fun _ => never_fail : Never _) reads).elim
  · obtain ⟨_, _, ⟨⟩, reads⟩ := reads_bind.mp reads
    split at reads
    · obtain ⟨_, _, ⟨⟩, reads⟩ := reads_bind.mp reads
      rw [(reads_pure.mp reads).2]
      exact List.suffix_rfl
    · exact ((advances_readPlaceName.bind fun _ => advances_pure) reads).trans
        (advances_skipOver.weaken skipped)

@[grind ←] theorem advances_readAssertion {start : Nat} {a : Assertion} :
    Advances 0 (readAssertion start a) := by
  refine advances_since.bind fun _ => advances_peek.bind fun _ => advances_ite ?_ advances_pure
  refine advances_readWordPlace.bind fun _ => ?_
  split
  · exact advances_pure
  · exact advances_since.bind fun _ => advances_pure

@[grind ←] theorem advances_readEscape : Advances 1 readEscape := by
  refine advances_bind advances_position fun _ => advances_skip.bind fun _ =>
    advances_peek.bind fun _ => ?_
  split
  · exact (never_bind fun _ => never_fail).advances
  · refine advances_ite (never_bind fun _ => never_fail).advances
      (advances_ite advances_readHex.weaken (advances_ite advances_readProperty.weaken ?_))
    refine advances_skip.weaken.bind fun _ => advances_since.bind fun _ => ?_
    split
    · exact advances_pure
    · exact advances_readAssertion
    · exact advances_pure
    · exact advances_ite advances_pure advances_fail

/-! Classes. -/

@[grind ←] theorem advances_readHyphens {bracket : Nat} (count : Nat) (m : Members) :
    Advances 0 (readHyphens bracket count m) := by
  induction count generalizing m with
  | zero => exact advances_pure
  | succ count ih =>
      refine advances_peek.bind fun _ => advances_ite ?_ advances_pure
      exact advances_nextSpan.bind fun _ => advances_skipOver.weaken.bind fun _ =>
        advances_isDone.bind fun _ => advances_ite advances_fail (ih _)

@[grind ←] theorem advances_readNegation {bracket : Nat} : Advances 0 (readNegation bracket) :=
  advances_peek.bind fun _ => advances_ite (advances_skipOver.weaken.bind fun _ =>
    advances_unlessDone.bind fun _ => advances_pure) advances_pure

@[grind ←] theorem advances_readFirstMembers {bracket : Nat} :
    Advances 0 (readFirstMembers bracket) := by
  refine advances_get.bind fun _ => advances_position.bind fun _ =>
    (advances_readHyphens _ _).bind fun _ => advances_peek.bind fun _ =>
    advances_ite ?_ advances_pure
  exact advances_nextSpan.bind fun _ => advances_skipOver.weaken.bind fun _ =>
    advances_unlessDone.bind fun _ => advances_pure

@[grind ←] theorem advances_readOpening {around : Members} : Advances 1 (readOpening around) :=
  advances_bind advances_position fun _ => advances_skipOver.bind fun _ =>
    advances_unlessDone.bind fun _ => advances_readNegation.bind fun _ =>
    advances_readFirstMembers.bind fun _ => advances_since.bind fun _ => advances_pure

@[grind ←] theorem advances_readMember : Advances 1 readMember := by
  refine advances_bind advances_peek fun _ => ?_
  split
  · exact advances_readEscape
  · exact advances_bind advances_nextSpan fun _ => advances_skip.bind fun _ => advances_pure
  · exact (never_bind fun _ => never_bind fun _ => never_fail).advances

@[grind ←] theorem advances_memberOf {e : Expression} : Advances 0 (memberOf e) := by
  unfold memberOf
  split
  · exact advances_pure
  · exact advances_pure
  · exact advances_fail

@[grind ←] theorem advances_endpointOf {e : Expression} : Advances 0 (endpointOf e) := by
  unfold endpointOf
  split
  · exact advances_pure
  · exact advances_fail

@[grind ←] theorem advances_readRangeFrom {opening : Span} {first : Expression} :
    Advances 1 (readRangeFrom opening first) := by
  refine advances_skipOver.bind fun _ => advances_isDone.bind fun _ =>
    advances_ite advances_fail (advances_readMember.weaken.bind fun _ => ?_)
  exact advances_endpointOf.bind fun _ => advances_endpointOf.bind fun _ =>
    advances_ite advances_fail advances_pure

@[grind ←] theorem advances_readRange {opening : Span} : Advances 1 (readRange opening) :=
  advances_readMember.bind fun _ => advances_skipBlanks.bind fun _ => advances_get.bind
    fun _ => advances_isDone.bind fun _ => advances_ite advances_fail
    (advances_peek.bind fun _ => advances_ite advances_memberOf advances_readRangeFrom.weaken)

theorem length_of_namedClass {w : List Char} {negated : Bool} {name : NamedClass} {length : Nat}
    (found : namedClass? w = some (negated, name, length)) : 0 < length := by
  unfold namedClass? at found
  split at found
  · obtain ⟨⟨_, n⟩, -, same⟩ := Option.map_eq_some_iff.mp found
    cases same
    exact Nat.succ_pos _
  · split at found
    · obtain ⟨⟨_, n⟩, -, same⟩ := Option.map_eq_some_iff.mp found
      cases same
      exact Nat.succ_pos _
    · cases found

theorem advances_advance {n : Nat} (positive : 0 < n) : Advances 1 (modify (·.advance n)) := by
  refine advances_modify fun s => ?_
  obtain ⟨n, rfl⟩ := Nat.exists_eq_succ_of_ne_zero (Nat.pos_iff_ne_zero.mp positive)
  change s.rest.drop (n + 1) <:+ _
  rw [Nat.add_comm, ← List.drop_drop]
  exact List.drop_suffix _ _

@[grind ←] theorem advances_readClassPart {o : OpenClasses} : Advances 1 (readClassPart o) := by
  refine advances_bind advances_peek fun _ => ?_
  split
  · exact advances_fail
  · refine advances_bind advances_get fun _ => ?_
    split
    · next found =>
      exact advances_bind advances_position fun _ =>
        (advances_advance (length_of_namedClass found)).bind fun _ =>
        advances_since.bind fun _ => advances_pure
    · exact advances_readOpening.bind fun _ => advances_pure
  · refine advances_bind advances_get fun _ => ?_
    split
    · exact (advances_advance (by decide)).bind fun _ => advances_position.bind fun _ =>
        advances_pure
    · exact advances_readRange.bind fun _ => advances_pure

@[grind ←] theorem advances_readMembers (count : Nat) (o : OpenClasses) :
    Advances 0 (readMembers count o) := by
  induction count generalizing o with
  | zero => exact advances_fail
  | succ count ih =>
      refine advances_skipBlanks.bind fun _ => advances_peek.bind fun _ => advances_ite ?_
        (advances_readClassPart.weaken.bind fun _ => ih _)
      refine advances_skip.weaken.bind fun _ => advances_position.bind fun _ => ?_
      split
      · exact ih _
      · exact advances_pure

@[grind ←] theorem advances_readClass : Advances 1 readClass :=
  advances_bind advances_position fun _ => advances_readOpening.bind fun _ =>
    advances_get.bind fun _ => advances_readMembers _ _

/-! Repetitions. -/

@[grind ←] theorem advances_readCount : Advances 0 readCount :=
  advances_takeWhile.bind fun _ => advances_position.bind fun _ => advances_takeWhile.bind fun _ =>
    advances_since.bind fun _ => advances_takeWhile.bind fun _ =>
    advances_ite advances_fail (advances_ite advances_fail advances_pure)

@[grind ←] theorem advances_skipLazy : Advances 0 skipLazy :=
  advances_skipIf.bind fun _ => advances_pure

@[grind ←] theorem advances_readMost {start least : Nat} : Advances 0 (readMost start least) := by
  refine advances_peek.bind fun _ => advances_ite ?_ advances_pure
  exact advances_skipOver.weaken.bind fun _ => advances_unlessDone.bind fun _ =>
    advances_peek.bind fun _ =>
    advances_ite advances_pure (advances_readCount.bind fun _ => advances_pure)

@[grind ←] theorem advances_readBounds {start : Nat} : Advances 0 (readBounds start) :=
  advances_unlessDone.bind fun _ => advances_readCount.bind fun _ =>
    advances_unlessDone.bind fun _ => advances_readMost.bind fun _ => advances_pure

@[grind ←] theorem advances_closeCounts {start : Nat} {bounds : Nat × Option Nat} :
    Advances 0 (closeCounts start bounds) := by
  refine advances_peek.bind fun _ => advances_ite (never_bind fun _ => never_fail).advances ?_
  exact advances_skipOver.weaken.bind fun _ => advances_skipLazy.bind fun _ =>
    advances_ite (never_bind fun _ => never_fail).advances advances_pure

@[grind ←] theorem advances_readCounts : Advances 1 readCounts :=
  advances_bind advances_position fun _ => advances_skipOver.bind fun _ =>
    advances_readBounds.bind fun _ => advances_closeCounts

@[grind ←] theorem advances_readTimes {sign : Char} : Advances 1 (readTimes sign) := by
  refine advances_ite advances_readCounts (advances_skip.bind fun _ => advances_skipLazy.bind
    fun _ => ?_)
  split
  · exact advances_pure
  · exact advances_pure
  · exact advances_pure

/-! Groups. -/

@[grind ←] theorem advances_readFlags (count : Nat) (items : List FlagItem) :
    Advances 0 (readFlags count items) := by
  induction count generalizing items with
  | zero => exact (never_bind fun _ => never_bind fun _ => never_fail).advances
  | succ count ih =>
      refine advances_nextSpan.bind fun _ => advances_peek.bind fun _ => ?_
      split
      · exact advances_fail
      · refine advances_ite ?_ (advances_ite advances_fail ?_)
        · split
          · exact advances_fail
          · exact advances_pure
        · split
          · exact advances_throw
          · exact advances_skip.weaken.bind fun _ => ih _

@[grind ←] theorem advances_readNameChars (count : Nat) (first : Bool) :
    Advances 0 (readNameChars count first) := by
  induction count generalizing first with
  | zero => exact (never_bind fun _ => never_bind fun _ => never_fail).advances
  | succ count ih =>
      refine advances_peek.bind fun _ => ?_
      split
      · exact (never_bind fun _ => never_bind fun _ => never_fail).advances
      · exact advances_pure
      · exact advances_ite
          (advances_skip.weaken.bind fun _ => (ih _).bind fun _ => advances_pure)
          (never_bind fun _ => never_fail).advances

@[grind ←] theorem advances_addName {name : List Char} {span : Span} :
    Advances 0 (addName name span) := by
  refine advances_get.bind fun _ => ?_
  split
  · exact advances_throw
  · exact advances_modify fun _ => List.suffix_rfl

@[grind ←] theorem advances_readName : Advances 1 readName :=
  advances_bind advances_position fun _ => advances_bind advances_get fun _ =>
    advances_bind (advances_readNameChars _ _) fun _ => advances_bind advances_since fun _ =>
    advances_skip.bind fun _ => advances_ite advances_fail advances_addName

@[grind ←] theorem advances_refuseLookAround {start : Nat} (signs : List String) :
    Advances 0 (refuseLookAround start signs) := by
  induction signs with
  | nil => exact advances_pure
  | cons sign signs ih =>
      exact advances_skipIf.bind fun _ => advances_ite (never_bind fun _ => never_fail).advances ih

@[grind ←] theorem advances_readFlagged {start inner : Nat} :
    Advances 0 (readFlagged start inner) :=
  advances_isDone.bind fun _ => advances_ite advances_fail (advances_get.bind fun _ =>
    (advances_readFlags _ _).bind fun _ => advances_peek.bind fun _ =>
    advances_skip.weaken.bind fun _ => advances_ite advances_pure
    (advances_ite advances_fail advances_pure))

theorem advances_nameSign : Advances 0 (skipIf "?P<".toList <||> skipIf "?<".toList) := by
  refine advances_skipIf.bind fun found => ?_
  cases found with
  | false => exact advances_skipIf
  | true => exact advances_pure

@[grind ←] theorem advances_readOpened {start inner : Nat} : Advances 0 (readOpened start inner) :=
  advances_nameSign.bind fun _ => advances_ite
    (advances_readName.weaken.bind fun _ => advances_pure)
    (advances_skipIf.bind fun _ => advances_ite advances_readFlagged advances_pure)

@[grind ←] theorem advances_readParenthesis : Advances 1 readParenthesis :=
  advances_bind advances_position fun _ => advances_skip.bind fun _ =>
    advances_skipBlanks.bind fun _ => advances_position.bind fun _ =>
    (advances_refuseLookAround _).bind fun _ => advances_readOpened

@[grind ←] theorem advances_readPrimitive {c : Char} : Advances 1 (readPrimitive c) := by
  refine advances_ite advances_readEscape (advances_bind advances_nextSpan fun _ =>
    advances_skip.bind fun _ => ?_)
  split
  · exact advances_pure
  · exact advances_pure
  · exact advances_pure
  · exact advances_pure

@[grind ←] theorem advances_openGroup {g : OpenGroups} : Advances 1 (openGroup g) := by
  refine advances_bind advances_position fun _ => advances_bind advances_get fun _ =>
    advances_readParenthesis.bind fun _ => ?_
  split
  · exact (advances_modify fun _ => List.suffix_rfl).bind fun _ => advances_since.bind fun _ =>
      advances_pure
  · exact (advances_modify fun _ => List.suffix_rfl).bind fun _ => advances_position.bind fun _ =>
      advances_pure

@[grind ←] theorem advances_closeGroup {g : OpenGroups} : Advances 1 (closeGroup g) := by
  unfold closeGroup
  split
  · exact advances_bind advances_position fun _ => advances_skip.bind fun _ =>
      (advances_modify fun _ => List.suffix_rfl).bind fun _ => advances_since.bind fun _ =>
      advances_pure
  · exact (never_bind fun _ => never_fail).advances

@[grind ←] theorem advances_repeatLast {sign : Char} {g : OpenGroups} :
    Advances 1 (repeatLast sign g) := by
  refine advances_bind advances_position fun _ => ?_
  split
  · exact advances_fail
  · exact advances_ite (advances_readTimes.bind fun _ => advances_since.bind fun _ =>
      advances_pure) advances_fail

@[grind ←] theorem advances_readPart {c : Char} {g : OpenGroups} : Advances 1 (readPart c g) := by
  unfold readPart
  split
  · exact advances_openGroup
  · exact advances_bind advances_position fun _ => advances_skip.bind fun _ => advances_pure
  · exact advances_readClass.bind fun _ => advances_pure
  · exact advances_ite advances_repeatLast (advances_readPrimitive.bind fun _ => advances_pure)

end Variability.Regex
