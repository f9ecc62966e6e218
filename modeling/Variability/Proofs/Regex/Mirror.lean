import Variability.Proofs.Regex.Moved
import Variability.Proofs.Regex.Reading

/-!
Reading a text that stands between `^(?:` and `)$`. Step by step a reader does there what it does on
the text alone, four characters further on. Only behind the end of the text it can go on instead of
failing, and then it takes the parenthesis that closes the group.
-/

namespace Variability.Regex

open Reader

def closing : List Char :=
  [')', '$']

namespace Scan

/-- The scan of the text that stands between `^(?:` and `)$`. -/
def inside (s : Scan) : Scan :=
  { s with
    rest := s.rest ++ closing
    position := s.position + 4
    names := s.names.map fun (name, span) => (name, span.moved 4) }

theorem inside_rest (s : Scan) : s.inside.rest = s.rest ++ closing :=
  rfl

theorem inside_rest_of_done {s : Scan} (done : s.rest = []) : s.inside.rest = closing := by
  rw [inside_rest, done, List.nil_append]

theorem inside_length (s : Scan) : s.inside.rest.length = s.rest.length + 2 :=
  List.length_append

theorem blankLength_le (inComment : Bool) (text : List Char) :
    blankLength inComment text ≤ text.length := by
  fun_induction blankLength with
  | case1 => exact Nat.le_refl 0
  | case2 c cs ih => exact Nat.succ_le_succ ih
  | case3 c cs blank ih => exact Nat.succ_le_succ ih
  | case4 cs notBlank ih => exact Nat.succ_le_succ ih
  | case5 => exact Nat.zero_le _

/-- Blanks end where the text ends, but a comment takes the closing with it. -/
theorem blankLength_append_closing (inComment : Bool) (text : List Char) :
    blankLength inComment (text ++ closing) = blankLength inComment text ∨
      blankLength inComment (text ++ closing) = (text ++ closing).length := by
  fun_induction blankLength inComment text with
  | case1 inComment =>
      cases inComment with
      | false => exact .inl (by decide)
      | true => exact .inr (by decide)
  | case2 c cs ih =>
      rw [List.cons_append, blankLength, List.length_cons]
      exact ih.imp (congrArg (· + 1)) (congrArg (· + 1))
  | case3 c cs blank ih =>
      rw [List.cons_append, blankLength, if_pos blank, List.length_cons]
      exact ih.imp (congrArg (· + 1)) (congrArg (· + 1))
  | case4 cs notBlank ih =>
      rw [List.cons_append, blankLength, if_neg notBlank, if_pos rfl, List.length_cons]
      exact ih.imp (congrArg (· + 1)) (congrArg (· + 1))
  | case5 c cs notBlank notSign =>
      rw [List.cons_append, blankLength, if_neg notBlank, if_neg notSign]
      exact .inl rfl

theorem advance_inside {s : Scan} {k : Nat} (fits : k ≤ s.rest.length) :
    s.inside.advance k = (s.advance k).inside := by
  have rest : (s.rest ++ closing).drop k = s.rest.drop k ++ closing :=
    List.drop_append_of_le_length fits
  have position : s.position + 4 + min k (s.rest ++ closing).length =
      s.position + min k s.rest.length + 4 := by
    rw [List.length_append]
    omega
  unfold advance inside
  simp only [rest, position]

theorem skipBlanks_inside (s : Scan) :
    s.inside.skipBlanks = s.skipBlanks.inside ∨ s.inside.skipBlanks.rest = [] := by
  change (if s.ignoreBlanks then s.inside.advance (blankLength false (s.rest ++ closing))
      else s.inside) = (if s.ignoreBlanks then _ else s).inside ∨
    (if s.ignoreBlanks then s.inside.advance (blankLength false (s.rest ++ closing))
      else s.inside).rest = []
  cases s.ignoreBlanks with
  | false => exact .inl rfl
  | true =>
      rcases blankLength_append_closing false s.rest with same | whole
      · rw [same]
        exact .inl (advance_inside (blankLength_le false s.rest))
      · rw [whole]
        exact .inr (List.drop_length)

end Scan

/-- Only an end of the closing is left. -/
def past {β : Type} (tail : List Char) (_ : β) (t : Scan) : Prop :=
  t.rest <:+ tail

/-- The parenthesis is taken that closes the group around the text. -/
abbrev lost {β : Type} : β → Scan → Prop :=
  past ['$']

/-- The text is left, and perhaps the parenthesis behind it is taken too. -/
abbrev spent {β : Type} : β → Scan → Prop :=
  past closing

/-- Whatever is read when the closing parenthesis is taken counts as off the text. -/
class Loses {β : Type} (off : β → Scan → Prop) : Prop where
  loses : ∀ ⦃b t⦄, t.rest <:+ ['$'] → off b t

instance {β : Type} : Loses (lost : β → Scan → Prop) where
  loses _ _ behind := behind

instance {β : Type} : Loses (spent : β → Scan → Prop) where
  loses _ _ behind := behind.trans (List.suffix_cons ')' ['$'])

variable {α β γ δ : Type}

/-- A parenthesis is read that closes no group. -/
def Stray (m : Reader α) (s : Scan) : Prop :=
  ∃ span, m.run s = .error ⟨.groupUnopened, span, none⟩

/-- If the reader `m'` succeeds on the text inside, then it does what `m` does on the text alone, or
it gets off the text, or the text alone closes a group that is not open. -/
def Mirrors (off : β → Scan → Prop) (f : α → β) (s : Scan) (m : Reader α) (m' : Reader β) : Prop :=
  ∀ ⦃b t⦄, Reads m' s.inside b t →
    (∃ a u, Reads m s a u ∧ b = f a ∧ t = u.inside) ∨ off b t ∨ Stray m s

variable {s : Scan} {m : Reader α} {m' : Reader β} {n : α → Reader γ} {n' : β → Reader δ}
  {f : α → β} {g : γ → δ}

section Combination

variable {off : β → Scan → Prop} {later : δ → Scan → Prop}

theorem Never.mirrors (never : Never m') : Mirrors off f s m m' :=
  fun _ _ reads => (never reads).elim

theorem mirrors_pure {a : α} {b : β} (same : b = f a) : Mirrors off f s (pure a) (pure b) := by
  intro c t reads
  obtain ⟨rfl, rfl⟩ := reads_pure.mp reads
  exact .inl ⟨a, s, reads_pure.mpr ⟨rfl, rfl⟩, same, rfl⟩

/-- Steps that do nothing but look at the scan, or change it alike on both sides. -/
theorem mirrors_of_run (s₁ : Scan) (m₁ : Reader α) (m₁' : Reader β) (alone : m.run s = m₁.run s₁)
    (within : m'.run s.inside = m₁'.run s₁.inside) (mirrors : Mirrors off f s₁ m₁ m₁') :
    Mirrors off f s m m' := by
  intro b t reads
  rw [Reads, within] at reads
  simpa only [Reads, Stray, alone] using mirrors reads

theorem Mirrors.mono {wider : β → Scan → Prop} (mirrors : Mirrors off f s m m')
    (wide : ∀ b t, Reads m' s.inside b t → off b t → wider b t) : Mirrors wider f s m m' :=
  fun b t reads => (mirrors reads).imp_right (Or.imp_left (wide b t reads))

theorem Mirrors.of_lost [Loses off] (mirrors : Mirrors lost f s m m') : Mirrors off f s m m' :=
  mirrors.mono fun _ _ _ behind => Loses.loses behind

theorem Mirrors.bind_of (first : Mirrors off f s m m')
    (rest : ∀ a u, Reads m s a u → Mirrors later g u (n a) (n' (f a)))
    (astray : ∀ b t c v, off b t → Reads (n' b) t c v → later c v) :
    Mirrors later g s (m >>= n) (m' >>= n') := by
  intro c v reads
  obtain ⟨b, t, reads, more⟩ := reads_bind.mp reads
  rcases first reads with ⟨a, u, alone, rfl, rfl⟩ | behind | ⟨span, stray⟩
  · rcases rest a u alone more with ⟨d, w, onward, same⟩ | behind | ⟨span, stray⟩
    · exact .inl ⟨d, w, reads_bind.mpr ⟨a, u, alone, onward⟩, same⟩
    · exact .inr (.inl behind)
    · refine .inr (.inr ⟨span, ?_⟩)
      rw [StateT.run_bind, alone]
      exact stray
  · exact .inr (.inl (astray b t c v behind more))
  · refine .inr (.inr ⟨span, ?_⟩)
    rw [StateT.run_bind, stray]
    rfl

theorem Mirrors.bind [Loses later] (first : Mirrors lost f s m m')
    (rest : ∀ a u, Reads m s a u → Mirrors later g u (n a) (n' (f a)))
    (advances : ∀ b, Advances 0 (n' b)) : Mirrors later g s (m >>= n) (m' >>= n') :=
  first.bind_of rest fun b _ _ _ behind more => Loses.loses ((advances b more).trans behind)

/-- When the text is left, the reader takes `k` characters of the closing at least. -/
theorem Advances.mirrors_of_done {k : Nat} (advances : Advances k m') (done : s.rest = []) :
    Mirrors (past (closing.drop k)) f s m m' := by
  intro b t reads
  refine .inr (.inl ?_)
  rw [past, ← Scan.inside_rest_of_done done]
  exact advances reads

end Combination

/-! Single steps. -/

section Steps

variable {off : δ → Scan → Prop}

theorem mirrors_get {n : Scan → Reader γ} {n' : Scan → Reader δ}
    (rest : Mirrors off g s (n s) (n' s.inside)) : Mirrors off g s (get >>= n) (get >>= n') :=
  mirrors_of_run _ _ _ rfl rfl rest

theorem mirrors_position {n : Nat → Reader γ} {n' : Nat → Reader δ}
    (rest : Mirrors off g s (n s.position) (n' (s.position + 4))) :
    Mirrors off g s (position >>= n) (position >>= n') :=
  mirrors_of_run _ _ _ rfl rfl rest

theorem mirrors_since {start : Nat} {n : Span → Reader γ} {n' : Span → Reader δ}
    (rest : Mirrors off g s (n ⟨start, s.position⟩) (n' (Span.moved 4 ⟨start, s.position⟩))) :
    Mirrors off g s (since start >>= n) (since (start + 4) >>= n') :=
  mirrors_of_run _ _ _ rfl rfl rest

theorem mirrors_nextSpan {n : Span → Reader γ} {n' : Span → Reader δ}
    (rest : Mirrors off g s (n ⟨s.position, s.position + 1⟩)
      (n' (Span.moved 4 ⟨s.position, s.position + 1⟩))) :
    Mirrors off g s (nextSpan >>= n) (nextSpan >>= n') :=
  mirrors_of_run _ _ _ rfl rfl rest

theorem mirrors_modify {h : Scan → Scan} {n : PUnit → Reader γ} {n' : PUnit → Reader δ}
    {j : Scan → Scan} (same : j s.inside = (h s).inside)
    (rest : Mirrors off g (h s) (n ⟨⟩) (n' ⟨⟩)) :
    Mirrors off g s (modify h >>= n) (modify j >>= n') :=
  mirrors_of_run _ (n ⟨⟩) (n' ⟨⟩) rfl (congrArg (n' ⟨⟩).run same) rest

theorem mirrors_modify_last {off : PUnit → Scan → Prop} {h j : Scan → Scan}
    (same : j s.inside = (h s).inside) : Mirrors off id s (modify h) (modify j) := by
  rintro _ _ ⟨⟩
  exact .inl ⟨⟨⟩, h s, rfl, rfl, same⟩

/-- At the end of the text the closing parenthesis comes next. -/
theorem mirrors_peek {n : Option Char → Reader γ} {n' : Option Char → Reader δ}
    (done : s.rest = [] → Mirrors off g s (n none) (n' (some ')')))
    (more : ∀ c w, s.rest = c :: w → Mirrors off g s (n (some c)) (n' (some c))) :
    Mirrors off g s (peek? >>= n) (peek? >>= n') := by
  have run : ((peek? >>= n').run s.inside) = (n' (s.rest ++ closing).head?).run s.inside := rfl
  cases here : s.rest with
  | nil =>
      rw [here] at run
      refine mirrors_of_run _ (n none) _ ?_ run (done here)
      exact congrArg (fun w => (n (List.head? w)).run s) here
  | cons c w =>
      rw [here] at run
      refine mirrors_of_run _ (n (some c)) _ ?_ run (more c w here)
      exact congrArg (fun w => (n (List.head? w)).run s) here

theorem mirrors_peekIs {c : Char} {yes no : Reader γ} {yes' no' : Reader δ} (other : c ≠ ')')
    (same : s.rest.head? = some c → Mirrors off g s yes yes')
    (different : s.rest.head? ≠ some c → Mirrors off g s no no') :
    Mirrors off g s (peek? >>= fun next => if next = some c then yes else no)
      (peek? >>= fun next => if next = some c then yes' else no') := by
  refine mirrors_peek (fun done => ?_) fun d w here => ?_
  · rw [if_neg (by simp), if_neg (by simpa using other.symm)]
    exact different (by simp [done])
  · split
    · next found => exact same (by rw [here]; exact found)
    · next found => exact different (by rw [here]; exact found)

theorem mirrors_peekIsNot {c : Char} {yes no : Reader γ} {yes' no' : Reader δ} (other : c ≠ ')')
    (same : s.rest.head? = some c → Mirrors off g s yes yes')
    (different : s.rest.head? ≠ some c → Mirrors off g s no no') :
    Mirrors off g s (peek? >>= fun next => if next ≠ some c then no else yes)
      (peek? >>= fun next => if next ≠ some c then no' else yes') := by
  simp only [ite_not]
  exact mirrors_peekIs other same different

theorem mirrors_isDone {n : Bool → Reader γ} {n' : Bool → Reader δ}
    (done : s.rest = [] → Mirrors off g s (n true) (n' false))
    (more : s.rest ≠ [] → Mirrors off g s (n false) (n' false)) :
    Mirrors off g s (isDone >>= n) (isDone >>= n') := by
  have run : ((isDone >>= n').run s.inside) = (n' (s.rest ++ closing).isEmpty).run s.inside := rfl
  cases here : s.rest with
  | nil =>
      rw [here] at run
      refine mirrors_of_run _ (n true) _ ?_ run (done here)
      exact congrArg (fun w => (n (List.isEmpty w)).run s) here
  | cons c w =>
      rw [here] at run
      refine mirrors_of_run _ (n false) _ ?_ run (more (by rw [here]; exact List.cons_ne_nil c w))
      exact congrArg (fun w => (n (List.isEmpty w)).run s) here

variable [Loses off]

/-- Where a step leads off the text, only an end of the closing is left behind the parenthesis. -/
theorem mirrors_step {h j : Scan → Scan} {n : PUnit → Reader γ} {n' : PUnit → Reader δ}
    (same : j s.inside = (h s).inside ∨ (j s.inside).rest <:+ ['$'])
    (rest : Mirrors off g (h s) (n ⟨⟩) (n' ⟨⟩)) (advances : Advances 0 (n' ⟨⟩)) :
    Mirrors off g s (modify h >>= n) (modify j >>= n') := by
  rcases same with same | behind
  · exact mirrors_modify same rest
  · intro d t reads
    exact .inr (.inl (Loses.loses ((advances (s := j s.inside) reads).trans behind)))

theorem advance_inside_or (s : Scan) (k : Nat) :
    s.inside.advance k = (s.advance k).inside ∨ (s.inside.advance k).rest <:+ ['$'] := by
  rcases Nat.lt_or_ge s.rest.length k with beyond | fits
  · refine .inr ?_
    have behind : s.inside.advance k = s.inside.advance (s.rest.length + 1 +
        (k - s.rest.length - 1)) := congrArg s.inside.advance (by omega)
    rw [behind]
    change (s.rest ++ closing).drop _ <:+ ['$']
    rw [← List.drop_drop, List.drop_append, List.drop_eq_nil_of_le (Nat.le_succ _)]
    rw [List.nil_append, Nat.add_sub_cancel_left]
    exact List.drop_suffix _ _
  · exact .inl (Scan.advance_inside fits)

theorem skipBlanks_inside_or (s : Scan) :
    s.inside.skipBlanks = s.skipBlanks.inside ∨ s.inside.skipBlanks.rest <:+ ['$'] :=
  (Scan.skipBlanks_inside s).imp_right fun nothing => by
    rw [nothing]
    exact List.nil_suffix

theorem mirrors_advance {k : Nat} {n : PUnit → Reader γ} {n' : PUnit → Reader δ}
    (rest : Mirrors off g (s.advance k) (n ⟨⟩) (n' ⟨⟩)) (advances : Advances 0 (n' ⟨⟩)) :
    Mirrors off g s (modify (·.advance k) >>= n) (modify (·.advance k) >>= n') :=
  mirrors_step (advance_inside_or s k) rest advances

theorem mirrors_skip {n : Unit → Reader γ} {n' : Unit → Reader δ}
    (rest : Mirrors off g (s.advance 1) (n ()) (n' ())) (advances : Advances 0 (n' ())) :
    Mirrors off g s (skip >>= n) (skip >>= n') :=
  mirrors_advance rest advances

theorem mirrors_skipBlanks {n : Unit → Reader γ} {n' : Unit → Reader δ}
    (rest : Mirrors off g s.skipBlanks (n ()) (n' ())) (advances : Advances 0 (n' ())) :
    Mirrors off g s (skipBlanks >>= n) (skipBlanks >>= n') :=
  mirrors_step (skipBlanks_inside_or s) rest advances

theorem mirrors_skipOver {n : Unit → Reader γ} {n' : Unit → Reader δ}
    (rest : Mirrors off g (s.advance 1).skipBlanks (n ()) (n' ())) (advances : Advances 0 (n' ())) :
    Mirrors off g s (skipOver >>= n) (skipOver >>= n') := by
  refine mirrors_step ?_ rest advances
  rcases advance_inside_or s 1 with same | behind
  · rw [same]
    exact skipBlanks_inside_or _
  · exact .inr ((suffix_skipBlanks _).trans behind)

end Steps

theorem isPrefixOf_append_closing {sign : List Char} (plain : ')' ∉ sign) (text : List Char) :
    sign.isPrefixOf (text ++ closing) = sign.isPrefixOf text := by
  induction sign generalizing text with
  | nil => simp
  | cons c sign ih =>
      have other : c ≠ ')' := fun same => plain (same ▸ List.mem_cons_self)
      cases text with
      | nil =>
          change (c == ')' && sign.isPrefixOf ['$']) = false
          rw [beq_eq_false_iff_ne.mpr other, Bool.false_and]
      | cons d text =>
          change (c == d && sign.isPrefixOf (text ++ closing)) = (c == d && sign.isPrefixOf text)
          rw [ih (List.not_mem_of_not_mem_cons plain)]

theorem mirrors_skipIf {sign : List Char} (plain : ')' ∉ sign) :
    Mirrors lost id s (skipIf sign) (skipIf sign) := by
  refine mirrors_get ?_
  change Mirrors lost id s _ (if sign.isPrefixOf (s.rest ++ closing) then _ else _)
  rw [isPrefixOf_append_closing plain]
  split
  · exact mirrors_step (h := fun _ => s.advance _) (j := fun _ => s.inside.advance _)
      (advance_inside_or s _) (mirrors_pure rfl) advances_pure
  · exact mirrors_pure rfl

/-! Several characters. -/

theorem run_peek (s : Scan) (n : Option Char → Reader α) :
    (peek? >>= n).run s = (n s.rest.head?).run s :=
  rfl

theorem run_skipBlanks (s : Scan) (n : Unit → Reader α) :
    (skipBlanks >>= n).run s = (n ()).run s.skipBlanks :=
  rfl

theorem mirrors_takeUpTo_of_done {accept : Char → Bool} (count more : Nat) (done : s.rest = []) :
    Mirrors lost id s (takeUpTo accept count) (takeUpTo accept (more + 1)) := by
  have alone : (takeUpTo accept count).run s = (pure [] : Reader (List Char)).run s := by
    cases count with
    | zero => rfl
    | succ count =>
        change (peek? >>= _).run s = _
        rw [run_peek, done]
        rfl
  have within : (takeUpTo accept (more + 1)).run s.inside =
      (if accept ')' then do
        skipOver
        return ')' :: (← takeUpTo accept more)
      else return [] : Reader (List Char)).run s.inside := by
    change (peek? >>= _).run s.inside = _
    rw [run_peek, Scan.inside_rest_of_done done]
    rfl
  refine mirrors_of_run _ _ _ alone within ?_
  split
  · exact Advances.mirrors_of_done (k := 1) (advances_skipOver.bind fun _ =>
      (advances_takeUpTo _).bind fun _ => advances_pure) done
  · exact mirrors_pure rfl

theorem mirrors_takeUpTo {accept : Char → Bool} (count : Nat) (enough : s.rest.length ≤ count) :
    Mirrors lost id s (takeUpTo accept count) (takeUpTo accept (count + 2)) := by
  induction count generalizing s with
  | zero => exact mirrors_takeUpTo_of_done _ _ (List.eq_nil_of_length_eq_zero (by omega))
  | succ count ih =>
      cases here : s.rest with
      | nil => exact mirrors_takeUpTo_of_done _ _ here
      | cons c w =>
          refine mirrors_peek (fun done => absurd done (by simp [here])) fun c w here => ?_
          dsimp only
          split
          · refine mirrors_skipOver ?_ ((advances_takeUpTo _).bind fun _ => advances_pure)
            have shorter : (s.advance 1).skipBlanks.rest.length < s.rest.length :=
              advances_skipOver.length_lt rfl here
            exact (ih (by omega)).bind (fun _ _ _ => mirrors_pure rfl) fun _ => advances_pure
          · exact mirrors_pure rfl

theorem mirrors_takeWhile {accept : Char → Bool} :
    Mirrors lost id s (takeWhile accept) (takeWhile accept) := by
  refine mirrors_get ?_
  change Mirrors lost id s _ (takeUpTo accept (s.rest ++ closing).length)
  rw [List.length_append]
  exact mirrors_takeUpTo _ (Nat.le_refl _)

end Variability.Regex
