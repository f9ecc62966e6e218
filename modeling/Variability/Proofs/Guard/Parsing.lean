import Variability.Proofs.Guard.Grammar

/-!
Parsing by the grammar of guards. What the grammar derives is parsed with the same result, however
the run goes on behind it, and what is parsed can be derived.
-/

namespace Variability.Guard

open Token

/-- Tokens that end what is read: those that a run of this role cannot go on with. -/
def Role.isEndedBy : Role → Token → Bool
  | .disjuncts, t => t = .rightParen
  | .conjuncts, t => t = .rightParen ∨ t = .disjunction
  | .unary, t | .primary, t => t = .rightParen ∨ t = .disjunction ∨ t = .conjunction

def Role.Ends (role : Role) (rest : List Token) : Prop :=
  ∀ t ∈ rest.head?, role.isEndedBy t

theorem Role.Ends.conjuncts {rest : List Token} (ends : Role.disjuncts.Ends rest) :
    Role.conjuncts.Ends rest :=
  fun t first => decide_eq_true (.inl (of_decide_eq_true (ends t first)))

theorem Role.Ends.unary {rest : List Token} (ends : Role.conjuncts.Ends rest) :
    Role.unary.Ends rest :=
  fun t first => decide_eq_true ((of_decide_eq_true (ends t first)).imp_right .inl)

theorem opensAtom_append {ts : List Token} (opens : opensAtom ts) (rest : List Token) :
    opensAtom (ts ++ rest) := by
  unfold opensAtom at opens
  split at opens
  · rfl
  · exact opens
  · exact opens
  · cases opens

theorem opensAtom_of_splitOperand? {ts operand rest : List Token} (opens : opensAtom ts)
    (cut : splitOperand? 0 ts = some (operand, rest)) : opensAtom operand := by
  unfold opensAtom at opens
  split at opens
  · rw [splitOperand?_other] at cut
    obtain ⟨split, -, same⟩ := Option.map_eq_some_iff.mp cut
    cases same
    rfl
  · next literal ts =>
    simp only [splitOperand?] at cut
    obtain ⟨split, -, same⟩ := Option.map_eq_some_iff.mp cut
    cases same
    exact opens
  · next name ts =>
    simp only [splitOperand?, Option.map_map] at cut
    obtain ⟨split, -, same⟩ := Option.map_eq_some_iff.mp cut
    cases same
    exact opens
  · cases opens

section Step

variable {fuel : Nat} {ts us rest : List Token} {fs gs : List Formula} {f : Formula}

theorem parseDisjuncts_last (first : parseConjuncts fuel ts = .ok (fs, rest))
    (ends : Role.disjuncts.Ends rest) : parseDisjuncts (fuel + 1) ts = .ok ([.conj fs], rest) := by
  rw [parseDisjuncts, first]
  cases rest with
  | nil => rfl
  | cons t rest =>
      obtain rfl : t = .rightParen := of_decide_eq_true (ends t rfl)
      rfl

theorem parseDisjuncts_more (first : parseConjuncts fuel ts = .ok (fs, .disjunction :: us))
    (further : parseDisjuncts fuel us = .ok (gs, rest)) :
    parseDisjuncts (fuel + 1) ts = .ok (.conj fs :: gs, rest) := by
  rw [parseDisjuncts, first]
  simp only [further]

theorem parseConjuncts_last (first : parseUnary fuel ts = .ok (f, rest))
    (ends : Role.conjuncts.Ends rest) : parseConjuncts (fuel + 1) ts = .ok ([f], rest) := by
  rw [parseConjuncts, first]
  cases rest with
  | nil => rfl
  | cons t rest =>
      rcases of_decide_eq_true (ends t rfl) with rfl | rfl <;> rfl

theorem parseConjuncts_more (first : parseUnary fuel ts = .ok (f, .conjunction :: us))
    (further : parseConjuncts fuel us = .ok (fs, rest)) :
    parseConjuncts (fuel + 1) ts = .ok (f :: fs, rest) := by
  rw [parseConjuncts, first]
  simp only [further]

theorem parseUnary_negation (operand : parseUnary fuel ts = .ok (f, rest)) :
    parseUnary (fuel + 1) (.negation :: ts) = .ok (f.neg, rest) := by
  rw [parseUnary, operand]

theorem parsePrimary_group (inside : parseDisjuncts fuel ts = .ok (fs, .rightParen :: rest)) :
    parsePrimary (fuel + 1) (.leftParen :: ts) = orAtom (.leftParen :: ts) (.disj fs, rest) := by
  rw [parsePrimary, inside]

theorem parsePrimary_atom (opens : opensAtom ts) : parsePrimary (fuel + 1) ts = parseAtom ts := by
  unfold opensAtom at opens
  split at opens
  · rw [parsePrimary]
  · next literal ts =>
    rw [Option.isNone_iff_eq_none] at opens
    rw [parsePrimary, opens]
  · next name ts =>
    rw [decide_eq_true_eq] at opens
    simp only [parsePrimary, opens, if_false]
  · cases opens

theorem parsePrimary_name {name : List Char} (plain : name ≠ "defined".toList)
    (noCall : rest.head? ≠ some .leftParen) :
    parsePrimary (fuel + 1) (.identifier name :: rest) =
      orAtom (.identifier name :: rest) (.var (String.ofList name), rest) := by
  simp only [parsePrimary, plain, if_false]
  split
  · simp at noCall
  · rfl

theorem orAtom_of_ends (ends : Role.primary.Ends rest) : orAtom ts (f, rest) = .ok (f, rest) := by
  cases rest with
  | nil => rfl
  | cons t rest =>
      rcases of_decide_eq_true (ends t rfl) with rfl | rfl | rfl <;> rfl

theorem parseAtom_append (whole : splitOperand? 0 ts = some (ts, []))
    (ends : Role.primary.Ends rest) : parseAtom (ts ++ rest) = .ok (atom ts, rest) := by
  have cut : splitOperand? 0 rest = some ([], rest) := by
    cases rest with
    | nil => rfl
    | cons t rest => rcases of_decide_eq_true (ends t rfl) with rfl | rfl | rfl <;> rfl
  rw [parseAtom, splitOperand?_append whole, cut]
  simp [atom]

/-- An atom is the same whether it is read as one at once or because an operator follows. -/
theorem parseAtom_eq_orAtom (whole : splitOperand? 0 ts = some (ts, []))
    (follows : Role.primary.Ends rest ∨ ∃ text, rest.head? = some (.other text)) :
    parseAtom (ts ++ rest) = orAtom (ts ++ rest) (atom ts, rest) := by
  rcases follows with ends | ⟨text, operator⟩
  · rw [orAtom_of_ends ends, parseAtom_append whole ends]
  · obtain ⟨us, rfl⟩ := List.head?_eq_some_iff.mp operator
    rfl

end Step

/-- Whatever follows that does not go on with it, a run is read as its result; a primary operand is
then tried against an operator behind it. -/
def Role.Parses : (role : Role) → List Token → role.Result → Prop
  | .disjuncts, ts, fs => ∀ rest fuel, Role.disjuncts.Ends rest →
      4 * (ts ++ rest).length + 4 ≤ fuel → parseDisjuncts fuel (ts ++ rest) = .ok (fs, rest)
  | .conjuncts, ts, fs => ∀ rest fuel, Role.conjuncts.Ends rest →
      4 * (ts ++ rest).length + 3 ≤ fuel → parseConjuncts fuel (ts ++ rest) = .ok (fs, rest)
  | .unary, ts, f => ∀ rest fuel, Role.unary.Ends rest →
      4 * (ts ++ rest).length + 2 ≤ fuel → parseUnary fuel (ts ++ rest) = .ok (f, rest)
  | .primary, ts, f => ∀ rest fuel,
      Role.primary.Ends rest ∨ (∃ text, rest.head? = some (.other text)) →
      4 * (ts ++ rest).length + 1 ≤ fuel →
        parsePrimary fuel (ts ++ rest) = orAtom (ts ++ rest) (f, rest)

namespace Reads

theorem head?_ne_negation {role : Role} {ts : List Token} {result : role.Result}
    (reads : Reads role ts result) (primary : role = .primary) : ts.head? ≠ some .negation := by
  induction reads with
  | lastDisjunct | disjunct | lastConjunct | conjunct | negation | primary => cases primary
  | group | defined | definedGroup | name | number => simp
  | @atom ts opens =>
      intro denied
      cases ts with
      | nil => cases opens
      | cons t ts =>
          obtain rfl : t = .negation := Option.some.inj denied
          cases opens
  | @operation ts us f text operand _ ih =>
      rw [List.head?_append_of_ne_nil _ operand.ne_nil]
      exact ih primary

/-- A primary operand ends where the tokens that it is read off end. -/
theorem parseUnary_primary {ts : List Token} {f : Formula} (reads : Reads .primary ts f)
    (fuel : Nat) (rest : List Token) :
    parseUnary (fuel + 1) (ts ++ rest) = parsePrimary fuel (ts ++ rest) := by
  rw [parseUnary]
  intro us same
  apply reads.head?_ne_negation rfl
  have first : (ts ++ rest).head? = some .negation := by rw [same]; rfl
  rwa [List.head?_append_of_ne_nil _ reads.ne_nil] at first

theorem parses {role : Role} {ts : List Token} {result : role.Result}
    (reads : Reads role ts result) : role.Parses ts result := by
  induction reads with
  | lastDisjunct _ ih =>
      intro rest fuel ends enough
      obtain ⟨fuel, rfl⟩ := Nat.exists_eq_succ_of_ne_zero (by omega : fuel ≠ 0)
      exact parseDisjuncts_last (ih rest fuel ends.conjuncts (by omega)) ends
  | @disjunct ts us _ _ _ _ first further =>
      intro rest fuel ends enough
      obtain ⟨fuel, rfl⟩ := Nat.exists_eq_succ_of_ne_zero (by omega : fuel ≠ 0)
      simp only [List.append_assoc, List.cons_append, List.length_append, List.length_cons]
        at enough ⊢
      have behind := further rest fuel ends (by rw [List.length_append]; omega)
      refine parseDisjuncts_more (first _ fuel ?_ ?_) behind
      · simp [Role.Ends, Role.isEndedBy]
      · simp only [List.length_append, List.length_cons]
        omega
  | lastConjunct _ ih =>
      intro rest fuel ends enough
      obtain ⟨fuel, rfl⟩ := Nat.exists_eq_succ_of_ne_zero (by omega : fuel ≠ 0)
      exact parseConjuncts_last (ih rest fuel ends.unary (by omega)) ends
  | @conjunct ts us _ _ _ _ first further =>
      intro rest fuel ends enough
      obtain ⟨fuel, rfl⟩ := Nat.exists_eq_succ_of_ne_zero (by omega : fuel ≠ 0)
      simp only [List.append_assoc, List.cons_append, List.length_append, List.length_cons]
        at enough ⊢
      have behind := further rest fuel ends (by rw [List.length_append]; omega)
      refine parseConjuncts_more (first _ fuel ?_ ?_) behind
      · simp [Role.Ends, Role.isEndedBy]
      · simp only [List.length_append, List.length_cons]
        omega
  | negation _ ih =>
      intro rest fuel ends enough
      obtain ⟨fuel, rfl⟩ := Nat.exists_eq_succ_of_ne_zero (by omega : fuel ≠ 0)
      rw [List.cons_append, List.length_cons] at enough
      exact parseUnary_negation (ih rest fuel ends (by omega))
  | primary operand ih =>
      intro rest fuel ends enough
      obtain ⟨fuel, rfl⟩ := Nat.exists_eq_succ_of_ne_zero (by omega : fuel ≠ 0)
      rw [operand.parseUnary_primary, ih rest fuel (.inl ends) (by omega), orAtom_of_ends ends]
  | @group ts fs _ ih =>
      intro rest fuel follows enough
      obtain ⟨fuel, rfl⟩ := Nat.exists_eq_succ_of_ne_zero (by omega : fuel ≠ 0)
      rw [List.cons_append, List.append_assoc, List.length_cons] at enough
      rw [List.cons_append, List.append_assoc]
      refine parsePrimary_group (ih _ fuel ?_ (by omega))
      simp [Role.Ends, Role.isEndedBy]
  | defined name | definedGroup name =>
      intro rest fuel follows enough
      obtain ⟨fuel, rfl⟩ := Nat.exists_eq_succ_of_ne_zero (by omega : fuel ≠ 0)
      rfl
  | name plain =>
      intro rest fuel follows enough
      obtain ⟨fuel, rfl⟩ := Nat.exists_eq_succ_of_ne_zero (by omega : fuel ≠ 0)
      refine parsePrimary_name plain ?_
      rintro call
      rcases follows with ends | ⟨text, operator⟩
      · simpa [Role.isEndedBy] using ends _ call
      · cases call.symm.trans operator
  | number known =>
      intro rest fuel follows enough
      obtain ⟨fuel, rfl⟩ := Nat.exists_eq_succ_of_ne_zero (by omega : fuel ≠ 0)
      simp only [List.singleton_append, parsePrimary, known]
      rfl
  | @atom ts opens whole =>
      intro rest fuel follows enough
      obtain ⟨fuel, rfl⟩ := Nat.exists_eq_succ_of_ne_zero (by omega : fuel ≠ 0)
      rw [parsePrimary_atom (opensAtom_append opens rest)]
      exact parseAtom_eq_orAtom whole follows
  | @operation ts us f text _ whole ih =>
      intro rest fuel follows enough
      rw [← parseAtom_eq_orAtom whole follows, List.append_assoc]
      refine ih _ fuel (.inr ⟨text, rfl⟩) ?_
      rwa [List.append_assoc] at enough

end Reads

/-! Deriving what is read. -/

def Role.parse : (role : Role) → Nat → List Token → Parsed role.Result
  | .disjuncts => parseDisjuncts
  | .conjuncts => parseConjuncts
  | .unary => parseUnary
  | .primary => parsePrimary

/-- What is read with this fuel is derived by the grammar. -/
def Role.Sound (role : Role) (fuel : Nat) : Prop :=
  ∀ {ts rest : List Token} {result : role.Result}, role.parse fuel ts = .ok (result, rest) →
    ∃ us, ts = us ++ rest ∧ Reads role us result

section Sound

variable {fuel : Nat}

theorem sound_disjuncts (conjuncts : Role.conjuncts.Sound fuel)
    (disjuncts : Role.disjuncts.Sound fuel) : Role.disjuncts.Sound (fuel + 1) := by
  intro ts rest fs read
  rw [Role.parse, parseDisjuncts] at read
  split at read
  · cases read
  · next gs us first =>
    obtain ⟨vs, rfl, readFirst⟩ := conjuncts first
    split at read
    · cases read
    · next hs rest further =>
      cases read
      obtain ⟨ws, rfl, readFurther⟩ := disjuncts further
      exact ⟨vs ++ .disjunction :: ws, by simp, .disjunct readFirst readFurther⟩
  · next gs us _ first =>
    cases read
    obtain ⟨vs, rfl, readFirst⟩ := conjuncts first
    exact ⟨vs, rfl, .lastDisjunct readFirst⟩

theorem sound_conjuncts (unary : Role.unary.Sound fuel) (conjuncts : Role.conjuncts.Sound fuel) :
    Role.conjuncts.Sound (fuel + 1) := by
  intro ts rest fs read
  rw [Role.parse, parseConjuncts] at read
  split at read
  · cases read
  · next f us first =>
    obtain ⟨vs, rfl, readFirst⟩ := unary first
    split at read
    · cases read
    · next gs rest further =>
      cases read
      obtain ⟨ws, rfl, readFurther⟩ := conjuncts further
      exact ⟨vs ++ .conjunction :: ws, by simp, .conjunct readFirst readFurther⟩
  · next f us _ first =>
    cases read
    obtain ⟨vs, rfl, readFirst⟩ := unary first
    exact ⟨vs, rfl, .lastConjunct readFirst⟩

theorem sound_unary (unary : Role.unary.Sound fuel) (primary : Role.primary.Sound fuel) :
    Role.unary.Sound (fuel + 1) := by
  intro ts rest f read
  rw [Role.parse, parseUnary.eq_def] at read
  split at read
  · cases read
  · next ts same =>
    obtain rfl := Nat.succ.inj same
    split at read
    · cases read
    · next g rest operand =>
      cases read
      obtain ⟨us, rfl, readOperand⟩ := unary operand
      exact ⟨.negation :: us, rfl, .negation readOperand⟩
  · next same _ =>
    obtain rfl := Nat.succ.inj same
    obtain ⟨us, rfl, readOperand⟩ := primary read
    exact ⟨us, rfl, .primary readOperand⟩

theorem sound_parseAtom {ts rest : List Token} {f : Formula} (opens : opensAtom ts)
    (read : parseAtom ts = .ok (f, rest)) : ∃ us, ts = us ++ rest ∧ Reads .primary us f := by
  unfold parseAtom at read
  split at read
  · cases read
  · next operand behind cut =>
    cases read
    obtain ⟨rfl, whole⟩ := splitOperand?_ok cut
    exact ⟨operand, rfl, .atom (opensAtom_of_splitOperand? opens cut) whole⟩

/-- What is read behind a primary operand: the operand, or an operation that starts with it. -/
theorem sound_orAtom {ts rest behind : List Token} {f g : Formula} (operand : Reads .primary ts f)
    (read : orAtom (ts ++ behind) (f, behind) = .ok (g, rest)) :
    ∃ us, ts ++ behind = us ++ rest ∧ Reads .primary us g := by
  unfold orAtom at read
  split at read
  · next text vs same =>
    obtain ⟨-, rfl⟩ := Prod.mk.inj same
    rw [parseAtom, operand.splitOperand?, splitOperand?_other] at read
    cases cut : splitOperand? 0 vs with
    | none => simp [cut] at read
    | some split =>
        obtain ⟨ws, behind⟩ := split
        rw [cut] at read
        cases read
        obtain ⟨rfl, whole⟩ := splitOperand?_ok cut
        refine ⟨ts ++ .other text :: ws, by simp, .operation operand ?_⟩
        rw [operand.splitOperand?, splitOperand?_other, whole]
        rfl
  · cases read
    exact ⟨ts, rfl, operand⟩

theorem sound_parseDefined {ts behind : List Token} {f : Formula}
    (read : parseDefined ts = .ok (f, behind)) :
    ∃ us, .identifier "defined".toList :: ts = us ++ behind ∧ Reads .primary us f := by
  unfold parseDefined at read
  split at read
  · next name us =>
    cases read
    exact ⟨_, rfl, .definedGroup name⟩
  · cases read
  · cases read
  · cases read
  · next name us =>
    cases read
    exact ⟨_, rfl, .defined name⟩
  · cases read
  · cases read

theorem sound_primary (disjuncts : Role.disjuncts.Sound fuel) : Role.primary.Sound (fuel + 1) := by
  intro ts rest f read
  rw [Role.parse, parsePrimary.eq_def] at read
  split at read
  · cases read
  · cases read
  · next ts same =>
    obtain rfl := Nat.succ.inj same
    split at read
    · cases read
    · next fs behind inside =>
      obtain ⟨us, rfl, readInside⟩ := disjuncts inside
      have group := Reads.group readInside
      have split : .leftParen :: (us ++ .rightParen :: behind) =
        (.leftParen :: (us ++ [.rightParen])) ++ behind := by simp
      rw [split] at read ⊢
      exact sound_orAtom group read
    · cases read
  · next name ts same =>
    split at read
    · next keyword =>
      subst keyword
      split at read
      · cases read
      · next parsed asked =>
        obtain ⟨g, behind⟩ := parsed
        obtain ⟨us, split, operand⟩ := sound_parseDefined asked
        rw [split] at read ⊢
        exact sound_orAtom operand read
    · next plain =>
      split at read
      · next us => exact sound_parseAtom (decide_eq_true plain) read
      · exact sound_orAtom (.name plain) read
  · next literal ts same =>
    split at read
    · next noInteger => exact sound_parseAtom (Option.isNone_iff_eq_none.mpr noInteger) read
    · next value known => exact sound_orAtom (.number known) read
  · exact sound_parseAtom rfl read
  · cases read

/-- What is read as a guard can be derived as one. -/
theorem Role.sound (role : Role) (fuel : Nat) : role.Sound fuel := by
  induction fuel generalizing role with
  | zero => cases role <;> exact nofun
  | succ fuel ih =>
      cases role with
      | disjuncts => exact sound_disjuncts (ih .conjuncts) (ih .disjuncts)
      | conjuncts => exact sound_conjuncts (ih .unary) (ih .conjuncts)
      | unary => exact sound_unary (ih .unary) (ih .primary)
      | primary => exact sound_primary (ih .disjuncts)

end Sound

/-- The grammar derives exactly the tokens that are read as a guard. -/
theorem parseTokens_eq_ok_iff {ts : List Token} {f : Formula} :
    parseTokens ts = .ok f ↔ ∃ fs, Reads .disjuncts ts fs ∧ f = .disj fs := by
  constructor
  · intro read
    unfold parseTokens at read
    split at read
    · cases read
    · split at read
      · cases read
      · next fs whole =>
        cases read
        have read : Role.disjuncts.parse (4 * ts.length + 4) ts = .ok (fs, []) := whole
        obtain ⟨us, rfl, reads⟩ := Role.sound .disjuncts _ read
        exact ⟨fs, by rwa [List.append_nil], rfl⟩
      · cases read
      · cases read
  · rintro ⟨fs, reads, rfl⟩
    have whole := reads.parses [] (4 * ts.length + 4) (by simp [Role.Ends]) (by simp)
    rw [List.append_nil] at whole
    rw [parseTokens, if_neg (by simpa using reads.ne_nil), whole]

end Variability.Guard
