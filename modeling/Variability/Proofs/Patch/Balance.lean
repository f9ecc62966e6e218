import Variability.Proofs.Patch.Scopes

/-!
The grammar of conditionals, `S → ε | if S (elif S)* (else S)? endif S`, and the stack that decides
it. A sequence of directives is derivable exactly when the stack allows every one of them and is
empty behind the last.
-/

namespace Variability.Patch

def furtherBranches (elifs : List (List NodeKind)) (alternative : Option (List NodeKind)) :
    List NodeKind :=
  elifs.flatMap (.elifBranch :: ·) ++ alternative.elim [] (.elseBranch :: ·) ++ [.endif]

/-- The sequences of directives in which every conditional is complete. -/
inductive Balanced : List NodeKind → Prop
  | empty : Balanced []
  | conditional {body rest : List NodeKind} {elifs : List (List NodeKind)}
      {alternative : Option (List NodeKind)} :
      Balanced body → (∀ branch ∈ elifs, Balanced branch) →
      (∀ branch ∈ alternative, Balanced branch) → Balanced rest →
      Balanced (.ifBranch :: body ++ furtherBranches elifs alternative ++ rest)

def continues (kind : NodeKind) : Prop :=
  kind = .ifBranch ∨ kind = .elifBranch

theorem advance_elif {kind : NodeKind} (continued : continues kind) (scopes : List NodeKind) :
    advance (kind :: scopes) .elifBranch = some (.elifBranch :: scopes) := by
  rcases continued with rfl | rfl <;> rfl

theorem advance_else {kind : NodeKind} (continued : continues kind) (scopes : List NodeKind) :
    advance (kind :: scopes) .elseBranch = some (.elseBranch :: scopes) := by
  rcases continued with rfl | rfl <;> rfl

theorem exists_continues_of_advance {scopes between : List NodeKind} {kind : NodeKind}
    (further : kind = .elifBranch ∨ kind = .elseBranch)
    (advanced : advance scopes kind = some between) :
    ∃ last outer, scopes = last :: outer ∧ continues last ∧ between = kind :: outer := by
  unfold advance at advanced
  rcases further with rfl | rfl <;> simp only at advanced <;> split at advanced
  · exact ⟨_, _, rfl, .inl rfl, by simpa using advanced.symm⟩
  · exact ⟨_, _, rfl, .inr rfl, by simpa using advanced.symm⟩
  · simp at advanced
  · exact ⟨_, _, rfl, .inl rfl, by simpa using advanced.symm⟩
  · exact ⟨_, _, rfl, .inr rfl, by simpa using advanced.symm⟩
  · simp at advanced

theorem continues.ne_else {kind : NodeKind} (continued : continues kind) : kind ≠ .elseBranch := by
  rintro rfl
  rcases continued with h | h <;> cases h

private theorem foldlM_advance_append {left right scopes between : List NodeKind}
    (first : left.foldlM advance scopes = some between) :
    (left ++ right).foldlM advance scopes = right.foldlM advance between := by
  rw [List.foldlM_append, first]
  rfl

private theorem foldlM_advance_cons {kind : NodeKind} {kinds scopes between : List NodeKind}
    (first : advance scopes kind = some between) :
    (kind :: kinds).foldlM advance scopes = kinds.foldlM advance between := by
  rw [List.foldlM_cons, first]
  rfl

private theorem foldlM_advance_furtherBranches {elifs : List (List NodeKind)}
    {alternative : Option (List NodeKind)}
    (elifsNeutral : ∀ branch ∈ elifs, ∀ scopes, branch.foldlM advance scopes = some scopes)
    (alternativeNeutral :
      ∀ branch ∈ alternative, ∀ scopes, branch.foldlM advance scopes = some scopes)
    {kind : NodeKind} (continued : continues kind) (scopes : List NodeKind) :
    (furtherBranches elifs alternative).foldlM advance (kind :: scopes) = some scopes := by
  unfold furtherBranches
  induction elifs generalizing kind with
  | nil =>
      cases alternative with
      | none => rfl
      | some branch =>
          change List.foldlM advance (kind :: scopes) (.elseBranch :: (branch ++ [.endif])) = _
          rw [foldlM_advance_cons (advance_else continued scopes),
            foldlM_advance_append (alternativeNeutral branch rfl _)]
          rfl
  | cons branch elifs ih =>
      rw [List.flatMap_cons, List.cons_append, List.cons_append, List.cons_append,
        foldlM_advance_cons (advance_elif continued scopes), List.append_assoc, List.append_assoc,
        foldlM_advance_append (elifsNeutral branch (by simp) _), ← List.append_assoc]
      exact ih (fun other member => elifsNeutral other (by simp [member])) (.inr rfl)

theorem Balanced.foldlM_advance {kinds : List NodeKind} (balanced : Balanced kinds)
    (scopes : List NodeKind) : kinds.foldlM advance scopes = some scopes := by
  induction balanced generalizing scopes with
  | empty => rfl
  | conditional _ _ _ _ body elifs alternative rest =>
      rw [List.cons_append, List.cons_append,
        @foldlM_advance_cons .ifBranch _ scopes (.ifBranch :: scopes) rfl, List.append_assoc,
        foldlM_advance_append (body _),
        foldlM_advance_append
          (foldlM_advance_furtherBranches elifs alternative (.inl rfl) scopes)]
      exact rest scopes

/-- A rest of a sequence that completes a branch of the given kind and its conditional. -/
def Closes (kind : NodeKind) (kinds : List NodeKind) : Prop :=
  ∃ body elifs alternative, Balanced body ∧ (∀ branch ∈ elifs, Balanced branch) ∧
    (∀ branch ∈ alternative, Balanced branch) ∧
    (kind = .elseBranch → elifs = [] ∧ alternative = none) ∧
    kinds = body ++ furtherBranches elifs alternative

/-- A rest of a sequence that completes all open branches, innermost first. -/
inductive Completes : List NodeKind → List NodeKind → Prop
  | done {kinds : List NodeKind} : Balanced kinds → Completes [] kinds
  | close {kind : NodeKind} {scopes first rest : List NodeKind} :
      Closes kind first → Completes scopes rest → Completes (kind :: scopes) (first ++ rest)

theorem Closes.balanced_append {first rest : List NodeKind} (closes : Closes .ifBranch first)
    (balanced : Balanced rest) : Balanced (.ifBranch :: first ++ rest) := by
  obtain ⟨body, elifs, alternative, bodyBalanced, elifsBalanced, alternativeBalanced, -, rfl⟩ :=
    closes
  rw [← List.cons_append]
  exact .conditional bodyBalanced elifsBalanced alternativeBalanced balanced

theorem Closes.elif {kind : NodeKind} {first : List NodeKind} (closes : Closes .elifBranch first)
    (continued : continues kind) : Closes kind (.elifBranch :: first) := by
  obtain ⟨body, elifs, alternative, bodyBalanced, elifsBalanced, alternativeBalanced, -, rfl⟩ :=
    closes
  refine ⟨[], body :: elifs, alternative, .empty, ?_, alternativeBalanced,
    fun last => absurd last continued.ne_else, ?_⟩
  · simpa [bodyBalanced] using elifsBalanced
  · simp [furtherBranches]

theorem Closes.alternative {kind : NodeKind} {first : List NodeKind}
    (closes : Closes .elseBranch first) (continued : continues kind) :
    Closes kind (.elseBranch :: first) := by
  obtain ⟨body, elifs, alternative, bodyBalanced, -, -, last, rfl⟩ := closes
  obtain ⟨rfl, rfl⟩ := last rfl
  refine ⟨[], [], some body, .empty, by simp, by simpa using bodyBalanced,
    fun last => absurd last continued.ne_else, ?_⟩
  simp [furtherBranches]

theorem Closes.endif (kind : NodeKind) : Closes kind [.endif] :=
  ⟨[], [], none, .empty, by simp, by simp, fun _ => ⟨rfl, rfl⟩, rfl⟩

theorem Completes.conditional {first scopes rest : List NodeKind}
    (closes : Closes .ifBranch first) (completes : Completes scopes rest) :
    Completes scopes (.ifBranch :: first ++ rest) := by
  cases completes with
  | done balanced => exact .done (closes.balanced_append balanced)
  | close inner outer =>
      obtain ⟨body, elifs, alternative, bodyBalanced, elifsBalanced, alternativeBalanced, last,
        rfl⟩ := inner
      rw [← List.append_assoc]
      refine .close ⟨.ifBranch :: first ++ body, elifs, alternative,
        closes.balanced_append bodyBalanced, elifsBalanced, alternativeBalanced, last, ?_⟩ outer
      rw [List.append_assoc]

theorem completes_of_foldlM_advance {kinds scopes : List NodeKind}
    (directives : ∀ kind ∈ kinds, kind.isDirective)
    (accepted : kinds.foldlM advance scopes = some []) : Completes scopes kinds := by
  induction kinds generalizing scopes with
  | nil =>
      cases accepted
      exact .done .empty
  | cons kind kinds ih =>
      have directive := directives kind (by simp)
      rw [List.foldlM_cons] at accepted
      obtain ⟨between, advanced, acceptedRest⟩ := Option.bind_eq_some_iff.mp accepted
      have completes := ih (fun other member => directives other (by simp [member])) acceptedRest
      cases kind with
      | root | code => simp [NodeKind.isDirective] at directive
      | ifBranch =>
          cases advanced
          obtain ⟨_⟩ | ⟨closes, outer⟩ := completes
          exact Completes.conditional closes outer
      | elifBranch =>
          obtain ⟨last, scopes, rfl, continued, rfl⟩ :=
            exists_continues_of_advance (.inl rfl) advanced
          obtain ⟨_⟩ | ⟨closes, outer⟩ := completes
          exact .close (closes.elif continued) outer
      | elseBranch =>
          obtain ⟨last, scopes, rfl, continued, rfl⟩ :=
            exists_continues_of_advance (.inr rfl) advanced
          obtain ⟨_⟩ | ⟨closes, outer⟩ := completes
          exact .close (closes.alternative continued) outer
      | endif =>
          cases scopes with
          | nil => simp [advance] at advanced
          | cons last outer =>
              cases advanced
              exact .close (.endif last) completes

/-- Conditionals are complete exactly when every directive is allowed and nothing stays open. -/
theorem balanced_iff_foldlM_advance {kinds : List NodeKind}
    (directives : ∀ kind ∈ kinds, kind.isDirective) :
    Balanced kinds ↔ kinds.foldlM advance [] = some [] := by
  constructor
  · intro balanced
    exact balanced.foldlM_advance []
  · intro accepted
    obtain ⟨balanced⟩ | ⟨_, _⟩ := completes_of_foldlM_advance directives accepted
    exact balanced

theorem foldlM_advance_filter_isDirective {kinds : List NodeKind}
    (lines : ∀ kind ∈ kinds, kind ≠ .root) (scopes : List NodeKind) :
    (kinds.filter NodeKind.isDirective).foldlM advance scopes = kinds.foldlM advance scopes := by
  induction kinds generalizing scopes with
  | nil => rfl
  | cons kind kinds ih =>
      have ih := ih fun other member => lines other (by simp [member])
      by_cases directive : kind.isDirective
      · rw [List.filter_cons_of_pos directive, List.foldlM_cons, List.foldlM_cons]
        simp only [ih]
      · have line := lines kind (by simp)
        have code : kind = .code := by cases kind <;> simp_all [NodeKind.isDirective]
        rw [List.filter_cons_of_neg directive, ih, code]
        rfl

end Variability.Patch
