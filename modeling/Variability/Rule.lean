import Variability.EditPattern

/-!
Edit patterns of any kind. A rule is named, is about lines of one edit, and decides about a line by
an inquiry: it sees the tree, and asks the analysis of the tree for conditions and relations. The
elementary patterns follow rules of their own, and a catalog lists rules in the order in which a
line is tried against them.
-/

namespace Variability

/-- A question in steps: what is asked next may depend on every answer so far, failures among
them. -/
inductive Inquiry (α : Type) where
  | conclude (result : Except MatchError α)
  | condition (s : Side) (i : Nat) (next : Except PresenceError Formula → Inquiry α)
  | relation (i : Nat) (next : Except MatchError Relation → Inquiry α)

/-- A pattern of any kind, given by the inquiry that decides about a line of code. -/
structure Rule where
  name : String
  edit : Edit
  scope : List Side
  accepts : Tree → Nat → Inquiry Bool

structure RuleMatch where
  rule : String
  nodeId : Nat
  features : Option FeatureContext

/-- The rule that an elementary pattern follows. -/
def EditPattern.rule (p : EditPattern) : Rule where
  name := p.name
  edit := p.edit
  scope := p.scope
  accepts t i :=
    let branch (s : Side) := (t.parent s i).map fun above => (t.node above).edit
    match p with
    | .addToPC => .conclude (.ok (branch .after ≠ some .added))
    | .addWithMapping => .conclude (.ok (branch .after = some .added))
    | .remFromPC => .conclude (.ok (branch .before ≠ some .removed))
    | .remWithMapping => .conclude (.ok (branch .before = some .removed))
    | .untouched => .conclude (.ok true)
    | .specialization | .generalization | .reconfiguration | .refactoring =>
      .relation i fun answer => .conclude (answer.map (p.acceptsRelation · (t.unmoved i)))

/-- Rules in the order in which a line is tried against them. -/
structure Catalog where
  rules : List Rule

instance : Coe (List EditPattern) Catalog :=
  ⟨fun patterns => ⟨patterns.map EditPattern.rule⟩⟩

namespace Analysis

def pursue (a : Analysis) {α : Type} : Inquiry α → Query MatchError α
  | .conclude result => Query.ofExcept result
  | .condition s i next => do
    let answer ← ExceptT.lift (a.presence s i).run
    pursue a (next answer)
  | .relation i next => do
    let answer ← ExceptT.lift (a.relation i).run
    pursue a (next answer)

def obeys (a : Analysis) (r : Rule) (i : Nat) : Query MatchError Bool :=
  if (a.tree.node i).edit ≠ r.edit then return false else a.pursue (r.accepts a.tree i)

/-- The first rule of a catalog that a node obeys. -/
def firstObeyed (a : Analysis) (i : Nat) : List Rule → Query MatchError RuleMatch
  | [] => throw (.noMatch (a.tree.node i).id)
  | r :: rs => do
    if ← a.obeys r i then
      return ⟨r.name, (a.tree.node i).id, ← a.scopedFeatures r.scope i⟩
    else
      firstObeyed a i rs

def classifyBy (a : Analysis) (catalog : Catalog) (i : Nat) : Query MatchError RuleMatch :=
  if (a.tree.node i).kind ≠ .code then throw (.notAnArtifact (a.tree.node i).id)
  else a.firstObeyed i catalog.rules

def classifyAllBy (a : Analysis) (catalog : Catalog) : Query MatchError (List RuleMatch) :=
  a.tree.codeNodes.mapM (a.classifyBy catalog)

end Analysis

end Variability
