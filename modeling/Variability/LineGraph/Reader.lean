import Variability.LineGraph.Writer
import Variability.Tree.Flaw

/-!
Reading line graphs. Lines are read one by one into the section that is open; a header closes the
section before it. A section without nodes counts for nothing, any other has to be a well-formed
tree of the expected shape. The first error ends the reading.
-/

namespace Variability.LineGraph

inductive DecodeError where
  | missingTreeHeader (line : Nat)
  | invalidNodeId (line : Nat) (text : String)
  | invalidNodeLabel (line : Nat) (error : LabelError)
  | duplicateNodeId (line id : Nat)
  | unknownNode (line id : Nat)
  | invalidRole (line : Nat) (role : String)
  | malformedEdge (line : Nat)
  | invalidEdge (line : Nat) (flaw : Flaw)
  | unrecognizedLine (line : Nat) (text : String)
  | invalidTree (line : Nat) (flaw : Flaw)
  deriving DecidableEq, Repr

def DecodeError.message : DecodeError → String
  | missingTreeHeader line => s!"line {line}: expected \"t #\" before nodes and edges"
  | invalidNodeId line text => s!"line {line}: node id \"{text}\" is not an integer"
  | invalidNodeLabel line error => s!"line {line}: invalid node label: {error.message}"
  | duplicateNodeId line id => s!"line {line}: node {id} is declared twice"
  | unknownNode line id => s!"line {line}: node {id} does not exist in this tree"
  | invalidRole line role =>
    s!"line {line}: invalid edge role \"{role}\", expected both, before-only or after-only"
  | malformedEdge line => s!"line {line}: expected \"e <child> <parent> <role>\""
  | invalidEdge line flaw => s!"line {line}: {flaw.message}"
  | unrecognizedLine line text =>
    s!"line {line}: expected a tree, node, edge, or blank line, found \"{text}\""
  | invalidTree line flaw => s!"tree starting at line {line}: {flaw.message}"

inductive Line where
  | header (label : List Char)
  | node (rest : List Char)
  | edge (rest : List Char)
  | blank
  | other
  deriving DecidableEq, Repr

def Line.ofText (text : List Char) : Line :=
  match Text.after? headerMark text with
  | some label => header ((Text.after? [' '] label).getD label)
  | none =>
    match Text.after? nodeMark text with
    | some rest => node rest
    | none =>
      match Text.after? edgeMark text with
      | some rest => edge rest
      | none => if text.all Text.isBlank then blank else other

structure Section where
  line : Nat
  tree : Tree

def readId (n : Nat) (text : List Char) : Except DecodeError Nat :=
  match Text.readDecimal? text with
  | none => .error (.invalidNodeId n (String.ofList text))
  | some id => .ok id

def readNode (format : NodeFormat) (n : Nat) (rest : List Char) (t : Tree) :
    Except DecodeError Tree :=
  let (idText, label) := (Text.cut? [' '] rest).getD (rest, [])
  match readId n idText with
  | .error e => .error e
  | .ok id =>
    if (t.findId? id).isSome then .error (.duplicateNodeId n id)
    else
      match format.read id label with
      | .error e => .error (.invalidNodeLabel n e)
      | .ok node => .ok (t.push node)

def lookUp (n : Nat) (t : Tree) (text : List Char) : Except DecodeError Nat :=
  match readId n text with
  | .error e => .error e
  | .ok id =>
    match t.findId? id with
    | none => .error (.unknownNode n id)
    | some i => .ok i

def linkAll (n : Nat) (parent child : Nat) : List Side → Tree → Except DecodeError Tree
  | [], t => .ok t
  | s :: ss, t =>
    match t.link s parent child with
    | .error flaw => .error (.invalidEdge n flaw)
    | .ok t => linkAll n parent child ss t

def readEdge (n : Nat) (rest : List Char) (t : Tree) : Except DecodeError Tree :=
  match Text.words rest with
  | [childText, parentText, roleText] =>
    match lookUp n t childText with
    | .error e => .error e
    | .ok child =>
      match lookUp n t parentText with
      | .error e => .error e
      | .ok parent =>
        match Role.ofToken? (String.ofList roleText) with
        | none => .error (.invalidRole n (String.ofList roleText))
        | some role => linkAll n parent child role.sides t
  | _ => .error (.malformedEdge n)

def close : Option Section → Except DecodeError (List Tree)
  | none => .ok []
  | some s =>
    if s.tree.nodes.isEmpty then .ok []
    else
      match s.tree.firstFlaw? with
      | some flaw => .error (.invalidTree s.line flaw)
      | none => .ok [s.tree]

def extend (n : Nat) (f : Tree → Except DecodeError Tree) :
    Option Section → Except DecodeError (Option Section)
  | none => .error (.missingTreeHeader n)
  | some s => (f s.tree).map fun tree => some { s with tree }

/-- What is read so far: the trees that are complete, the last first, and the open section. -/
structure Progress where
  complete : List Tree
  current : Option Section

def readLine (options : Options) (p : Progress) (n : Nat) (text : List Char) :
    Except DecodeError Progress :=
  match Line.ofText text with
  | .blank => .ok p
  | .other => .error (.unrecognizedLine n (String.ofList text))
  | .node rest =>
    (extend n (readNode options.nodes n rest) p.current).map ({ p with current := · })
  | .edge rest => (extend n (readEdge n rest) p.current).map ({ p with current := · })
  | .header label =>
    (close p.current).map fun done =>
      ⟨done ++ p.complete, some ⟨n, .empty options.shape (readSource label)⟩⟩

def readLines (options : Options) (lines : List (List Char)) : Except DecodeError (List Tree) :=
  match (lines.zipIdx 1).foldlM (fun p (text, n) => readLine options p n text) ⟨[], none⟩ with
  | .error e => .error e
  | .ok p => (close p.current).map fun done => (done ++ p.complete).reverse

def read (options : Options) (text : String) : Except DecodeError (List Tree) :=
  readLines options (Text.lines text.toList)

end Variability.LineGraph
