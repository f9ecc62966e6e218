import Variability.LineGraph.Label
import Variability.Text.Lines

/-!
Writing trees as line graphs. A section starts with the header of its tree; a line for every node
and then a line for every edge follow, both in the order of the nodes, and a blank line closes the
section. An edge that is the same on both sides takes one line.
-/

namespace Variability.LineGraph

/-- How trees are written and read: the shape that is expected, and the labels of nodes. -/
structure Options where
  shape : Shape
  nodes : NodeFormat
  deriving DecidableEq, Repr

def Options.standard : Options :=
  ⟨.tree, .labeled⟩

inductive Role where
  | both
  | only (side : Side)
  deriving DecidableEq, Repr

namespace Role

def all : List Role :=
  [both, only .before, only .after]

def token : Role → String
  | both => "both"
  | only .before => "before-only"
  | only .after => "after-only"

def ofToken? (text : String) : Option Role :=
  all.find? (·.token = text)

def sides : Role → List Side
  | both => Side.all
  | only side => [side]

@[simp] theorem ofToken?_token (r : Role) : ofToken? r.token = some r := by
  rcases r with _ | (_ | _) <;> decide

end Role

def headerMark : List Char :=
  "t #".toList

def nodeMark : List Char :=
  "v ".toList

def edgeMark : List Char :=
  "e ".toList

def headerLine (t : Tree) : List Char :=
  headerMark ++ ' ' :: printSource t.source

def nodeLine (format : NodeFormat) (n : Node) : List Char :=
  nodeMark ++ Text.decimal n.id ++ ' ' :: format.print n

def edgeLine (child parent : Nat) (role : Role) : List Char :=
  edgeMark ++ Text.decimal child ++ ' ' :: Text.decimal parent ++ ' ' :: role.token.toList

def parentId (t : Tree) (n : Node) (s : Side) : Option Nat :=
  (n.parent s).map fun p => (t.node p).id

def edgeLines (t : Tree) (n : Node) : List (List Char) :=
  match parentId t n .before, parentId t n .after with
  | none, none => []
  | some b, none => [edgeLine n.id b (.only .before)]
  | none, some a => [edgeLine n.id a (.only .after)]
  | some b, some a =>
    if a = b then [edgeLine n.id b .both]
    else [edgeLine n.id b (.only .before), edgeLine n.id a (.only .after)]

def sectionLines (format : NodeFormat) (t : Tree) : List (List Char) :=
  headerLine t :: t.nodes.toList.map (nodeLine format) ++ t.nodes.toList.flatMap (edgeLines t) ++
    [[]]

def print (format : NodeFormat) (ts : List Tree) : List Char :=
  Text.unlines (ts.flatMap (sectionLines format))

def write (options : Options) (ts : List Tree) : String :=
  String.ofList (print options.nodes ts)

end Variability.LineGraph
