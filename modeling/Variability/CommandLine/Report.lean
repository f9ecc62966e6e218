import Variability.EditPattern
import Variability.Formula.Json
import Variability.Formula.Printer
import Variability.LineGraph.Writer
import Variability.MiningResult.Json
import Variability.MiningResult.Snapshot
import Variability.MovedElse

/-!
What commands print: lines for a reader, in columns where there are several, or one JSON value.
-/

namespace Variability.CommandLine

def padEnd (width : Nat) (text : List Char) : List Char :=
  text ++ List.replicate (width - text.length) ' '

def padStart (width : Nat) (text : List Char) : List Char :=
  List.replicate (width - text.length) ' ' ++ text

structure ParseReport where
  source : String
  nodes : Nat
  lineGraph : String

def ParseReport.toJson (r : ParseReport) : Json :=
  .object
    [("source", .string r.source), ("nodes", .number r.nodes),
      ("line_graph", .string r.lineGraph)]

/-- A line of code with its pattern and its conditions on the sides on which it exists. -/
structure Artifact where
  found : PatternMatch
  label : String
  before : Option Formula
  after : Option Formula

namespace Artifact

def conditionText (condition : Option Formula) : List Char :=
  condition.elim ['-'] Formula.print

def line (a : Artifact) : List Char :=
  padStart 4 (Text.decimal a.found.nodeId) ++ "  ".toList ++
    padEnd 16 a.found.pattern.name.toList ++ " before: ".toList ++
    padEnd 24 (conditionText a.before) ++ " after: ".toList ++
    padEnd 24 (conditionText a.after) ++ ' ' :: Text.trim a.label.toList

def conditionJson (condition : Option Formula) : Json :=
  .ofOption (fun f => .string f.display) condition

def toJson (a : Artifact) : Json :=
  .object
    [("id", .number a.found.nodeId),
      ("pattern", .string a.found.pattern.name),
      ("label", .string a.label),
      ("before", conditionJson a.before),
      ("after", conditionJson a.after),
      ("features", .ofOption featuresJson a.found.features)]
where
  featuresJson (c : FeatureContext) : Json :=
    .object
      [("before", .ofOption Formula.toJson c.before),
        ("after", .ofOption Formula.toJson c.after),
        ("literals", .strings c.literals)]

end Artifact

def semanticLine (found : SemanticMatch) : List Char :=
  padStart 4 (Text.decimal found.nodeId) ++ "  ".toList ++ padEnd 16 found.pattern.toList ++
    " lines ".toList ++ Text.decimal found.lines.first ++ '-' :: Text.decimal found.lines.last

def semanticJson (found : SemanticMatch) : Json :=
  .object
    [("pattern", .string found.pattern),
      ("node_id", .number found.nodeId),
      ("lines",
        .object
          [("from", .number found.lines.first), ("to", .number found.lines.last)])]

/-- The patterns of a tree; those on directives are there only when they were asked for. -/
structure ClassifyReport where
  source : String
  artifacts : List Artifact
  semantic : Option (List SemanticMatch)

namespace ClassifyReport

def text (r : ClassifyReport) : String :=
  String.ofList <| Text.unlines <|
    r.artifacts.map Artifact.line ++ (r.semantic.getD []).map semanticLine

def toJson (r : ClassifyReport) : Json :=
  .object <|
    [("source", .string r.source), ("artifacts", .array (r.artifacts.map Artifact.toJson))] ++
      (r.semantic.map fun found => ("semantic", .array (found.map semanticJson))).toList

end ClassifyReport

structure TreeStats where
  label : String
  nodes : Nat
  edges : Nat

namespace TreeStats

/-- Counts the edges of a node: one if its parent is the same on both sides. -/
def edgesOf (n : Node) : Nat :=
  match n.parent .before, n.parent .after with
  | none, none => 0
  | some _, none | none, some _ => 1
  | some b, some a => if a = b then 1 else 2

def ofTree (t : Tree) : TreeStats where
  label := String.ofList (LineGraph.printSource t.source)
  nodes := t.size
  edges := t.nodes.toList.foldr (edgesOf · + ·) 0

def line (s : TreeStats) : List Char :=
  s!"  {s.label}: {s.nodes} nodes, {s.edges} edges".toList

def toJson (s : TreeStats) : Json :=
  .object [("label", .string s.label), ("nodes", .number s.nodes), ("edges", .number s.edges)]

end TreeStats

structure ImportReport where
  source : String
  trees : List TreeStats

namespace ImportReport

def text (r : ImportReport) : String :=
  String.ofList <| Text.unlines <|
    s!"trees: {r.trees.length}".toList :: r.trees.map TreeStats.line

def toJson (r : ImportReport) : Json :=
  .object [("source", .string r.source), ("trees", .array (r.trees.map TreeStats.toJson))]

end ImportReport

end Variability.CommandLine
