import Variability.Analysis
import Variability.CommandLine.Arguments
import Variability.CommandLine.Disk
import Variability.CommandLine.Failure
import Variability.CommandLine.Help
import Variability.CommandLine.Host
import Variability.CommandLine.Invocation
import Variability.CommandLine.Program
import Variability.CommandLine.Report
import Variability.CommandLine.Switch
import Variability.CommandLine.Topic
import Variability.CommitDiff
import Variability.Criterion
import Variability.DiffFilter
import Variability.Directive
import Variability.Edit
import Variability.EditPattern
import Variability.Fault
import Variability.FileDiff
import Variability.Formula
import Variability.Formula.Json
import Variability.Formula.Printer
import Variability.Formula.Satisfiability
import Variability.Guard
import Variability.Guard.Token
import Variability.HunkRange
import Variability.Json
import Variability.KeyMap
import Variability.LineGraph.Label
import Variability.LineGraph.Reader
import Variability.LineGraph.Writer
import Variability.Main
import Variability.Mining
import Variability.Mining.Batch
import Variability.Mining.CommitOutcome
import Variability.Mining.UnitState
import Variability.MiningResult
import Variability.MiningResult.Json
import Variability.MiningResult.Snapshot
import Variability.MovedElse
import Variability.NodeKind
import Variability.Patch
import Variability.Patch.Entry
import Variability.Presence
import Variability.Proofs.CommandLine.Directory
import Variability.Proofs.CommandLine.Script
import Variability.Proofs.CommandLine.Site
import Variability.Proofs.CommandLine.TotalFile
import Variability.Proofs.FileDiff.Extent
import Variability.Proofs.FileDiff.GitFormat
import Variability.Proofs.FileDiff.Headers
import Variability.Proofs.FileDiff.Sections
import Variability.Proofs.FileDiff.Split
import Variability.Proofs.Formula.Folded
import Variability.Proofs.Formula.Meaning
import Variability.Proofs.Formula.Oracle
import Variability.Proofs.Formula.Satisfiability
import Variability.Proofs.Guard.Expression
import Variability.Proofs.Guard.Features
import Variability.Proofs.Guard.Grammar
import Variability.Proofs.Guard.Keyword
import Variability.Proofs.Guard.Legible
import Variability.Proofs.Guard.Literal
import Variability.Proofs.Guard.Parsing
import Variability.Proofs.Guard.Printed
import Variability.Proofs.Guard.Quotes
import Variability.Proofs.Guard.Rendering
import Variability.Proofs.Guard.Reparse
import Variability.Proofs.Guard.Respacing
import Variability.Proofs.Guard.Spacing
import Variability.Proofs.HunkRange
import Variability.Proofs.LineGraph.Export
import Variability.Proofs.LineGraph.Faithful
import Variability.Proofs.LineGraph.Label
import Variability.Proofs.LineGraph.Passage
import Variability.Proofs.LineGraph.Reencoding
import Variability.Proofs.LineGraph.RoundTrip
import Variability.Proofs.LineGraph.Section
import Variability.Proofs.Mining.Batching
import Variability.Proofs.Mining.Bookkeeping
import Variability.Proofs.Mining.Cancellation
import Variability.Proofs.Mining.Counting
import Variability.Proofs.Mining.Decoding
import Variability.Proofs.Mining.Faults
import Variability.Proofs.Mining.PatchOutcome
import Variability.Proofs.Mining.PureHistory
import Variability.Proofs.Mining.Schedule
import Variability.Proofs.Mining.Sequential
import Variability.Proofs.Mining.Summary
import Variability.Proofs.MiningResult.Append
import Variability.Proofs.MiningResult.Failure
import Variability.Proofs.MiningResult.Merge
import Variability.Proofs.MiningResult.Snapshot
import Variability.Proofs.MiningResult.Tally
import Variability.Proofs.MiningResult.Timeless
import Variability.Proofs.Patch.Acceptance
import Variability.Proofs.Patch.Balance
import Variability.Proofs.Patch.Bounds
import Variability.Proofs.Patch.Classification
import Variability.Proofs.Patch.CodeEdit
import Variability.Proofs.Patch.Conditional
import Variability.Proofs.Patch.Continued
import Variability.Proofs.Patch.Coverage
import Variability.Proofs.Patch.Cut
import Variability.Proofs.Patch.CutBalance
import Variability.Proofs.Patch.Dissolution
import Variability.Proofs.Patch.EndMarker
import Variability.Proofs.Patch.Exchange
import Variability.Proofs.Patch.Flawless
import Variability.Proofs.Patch.Hull
import Variability.Proofs.Patch.Independence
import Variability.Proofs.Patch.Labels
import Variability.Proofs.Patch.Lineage
import Variability.Proofs.Patch.Lines
import Variability.Proofs.Patch.MovedElse
import Variability.Proofs.Patch.Outline
import Variability.Proofs.Patch.Overflow
import Variability.Proofs.Patch.Overlay
import Variability.Proofs.Patch.Preprocessor
import Variability.Proofs.Patch.Printed
import Variability.Proofs.Patch.Projection
import Variability.Proofs.Patch.Remark
import Variability.Proofs.Patch.Reversal
import Variability.Proofs.Patch.Scopes
import Variability.Proofs.Patch.Seam
import Variability.Proofs.Patch.Sequel
import Variability.Proofs.Patch.Siblings
import Variability.Proofs.Patch.Unnumbered
import Variability.Proofs.PathPattern
import Variability.Proofs.Presence.Classification
import Variability.Proofs.Presence.Conversation
import Variability.Proofs.Presence.Meaning
import Variability.Proofs.Presence.Memory
import Variability.Proofs.Presence.NormalForm
import Variability.Proofs.Presence.Partition
import Variability.Proofs.Presence.Query
import Variability.Proofs.Presence.Reversal
import Variability.Proofs.Presence.Verdict
import Variability.Proofs.Regex.Language
import Variability.Proofs.Regex.Mirror
import Variability.Proofs.Regex.MirrorClass
import Variability.Proofs.Regex.MirrorGroup
import Variability.Proofs.Regex.Moved
import Variability.Proofs.Regex.Reading
import Variability.Proofs.Text.Rows
import Variability.Proofs.Text.Words
import Variability.Proofs.Text.Written
import Variability.Proofs.Tree.Arrangement
import Variability.Proofs.Tree.Ascent
import Variability.Proofs.Tree.Building
import Variability.Proofs.Tree.Consistency
import Variability.Proofs.Tree.Cut
import Variability.Proofs.Tree.DisjointUnion
import Variability.Proofs.Tree.Embedding
import Variability.Proofs.Tree.Flawless
import Variability.Proofs.Tree.Marks
import Variability.Proofs.Tree.MovedElse
import Variability.Proofs.Tree.Nodes
import Variability.Proofs.Tree.Order
import Variability.Proofs.Tree.Restriction
import Variability.Proofs.Tree.Reversal
import Variability.Proofs.Tree.Sequel
import Variability.Proofs.Tree.Survivors
import Variability.Proofs.Tree.Transformed
import Variability.Proofs.Tree.Union
import Variability.Proofs.Tree.Walk
import Variability.Regex
import Variability.Regex.Bracket
import Variability.Regex.Escape
import Variability.Regex.Expression
import Variability.Regex.Footprint
import Variability.Regex.Meaning
import Variability.Regex.Problem
import Variability.Regex.Reader
import Variability.Regex.Scan
import Variability.Regex.Usable
import Variability.Rule
import Variability.Text.Blank
import Variability.Text.CharSet
import Variability.Text.Cut
import Variability.Text.Digit
import Variability.Text.LetterCase
import Variability.Text.Lines
import Variability.Text.Number
import Variability.Text.Property
import Variability.Text.Property.Age
import Variability.Text.Property.Binary
import Variability.Text.Property.Category
import Variability.Text.Property.Script
import Variability.Text.Property.Table
import Variability.Text.Utf8
import Variability.Text.Utf8Ranges
import Variability.Text.WordChar
import Variability.Transform
import Variability.Tree
import Variability.Tree.Flaw
import Variability.Tree.Path
import Variability.Tree.Restriction
