import Reparse.Grammar.Arithmetic
import Reparse.Grammar.Script
import Reparse.Proofs.Arithmetic.Accepts
import Reparse.Proofs.Arithmetic.Ahead
import Reparse.Proofs.Arithmetic.Bounds
import Reparse.Proofs.Arithmetic.Comparison
import Reparse.Proofs.Arithmetic.Confined
import Reparse.Proofs.Arithmetic.Conforming
import Reparse.Proofs.Arithmetic.Consumed
import Reparse.Proofs.Arithmetic.Derivation
import Reparse.Proofs.Arithmetic.Gains
import Reparse.Proofs.Arithmetic.Halted
import Reparse.Proofs.Arithmetic.NodeTypes
import Reparse.Proofs.Arithmetic.Operations
import Reparse.Proofs.Arithmetic.Parts
import Reparse.Proofs.Arithmetic.Recorded
import Reparse.Proofs.Arithmetic.Rounds
import Reparse.Proofs.Arithmetic.Run
import Reparse.Proofs.Arithmetic.Scan
import Reparse.Proofs.Arithmetic.Simulation
import Reparse.Proofs.Arithmetic.Termination
import Reparse.Proofs.Arithmetic.Token
import Reparse.Proofs.Arithmetic.Transport
import Reparse.Proofs.Difference.Alike
import Reparse.Proofs.Difference.Canonical
import Reparse.Proofs.Difference.Complete
import Reparse.Proofs.Difference.Contour
import Reparse.Proofs.Difference.Ends
import Reparse.Proofs.Difference.Faithful
import Reparse.Proofs.Difference.Lockstep
import Reparse.Proofs.Difference.Measure
import Reparse.Proofs.Difference.Moves
import Reparse.Proofs.Difference.Ready
import Reparse.Proofs.Difference.Rounds
import Reparse.Proofs.Difference.Stretches
import Reparse.Proofs.Difference.Walker
import Reparse.Proofs.Document.Comparison
import Reparse.Proofs.Document.KeptUp
import Reparse.Proofs.Document.Layout
import Reparse.Proofs.Document.Marking
import Reparse.Proofs.Document.NodeTypes
import Reparse.Proofs.Document.Obtained
import Reparse.Proofs.Document.Points
import Reparse.Proofs.Document.Reuse
import Reparse.Proofs.Document.Summaries
import Reparse.Proofs.Document.Tiling
import Reparse.Proofs.Document.Unchanged
import Reparse.Proofs.Document.Whole
import Reparse.Proofs.Edit.Layout
import Reparse.Proofs.Edit.Marking
import Reparse.Proofs.Edit.Measure
import Reparse.Proofs.Edit.Spans
import Reparse.Proofs.Edit.Unchanged
import Reparse.Proofs.Node.Current
import Reparse.Proofs.Node.Expression
import Reparse.Proofs.Node.Kinship
import Reparse.Proofs.Node.Moves
import Reparse.Proofs.Node.Order
import Reparse.Proofs.Node.Place
import Reparse.Proofs.Node.Smallest
import Reparse.Proofs.Node.Veils
import Reparse.Proofs.Node.Walk
import Reparse.Proofs.Occurrence
import Reparse.Proofs.Parse.Abreast
import Reparse.Proofs.Parse.Additions
import Reparse.Proofs.Parse.Arrival
import Reparse.Proofs.Parse.Balance
import Reparse.Proofs.Parse.Bounds
import Reparse.Proofs.Parse.Building
import Reparse.Proofs.Parse.Calls
import Reparse.Proofs.Parse.Changes
import Reparse.Proofs.Parse.Detours
import Reparse.Proofs.Parse.Draft
import Reparse.Proofs.Parse.EventShape
import Reparse.Proofs.Parse.Families
import Reparse.Proofs.Parse.Folding
import Reparse.Proofs.Parse.Forward
import Reparse.Proofs.Parse.Handles
import Reparse.Proofs.Parse.Interface
import Reparse.Proofs.Parse.Interspersed
import Reparse.Proofs.Parse.Lexeme
import Reparse.Proofs.Parse.Limits
import Reparse.Proofs.Parse.Lookahead
import Reparse.Proofs.Parse.Record
import Reparse.Proofs.Parse.Scans
import Reparse.Proofs.Parse.Skeleton
import Reparse.Proofs.Parse.Spread
import Reparse.Proofs.Parse.Stages
import Reparse.Proofs.Parse.Tracked
import Reparse.Proofs.Parse.Twins
import Reparse.Proofs.Query.Bounds
import Reparse.Proofs.Query.CaptureOrder
import Reparse.Proofs.Query.Derivation
import Reparse.Proofs.Query.Enumeration
import Reparse.Proofs.Query.Equality
import Reparse.Proofs.Query.Formation
import Reparse.Proofs.Query.Gains
import Reparse.Proofs.Query.Preorder
import Reparse.Proofs.Query.Progress
import Reparse.Proofs.Query.Ranges
import Reparse.Proofs.Query.ReadBack
import Reparse.Proofs.Query.Run
import Reparse.Proofs.Query.Siblings
import Reparse.Proofs.Query.Spelling
import Reparse.Proofs.Query.Stance
import Reparse.Proofs.Query.Tokens
import Reparse.Proofs.Query.Visits
import Reparse.Proofs.Query.WellFormed
import Reparse.Proofs.Scanner.Bounds
import Reparse.Proofs.Scanner.ByteScan
import Reparse.Proofs.Scanner.Charted
import Reparse.Proofs.Scanner.Column
import Reparse.Proofs.Scanner.Course
import Reparse.Proofs.Scanner.Faces
import Reparse.Proofs.Scanner.Marks
import Reparse.Proofs.Scanner.Reads
import Reparse.Proofs.Scanner.Return
import Reparse.Proofs.Scanner.Runs
import Reparse.Proofs.Scanner.Seeks
import Reparse.Proofs.Text.Decode
import Reparse.Proofs.Text.Exact
import Reparse.Proofs.Text.Included
import Reparse.Proofs.Text.Sight
import Reparse.Proofs.Text.Slice
import Reparse.Proofs.Text.Sweep
import Reparse.Proofs.Text.Width
import Reparse.Proofs.Tree.Counted
import Reparse.Proofs.Tree.Erasure
import Reparse.Proofs.Tree.Families
import Reparse.Proofs.Tree.Kinds
import Reparse.Proofs.Tree.Layout
import Reparse.Proofs.Tree.Leaves
import Reparse.Proofs.Tree.Measured
import Reparse.Proofs.Tree.Reuse
import Reparse.Proofs.Tree.Shape
import Reparse.Proofs.Tree.Sound
import Reparse.Proofs.Tree.Summary
import Reparse.Proofs.Workspace.Identity
import Reparse.Proofs.Workspace.Outcome
import Reparse.Proofs.Workspace.Searches
import Reparse.Proofs.Workspace.Session
import Reparse.Proofs.Workspace.Walks
import Reparse.Query.Compile
import Reparse.Workspace.Cursor
import Reparse.Workspace.Query
