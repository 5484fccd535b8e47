import CodeHabits.LogLine
import CodeHabits.Main
import CodeHabits.Proofs.Concrete.Nesting
import CodeHabits.Proofs.Concrete.Reported
import CodeHabits.Proofs.Concrete.Unread
import CodeHabits.Proofs.Memory.Confidence
import CodeHabits.Proofs.Memory.DataModel
import CodeHabits.Proofs.Memory.Forgetting
import CodeHabits.Proofs.Memory.Importing
import CodeHabits.Proofs.Memory.Liking
import CodeHabits.Proofs.Memory.Retirement
import CodeHabits.Proofs.Memory.Scoring
import CodeHabits.Proofs.Session.Adding
import CodeHabits.Proofs.Session.Agreement
import CodeHabits.Proofs.Session.Batch
import CodeHabits.Proofs.Session.Closing
import CodeHabits.Proofs.Session.Exchange
import CodeHabits.Proofs.Session.FailedRequest
import CodeHabits.Proofs.Session.History
import CodeHabits.Proofs.Session.Ordering
import CodeHabits.Proofs.Session.Streak
import CodeHabits.Proofs.Session.Suggesting
import CodeHabits.Proofs.Session.Times
import CodeHabits.Proofs.Session.Upgrading
import CodeHabits.Proofs.Session.Validation
import CodeHabits.Proofs.Tree.Signature
import CodeHabits.Service
import CodeHabits.Proofs.Token.Covering
import CodeHabits.Proofs.Outline.Braces
import CodeHabits.Proofs.Outline.Steps
import CodeHabits.Proofs.Outline.Reported
import CodeHabits.Proofs.FrontEnd.Problems
import CodeHabits.Proofs.Outline.Behind
import CodeHabits.Proofs.Outline.Moved
import CodeHabits.Proofs.Outline.Pieces
import CodeHabits.Proofs.Outline.Items
import CodeHabits.Proofs.Outline.Header
import CodeHabits.Proofs.Outline.Paths
import CodeHabits.Proofs.Outline.Nesting
import CodeHabits.Proofs.Metrics.Ownership
import CodeHabits.Proofs.Metrics.Complexity
import CodeHabits.Proofs.Python.Chunks
import CodeHabits.Proofs.Python.Recovery
import CodeHabits.Proofs.Python.Kinds
import CodeHabits.Proofs.Python.Columns
import CodeHabits.Proofs.Formatting.LineLengths
import CodeHabits.Proofs.Formatting.OperatorSpacing
import CodeHabits.Proofs.Pattern.Times
import CodeHabits.Proofs.Config.Loaded
import CodeHabits.Proofs.Concrete.Recursion
import CodeHabits.Proofs.Metrics.Nesting
