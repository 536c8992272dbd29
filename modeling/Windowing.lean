import Windowing.Budget.Text
import Windowing.Cell.Text
import Windowing.Operator
import Windowing.Proofs.Access
import Windowing.Proofs.Alignment
import Windowing.Proofs.Assembly
import Windowing.Proofs.Boundaries
import Windowing.Proofs.Cancellation
import Windowing.Proofs.Defects
import Windowing.Proofs.Development
import Windowing.Proofs.Draining
import Windowing.Proofs.ExactSums
import Windowing.Proofs.Execution
import Windowing.Proofs.Frame
import Windowing.Proofs.Inspection
import Windowing.Proofs.Ledger
import Windowing.Proofs.Operator.Cutting
import Windowing.Proofs.Operator.Output
import Windowing.Proofs.Operator.Reopening
import Windowing.Proofs.Operator.Rows
import Windowing.Proofs.Operator.Run
import Windowing.Proofs.Operator.Sharing
import Windowing.Proofs.Operator.Stopping
import Windowing.Proofs.Preorder
import Windowing.Proofs.Ranges
import Windowing.Proofs.Search
import Windowing.Proofs.Sorting.Chunks
import Windowing.Proofs.Sorting.Clash
import Windowing.Proofs.Sorting.Heads
import Windowing.Proofs.Standing
import Windowing.Proofs.Tiling
import Windowing.Proofs.Writing
import Windowing.Settings.Reader
