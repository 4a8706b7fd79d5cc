import CellMachine.Draft
import CellMachine.Main
import CellMachine.Proofs.Execution
import CellMachine.Proofs.Assembler.Decoding
import CellMachine.Proofs.Assembler.Resolution
import CellMachine.Proofs.Decimal.Nearest
import CellMachine.Proofs.Frame.Ledger
import CellMachine.Proofs.Image.Rejections
import CellMachine.Proofs.Machine.Blame
import CellMachine.Proofs.Machine.Boundaries
import CellMachine.Proofs.Execution.Report
import CellMachine.Proofs.Machine.Budget
import CellMachine.Proofs.Machine.CallTrace
import CellMachine.Proofs.Machine.CallReturn
import CellMachine.Proofs.Machine.Cursor
import CellMachine.Proofs.Machine.DepthLimits
import CellMachine.Proofs.Machine.Locality
import CellMachine.Proofs.Machine.OperandRoom
import CellMachine.Proofs.Machine.Relinking
import CellMachine.Proofs.Machine.Reuse
import CellMachine.Proofs.Machine.Structured
import CellMachine.Proofs.Machine.Leftovers
import CellMachine.Proofs.NativeCall
import CellMachine.Proofs.Native.Call
import CellMachine.Proofs.Machine.HostCalls
import CellMachine.Proofs.Machine.Traceless
import CellMachine.Proofs.Machine.Forms
import CellMachine.Proofs.Draft
import CellMachine.Proofs.Argument
import CellMachine.Proofs.Machine.Comparisons
import CellMachine.Proofs.Machine.Division
import CellMachine.Proofs.Machine.Termination
import CellMachine.Proofs.Machine.EntryFrame
