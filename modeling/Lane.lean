import Lane.Proofs.Typing.Valid
import Lane.Proofs.Flow.Jumps
import Lane.Proofs.Evaluation.Program
import Lane.Proofs.Packing.Lanewise
import Lane.Proofs.Lowering.Layouts
import Lane.Analysis.Trace
import Lane.Code.Draft
import Lane.Host.Session
import Lane.Main
import Lane.Proofs.Packing.Layouts
import Lane.Proofs.Analysis.Checked
import Lane.Proofs.Analysis.Protected
import Lane.Proofs.Analysis.Complete
import Lane.Proofs.Protection.Program
import Lane.Proofs.Calls.Expr
import Lane.Proofs.Calls.Program
import Lane.Proofs.Regular.Builder
import Lane.Proofs.Regular.Program
import Lane.Proofs.Packing.Entries
import Lane.Proofs.Packing.Rising
import Lane.Proofs.Code.Typed
import Lane.Proofs.Packing.Typed
import Lane.Proofs.Packing.Program
import Lane.Proofs.Packing.Accesses
import Lane.Proofs.Lowering.Discipline
import Lane.Proofs.Lowering.Disciplined
import Lane.Proofs.Code.Blocks
import Lane.Proofs.Lowering.Confined
import Lane.Proofs.Packing.Confined
import Lane.Proofs.Llvm.Blocks
import Lane.Proofs.Lowering.Widths
import Lane.Proofs.Packing.Widths
import Lane.Proofs.Packing.Alike
import Lane.Proofs.Packing.Independence
import Lane.Proofs.Analysis.Scoped
import Lane.Proofs.Lowering.Cycles
import Lane.Proofs.Build.Outcome
import Lane.Proofs.Lowering.Points
import Lane.Proofs.Lowering.Bindings
import Lane.Proofs.Lowering.Storage
import Lane.Proofs.Lowering.Names
import Lane.Proofs.Syntax.Roundtrip
import Lane.Proofs.Packing.Additions
import Lane.Proofs.Packing.Closed
import Lane.Proofs.Lowering.Instances
import Lane.Proofs.Lowering.Containment
import Lane.Proofs.Packing.Mirror
import Lane.Proofs.Llvm.Structure
import Lane.Proofs.Typing.Overloads
import Lane.Proofs.Lowering.Containers
import Lane.Proofs.Evaluation.Folding
import Lane.Proofs.Llvm.Runtime
import Lane.Proofs.Evaluation.Literals
import Lane.Proofs.Build.Outputs
import Lane.Proofs.Code.Edits
import Lane.Proofs.Analysis.Written
import Lane.Proofs.Typing.Tables
import Lane.Proofs.Code.Verified
import Lane.Proofs.Packing.Order
