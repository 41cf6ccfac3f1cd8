import MemoPeg.Action.Expr
import MemoPeg.Evaluation.Fuel
import MemoPeg.Grammar.Build
import MemoPeg.Parser
import MemoPeg.Sample.Assign
import MemoPeg.Sample.Words
import MemoPeg.Proofs.Bindings
import MemoPeg.Proofs.Compilation
import MemoPeg.Proofs.Contract
import MemoPeg.Proofs.Finality
import MemoPeg.Proofs.FurthestFailure
import MemoPeg.Proofs.Independence
import MemoPeg.Proofs.IndirectRecursion
import MemoPeg.Proofs.Linking
import MemoPeg.Proofs.Reentry
import MemoPeg.Proofs.RemainingText
import MemoPeg.Proofs.Termination
import MemoPeg.Proofs.WellFormed
import MemoPeg.Proofs.Cycles
import MemoPeg.Proofs.Repetition
import MemoPeg.Proofs.Sources
import MemoPeg.Proofs.Numbering
import MemoPeg.Proofs.Quoting
import MemoPeg.Proofs.Streams
import MemoPeg.Proofs.Decoding
import MemoPeg.Proofs.Lossless
import MemoPeg.Proofs.Instances
import MemoPeg.Proofs.Unrolling
import MemoPeg.Proofs.FunctionNames
import MemoPeg.Proofs.Locations
import MemoPeg.Proofs.Rendering
