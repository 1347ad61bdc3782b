import Cellscript.Chunk.Listing
import Cellscript.Chunk.Splice
import Cellscript.CommandLine.Command
import Cellscript.Compile.Program
import Cellscript.Interpreter
import Cellscript.Machine.Run
import Cellscript.Main
import Cellscript.Proofs.Acceptance.Scripts
import Cellscript.Proofs.Compile.Recovery
import Cellscript.Proofs.Machine.Pointers
import Cellscript.Proofs.Machine.Rounds
import Cellscript.Proofs.Machine.Safety
import Cellscript.Proofs.Machine.Simulation
import Cellscript.Settings
import Cellscript.Store
import Cellscript.Proofs.Store.Classes
import Cellscript.Proofs.Machine.Assignments
import Cellscript.Proofs.Machine.Control
import Cellscript.Proofs.Machine.Tracing
import Cellscript.Proofs.Compile.Descent
import Cellscript.Proofs.Compile.Termination
import Cellscript.Proofs.Language.Rescanning
import Cellscript.Proofs.Language.Respelling
import Cellscript.Proofs.Store.Exchange
import Cellscript.Proofs.Machine.Operands
import Cellscript.Proofs.Machine.Failures
import Cellscript.Proofs.Compile.Taking
import Cellscript.Proofs.Machine.Expressions
import Cellscript.Proofs.Code.Building
import Cellscript.Proofs.Code.Splicing
import Cellscript.Proofs.Language.LongestMatch
import Cellscript.Proofs.Language.Partition
import Cellscript.Proofs.Code.Regrouping
import Cellscript.Proofs.Acceptance.Isolation
import Cellscript.Proofs.Acceptance.Conditionals
import Cellscript.Proofs.Machine.Branches
import Cellscript.Proofs.Machine.Lines
import Cellscript.Proofs.Compile.History
import Cellscript.Proofs.Interning.Invisible
import Cellscript.Proofs.Code.Upkeep
import Cellscript.Proofs.Store.Handles
