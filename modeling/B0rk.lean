import B0rk.Core.Proofs.Correct
import B0rk.Executor.Proofs.Frames
import B0rk.Executor.Proofs.Rounds
import B0rk.Assembler.Proofs.Link
import B0rk.Core.Proofs.Compile
import B0rk.Core.Proofs.Assigned
import B0rk.Assembler.Assembler
import B0rk.Runtime.Proofs.Hold
import B0rk.Executor.Proofs.Adequacy
import B0rk.Executor.Proofs.Markers
import B0rk.Executor.Proofs.Convention
import B0rk.Executor.Proofs.Host
import B0rk.Parser.Proofs.Slots
import B0rk.Packages.Proofs.File
import B0rk.Parser.Proofs.Layout
import B0rk.Parser.Proofs.Types
import B0rk.Parser.Proofs.Operations
import B0rk.Assembler.Proofs.Propagate
import B0rk.Assembler.Proofs.Arithmetic
import B0rk.Runtime.Proofs.Termination
import B0rk.Assembler.Proofs.History
import B0rk.Executor.Proofs.Uses
import B0rk.Parser.Proofs.Precedence
import B0rk.Parser.Proofs.Complete
import B0rk.Parser.Proofs.Resolvable
import B0rk.Parser.Proofs.Loading
import B0rk.Executor.Proofs.Compare
import B0rk.Assembler.Proofs.Arguments
import B0rk.Assembler.Proofs.Variables
import B0rk.Assembler.Proofs.Increment
import B0rk.Assembler.Proofs.Chains
import B0rk.Assembler.Proofs.Assignment
import B0rk.Parser.Proofs.Steps
import B0rk.Executor.Proofs.Constructors
import B0rk.Assembler.Proofs.FusedTest
import B0rk.Runtime.Proofs.Exhausted
import B0rk.Proofs.Statics
import B0rk.Proofs.Native
import B0rk.Runtime.Proofs.Interned
import B0rk.Runtime.Proofs.Bytes
import B0rk.Packages.Proofs.Strings
import B0rk.Packages.Proofs.Array
import B0rk.Parser.Proofs.ByteLexer
import B0rk.Assembler.Proofs.Remove
import B0rk.Assembler.Proofs.Inside
import B0rk.Proofs.ValueText
import B0rk.Parser.Proofs.Dotted
import B0rk.Parser.Proofs.Lines
import B0rk.Parser.Proofs.Comments
import B0rk.Parser.Proofs.Blanks
import B0rk.Parser.Proofs.Grammar
import B0rk.Assembler.Proofs.Steps
import B0rk.Assembler.Proofs.Calls
import B0rk.Assembler.Proofs.Parts
import B0rk.Assembler.Proofs.Swallowed
import B0rk.Assembler.Proofs.Addresses
import B0rk.Core.Proofs.Source
import B0rk.Assembler.Proofs.Handlers
