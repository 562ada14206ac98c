import JackCompiler.Main
import JackCompiler.Proofs.Comparison.Breakdowns
import JackCompiler.Proofs.Execution.Simulation
import JackCompiler.Proofs.Labelling.Accounts
import JackCompiler.Proofs.Labelling.Handles
import JackCompiler.Proofs.Labelling.Relabelling
import JackCompiler.Proofs.Labelling.Unique
import JackCompiler.Proofs.Lexing.Comments
import JackCompiler.Proofs.Lexing.LineBreak
import JackCompiler.Proofs.Lexing.Positions
import JackCompiler.Proofs.Lexing.Rendering
import JackCompiler.Proofs.Output.InstructionText
import JackCompiler.Proofs.Output.Jumps
import JackCompiler.Proofs.Output.Operands
import JackCompiler.Proofs.Output.StackHeight
import JackCompiler.Proofs.Output.StringConstants
import JackCompiler.Proofs.Output.Transcript
import JackCompiler.Proofs.Prediction.Earliest
import JackCompiler.Proofs.Prediction.Independence
import JackCompiler.Proofs.Prediction.Limits
import JackCompiler.Proofs.Recognition.Language
import JackCompiler.Proofs.Runs.Preservation
import JackCompiler.Proofs.Scoping.Listing
import JackCompiler.Proofs.Scoping.Log
import JackCompiler.Proofs.Scoping.Renaming
import JackCompiler.Proofs.Scoping.Slots
import JackCompiler.Proofs.Termination.Ends
