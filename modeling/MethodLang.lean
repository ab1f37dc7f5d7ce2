import MethodLang.Eval.Steps
import MethodLang.Main
import MethodLang.Scopes.Lemmas
import MethodLang.Proofs.Lexical.Basic
import MethodLang.Proofs.Scopes.Agree
import MethodLang.Proofs.Alike
import MethodLang.Proofs.Lexical.Simulation
import MethodLang.Proofs.Lexical.Runs
import MethodLang.Proofs.Evaluation
import MethodLang.Proofs.Footprint
import MethodLang.Proofs.CallLimit
import MethodLang.Proofs.Termination
import MethodLang.Proofs.SlotTypes
import MethodLang.Proofs.Results
import MethodLang.Proofs.Operators
import MethodLang.Proofs.Scopes.Later
import MethodLang.Proofs.Typing
import MethodLang.Proofs.Callees
import MethodLang.Proofs.Reports
import MethodLang.Proofs.Trace.Basic
import MethodLang.Proofs.Trace.Orderly
import MethodLang.Proofs.Shadowing
import MethodLang.Proofs.StackDiscipline
import MethodLang.Proofs.Json.Scanning
import MethodLang.Proofs.Json.Printing
import MethodLang.Proofs.Tree.RoundTrip
import MethodLang.Proofs.Capacity
import MethodLang.Proofs.UnreadInput
import MethodLang.Proofs.CallGraph
import MethodLang.Proofs.Lexical.Agreement
import MethodLang.Proofs.Lexical.Blocks
import MethodLang.Proofs.Blocks
import MethodLang.Proofs.EntryCalls
import MethodLang.Proofs.Signals
import MethodLang.Proofs.Unrolling
import MethodLang.Proofs.Arguments
import MethodLang.Proofs.Tasks
import MethodLang.Proofs.Text.Decimals
import MethodLang.Proofs.Text.Splitting
import MethodLang.Proofs.Returns
import MethodLang.Proofs.Reading
import MethodLang.Proofs.ReadBack
import MethodLang.Proofs.PartialReads
import MethodLang.Proofs.Arithmetic
import MethodLang.Proofs.Registration
import MethodLang.Proofs.Tree.Spelling
import MethodLang.Proofs.Tree.Forms
import MethodLang.Proofs.Tree.Acceptance
import MethodLang.Proofs.Tree.Reloading
import MethodLang.Proofs.Scopes.Operations
import MethodLang.Proofs.StoreLaws
import MethodLang.Proofs.Walks
