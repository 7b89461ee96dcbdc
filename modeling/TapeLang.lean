import TapeLang.Main
import TapeLang.Proofs.Program.LoopCheck
import TapeLang.Proofs.Machine.CFunctions
import TapeLang.Proofs.Machine.Inlining
import TapeLang.Proofs.Machine.CallChain
import TapeLang.Proofs.Machine.Joined
import TapeLang.Proofs.Machine.Limits
import TapeLang.Proofs.Machine.Rewriting
import TapeLang.Proofs.Machine.Events
import TapeLang.Proofs.Machine.Abandoned
import TapeLang.Proofs.Machine.Stopping
import TapeLang.Proofs.Machine.Tracing
import TapeLang.Proofs.Machine.Unread
import TapeLang.Proofs.Definition.Substitution
import TapeLang.Proofs.Program.Unfolding
import TapeLang.Proofs.Expansion.Absent
import TapeLang.Proofs.Expansion.CallWords
import TapeLang.Proofs.Program.Folding
import TapeLang.Proofs.Program.Guarded
import TapeLang.Proofs.Console.Interactive
import TapeLang.Proofs.Console.Exits
import TapeLang.Proofs.Termination
import TapeLang.Proofs.Program.CallSites
import TapeLang.Proofs.Program.Refusals
import TapeLang.Proofs.Token.Statements
import TapeLang.Proofs.Program.FreeForm
import TapeLang.Proofs.Program.Callable
import TapeLang.Proofs.Token.Coverage
import TapeLang.Proofs.Token.Below
import TapeLang.Proofs.Bitmap.File
import TapeLang.Proofs.Tape
import TapeLang.Proofs.Machine.Preludes
import TapeLang.Proofs.Machine.RaisedBehind
import TapeLang.Proofs.Machine.LeftFrames
import TapeLang.Proofs.Machine.Failures
