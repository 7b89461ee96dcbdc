import TapeLang.Console.Screen
import TapeLang.Machine.Run
import TapeLang.Machine.Traceback

/-! The interactive console. Lines gather in a buffer as long as only an open loop keeps
them from being executed; a blank line ends the waiting. -/
namespace TapeLang.Console

def interactiveFile : Text := "<repl>".toList

/-- Light blue, as the terminal is told. -/
def highlighted (t : Text) : Text :=
  '\x1b' :: "[38;2;153;221;255m".toList ++ t ++ '\x1b' :: "[0m".toList

def banner : Text :=
  highlighted "BF-Lang".toList ++
    " REPL. Enter instructions, blank line to run buffer.".toList

/-- The machine, the lines that wait, and whether the output stands within a line. -/
structure Interactive where
  interpreter : Interpreter
  machine : Machine
  buffer : List Text := []
  midLine : Bool := false

namespace Interactive

def prompt (c : Interactive) : Text :=
  highlighted (if c.buffer.isEmpty then ">>>".toList else "..>".toList) ++ [' ']

/-- What stands before a line is read: the prompt, on a line of its own. -/
def showPrompt (c : Interactive) (s : Screen) : Interactive × Screen :=
  ({ c with midLine := false }, (if c.midLine then s.print ['\n'] else s).print c.prompt)

/-- The bytes of the output behind those already shown, as characters. -/
def outputSince (before after : Machine) : Text :=
  (after.output.toList.drop before.output.size).map fun byte => Char.ofNat byte.toNat

/-- Shows the outcome of executing a text. The buffer waits if the text lacks the end of a
loop and more lines may follow; otherwise it is done with. -/
def conclude (c : Interactive) (s : Screen)
    (result : EStateM.Result Fault Machine (Program × Interpreter.Ending)) :
    Interactive × Screen :=
  match result with
  | .ok _ m =>
    let shown := outputSince c.machine m
    let s := if shown.isEmpty then s else s.printLine shown
    ({ c with machine := m, buffer := [] },
      s.printLine (Tape.cellLine m.tape m.tape.pointer))
  | .error fault m =>
    let shown := outputSince c.machine m
    let s := if shown.isEmpty then s else s.print shown
    let c := { c with machine := m, midLine := !shown.isEmpty }
    match fault with
    | .source e =>
      if e.fault = .unbalancedLoop .opening && !c.buffer.isEmpty then (c, s)
      else ({ c with buffer := [] }, s.complain e.report)
    | .runtime e =>
      ({ c with buffer := [] },
        s.complain (Traceback.render m e c.interpreter.setup.verbose))
    | .foreign _ => ({ c with buffer := [] }, s)

/-- Takes a line. A line that is not blank joins the buffer; a blank one clears it, after
which what was in it is executed for the last time. -/
def feed (fuel : Nat) (c : Interactive) (s : Screen) (line : Text) : Interactive × Screen :=
  let blank := Text.isBlankText line
  if blank && c.buffer.isEmpty then (c, s)
  else
    let gathered := if blank then c.buffer else c.buffer ++ [line]
    let text := Text.join ['\n'] gathered
    let c := { c with buffer := if blank then [] else gathered }
    c.conclude s ((c.interpreter.evaluate fuel interactiveFile text).run c.machine)

/-- A whole session: a prompt before each line, and one before the end of the input. -/
def session (fuel : Nat) : List Text → Interactive × Screen → Interactive × Screen
  | [], (c, s) =>
    let (c, s) := c.showPrompt s
    (c, s.print ['\n'])
  | line :: rest, (c, s) =>
    let (c, s) := c.showPrompt s
    session fuel rest (c.feed fuel s line)

end Interactive
end TapeLang.Console
