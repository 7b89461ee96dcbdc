import TapeLang.Program.Structure
import TapeLang.Text.Basic

/-! C programs of one form: a tape of bytes, an index, functions without parameters, and
statements that are actions, calls and loops. -/
namespace TapeLang

structure CFunction where
  name : Text
  body : List (Node Text)

structure CProgram where
  tapeSize : Nat
  functions : List CFunction
  main : List (Node Text)

namespace CCode

def actionText : Action → String
  | .increment => "tape[p]++;"
  | .decrement => "tape[p]--;"
  | .left => "p--;"
  | .right => "p++;"
  | .output => "putchar(tape[p]);"
  | .input => "tape[p] = getchar();"

/-- A statement on a line, four blanks for each level. -/
def indented (depth : Nat) (statement : Text) : Text :=
  List.replicate (4 * depth) ' ' ++ statement

mutual

/-- The lines of a statement at a depth of nesting. -/
def nodeLines (depth : Nat) : Node Text → List Text
  | .act action => [indented depth (actionText action).toList]
  | .call name => [indented depth (name ++ "();".toList)]
  | .loop body =>
    indented depth "while (tape[p]) \x7b".toList :: blockLines (depth + 1) body ++
      [indented depth ['\x7d']]

def blockLines (depth : Nat) : List (Node Text) → List Text
  | [] => []
  | node :: rest => nodeLines depth node ++ blockLines depth rest

end

def prototype (name : Text) : Text := "void ".toList ++ name ++ "(void)".toList

def CFunction.lines (f : CFunction) : List Text :=
  (prototype f.name ++ " \x7b".toList) :: blockLines 1 f.body ++ [['\x7d'], []]

end CCode

/-- The lines of a program, each closed by a line feed. -/
def CProgram.render (p : CProgram) : Text :=
  let lines : List Text :=
    ["#include <stdio.h>".toList, [],
     "unsigned char tape[".toList ++ Text.ofNat p.tapeSize ++ "];".toList,
     "int p = 0;".toList, []] ++
    p.functions.map (fun f => CCode.prototype f.name ++ [';']) ++
    (if p.functions.isEmpty then [] else [[]]) ++
    p.functions.flatMap CCode.CFunction.lines ++
    ["int main(void) \x7b".toList] ++ CCode.blockLines 1 p.main ++
    [CCode.indented 1 "return 0;".toList, ['\x7d']]
  lines.flatMap (· ++ ['\n'])

end TapeLang
