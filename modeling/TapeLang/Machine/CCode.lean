import TapeLang.CCode.Emission
import TapeLang.Machine.Run

/-! Programs written in C by a machine, whose definitions and compiled calls it uses. -/
namespace TapeLang.Interpreter

/-- The C program of a program that the machine has parsed. -/
def toC (i : Interpreter) (program : Program) (limit : Int) : Exec CProgram :=
  program.toC .source i.bodyOf i.blank.size limit

end TapeLang.Interpreter
