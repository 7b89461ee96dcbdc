import TapeLang.Program

/-! The short form of a program: its symbols, or, when it calls functions, the declarations
in front and every call on a line of its own. -/
namespace TapeLang

/-- Lines of the short form behind a started line. -/
def shortFormLines (current : Text) : List Operation → List Text
  | [] => if current.isEmpty then [] else [current]
  | .call target args :: rest =>
    (if current.isEmpty then [] else [current]) ++
      Operation.callText target args :: shortFormLines [] rest
  | .command c :: rest => shortFormLines (current ++ [c.symbol]) rest

/-- The text that reads back as the program. -/
def Program.shortForm (p : Program) : Text :=
  let operations := p.instructions.toList.map (·.op)
  if p.calls.isEmpty then operations.flatMap Operation.symbol
  else
    Text.join ['\n'] (p.definitions.toList.map Definition.render ++
      shortFormLines [] operations) ++ ['\n']

end TapeLang
