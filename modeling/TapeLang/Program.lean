import TapeLang.Expansion
import TapeLang.Program.LoopBinder

/-! A program: instructions with bound loops, and the definitions in force behind them. -/
namespace TapeLang

structure Program where
  instructions : Array Instruction
  definitions : Dictionary
deriving DecidableEq, Repr

/-- Work on a definition dictionary, which keeps what was declared when it fails. -/
abbrev Declaring := EStateM SourceError Dictionary

namespace Program

def size (p : Program) : Nat := p.instructions.size

/-- The operations of the calls, in order. -/
def calls (p : Program) : List Operation :=
  (p.instructions.toList.map (·.op)).filter Operation.isCall

end Program

/-- The unbound instruction of an item. -/
def Item.instruction : Item → Except SourceError Instruction
  | .plain text location => Instruction.ofText text (some location)
  | .call definition args location =>
    .ok { op := .call definition.name args, location := some location }

def LoopBinder.consume (binder : LoopBinder) (item : Item) : Except SourceError LoopBinder :=
  item.instruction >>= binder.emit

/-- Runs a consumer over the expanded tokens, on the dictionary that it works on. -/
def Source.consumeAll {σ α : Type} (source : Source) (tokens : List Token) (start : σ)
    (consume : σ → Item → Except SourceError σ) (finish : σ → Except SourceError α) :
    Declaring α := do
  match (source.expand consume tokens).run ⟨← get, start⟩ with
  | .error e p =>
    set p.dictionary
    throw e
  | .ok () p =>
    set p.dictionary
    match finish p.consumed with
    | .error e => throw e
    | .ok a => return a

/-- Reads the tokens of a source as a program. -/
def Source.parse (source : Source) (tokens : List Token) : Declaring Program := do
  let instructions ← source.consumeAll tokens {} LoopBinder.consume LoopBinder.finish
  return ⟨instructions, ← get⟩

/-- A function body as a source of its own, named after the function, and its tokens. -/
def Definition.bodySource (d : Definition) (args : List Text) (limit : Int) :
    Except SourceError (Source × List Token) := do
  let text ← d.instantiate args
  let file := '<' :: d.name ++ ['>']
  return (Source.ofLines file [text] limit, ← tokenize file text)

/-- The program that a call of the definition runs. -/
def Definition.compile (d : Definition) (args : List Text) (limit : Int) : Declaring Program :=
  match d.bodySource args limit with
  | .error e => throw e
  | .ok (source, tokens) => source.parse tokens

end TapeLang
