import TapeLang.SourceError

/-! The instruction set. Six actions and the two loop brackets have a symbol and a long
name; a call names a function and carries its argument texts. -/
namespace TapeLang

/-- What acts on the tape or on the streams. -/
inductive Action where
  | increment
  | decrement
  | left
  | right
  | output
  | input
deriving DecidableEq, Repr

inductive Command where
  | act (action : Action)
  | jump
  | back
deriving DecidableEq, Repr

inductive Operation where
  | command (c : Command)
  | call (target : Text) (args : List Text)
deriving DecidableEq, Repr

/-- An operation in its place; a bracket knows its partner, in a list of instructions by the
index of it. -/
structure Instruction (ι : Type := Nat) where
  op : Operation
  partner : Option ι := none
  location : Option Location := none
deriving DecidableEq, Repr

namespace Command

/-- All commands, in the order of the instruction table. -/
def all : List Command :=
  [.act .increment, .act .decrement, .act .left, .act .right, .act .output, .act .input,
   .jump, .back]

def symbol : Command → Char
  | act .increment => '+'
  | act .decrement => '-'
  | act .left => '<'
  | act .right => '>'
  | act .output => '.'
  | act .input => ','
  | jump => '['
  | back => ']'

def name : Command → String
  | act .increment => "INCR"
  | act .decrement => "DECR"
  | act .left => "LEFT"
  | act .right => "RIGHT"
  | act .output => "OUT"
  | act .input => "IN"
  | jump => "JUMP"
  | back => "BACK"

/-- The command spelled by its symbol or by its long name. -/
def ofText? (t : Text) : Option Command :=
  all.find? fun c => t == [c.symbol] || t == c.name.toList

theorem ofText?_symbol (c : Command) : ofText? [c.symbol] = some c := by
  cases c with
  | act action => cases action <;> rfl
  | jump => rfl
  | back => rfl

theorem ofText?_name (c : Command) : ofText? c.name.toList = some c := by
  cases c with
  | act action => cases action <;> rfl
  | jump => rfl
  | back => rfl

end Command

namespace Operation

def callText (target : Text) (args : List Text) : Text :=
  if args.isEmpty then target else target ++ '(' :: Text.join [';'] args ++ [')']

/-- The kind of instruction, as errors and step rules name it. -/
def kindName : Operation → Text
  | command c => c.name.toList
  | call .. => "CALL".toList

/-- The short form, as a program is written back. -/
def symbol : Operation → Text
  | command c => [c.symbol]
  | call target args => callText target args

/-- The form shown in traces: the kind of a command, the text of a call. -/
def label : Operation → Text
  | command c => c.name.toList
  | call target args => callText target args

def isCall : Operation → Bool
  | command _ => false
  | call .. => true

end Operation

namespace Instruction

def bind {ι : Type} (i : Instruction ι) (partner : ι) : Instruction ι :=
  { i with partner := some partner }

/-- The unbound instruction that a text spells. -/
def ofText (t : Text) (location : Option Location) : Except SourceError Instruction :=
  match Command.ofText? t with
  | some c => .ok { op := .command c, location }
  | none => .error ⟨.invalidInstruction t, location⟩

end Instruction
end TapeLang
