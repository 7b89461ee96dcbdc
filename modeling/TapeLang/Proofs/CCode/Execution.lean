import TapeLang.CCode

/-! What C programs of this form do. Statements run from front to back on the cells, the index
and the streams; a call runs the body of the function of that name. Reading or writing outside
of the tape has no meaning, so a program that does it has no execution. -/
namespace TapeLang.CCode

/-- What statements work on. The index may leave the tape as long as no cell is used there. -/
structure State where
  cells : Nat → UInt8
  index : Int
  input : List UInt8
  output : Array UInt8

namespace State

/-- A tape of zeros with the index at its first cell, nothing written yet. -/
def start (input : List UInt8) : State := ⟨fun _ => 0, 0, input, #[]⟩

/-- The cell at the index of a tape of so many cells. -/
def cell? (size : Nat) (s : State) : Option UInt8 :=
  if 0 ≤ s.index ∧ s.index < size then some (s.cells s.index.toNat) else none

def store (s : State) (value : UInt8) : State :=
  { s with cells := fun k => if k = s.index.toNat then value else s.cells k }

/-- The byte that is stored for the next character. The end of the input is the number -1,
which is 255 in a cell. -/
def takeByte (s : State) : UInt8 × State :=
  match s.input with
  | [] => (255, s)
  | byte :: input => (byte, { s with input })

/-- What an action does. Cells count modulo 256. -/
def act (size : Nat) (s : State) : Action → Option State
  | .increment => (s.cell? size).map fun value => s.store (value + 1)
  | .decrement => (s.cell? size).map fun value => s.store (value - 1)
  | .left => some { s with index := s.index - 1 }
  | .right => some { s with index := s.index + 1 }
  | .output => (s.cell? size).map fun value => { s with output := s.output.push value }
  | .input => (s.cell? size).map fun _ => s.takeByte.2.store s.takeByte.1

end State

/-- `Executes program block s t`: the statements take one state to the other. -/
inductive Executes (program : CProgram) : List (Node Text) → State → State → Prop where
  | nil {s} : Executes program [] s s
  | act {action rest s t u} :
      s.act program.tapeSize action = some t →
      Executes program rest t u →
      Executes program (.act action :: rest) s u
  | call {name rest s t u f} :
      program.functions.find? (·.name == name) = some f →
      Executes program f.body s t →
      Executes program rest t u →
      Executes program (.call name :: rest) s u
  | leave {body rest s u} :
      s.cell? program.tapeSize = some 0 →
      Executes program rest s u →
      Executes program (.loop body :: rest) s u
  | again {value body rest s t u} :
      s.cell? program.tapeSize = some value → value ≠ 0 →
      Executes program body s t →
      Executes program (.loop body :: rest) t u →
      Executes program (.loop body :: rest) s u

/-- A state has at most one execution of a block. -/
theorem Executes.unique {program : CProgram} {block : List (Node Text)} {s t u : State}
    (first : Executes program block s t) (second : Executes program block s u) : t = u := by
  induction first generalizing u with
  | nil =>
    cases second
    rfl
  | act acted _ ih =>
    cases second with
    | act acted' rest =>
      cases acted.symm.trans acted'
      exact ih rest
  | call found _ _ ihBody ihRest =>
    cases second with
    | call found' body rest =>
      cases found.symm.trans found'
      cases ihBody body
      exact ihRest rest
  | leave zero _ ih =>
    cases second with
    | leave _ rest => exact ih rest
    | again found nonzero _ _ =>
      cases zero.symm.trans found
      exact absurd rfl nonzero
  | again found nonzero _ _ ihBody ihAgain =>
    cases second with
    | leave zero _ =>
      cases found.symm.trans zero
      exact absurd rfl nonzero
    | again _ _ body rest =>
      cases ihBody body
      exact ihAgain rest

end CCode

/-- A program that reads the bytes ends in the state. -/
def CProgram.Computes (program : CProgram) (input : List UInt8) (s : CCode.State) : Prop :=
  CCode.Executes program program.main (.start input) s

end TapeLang
