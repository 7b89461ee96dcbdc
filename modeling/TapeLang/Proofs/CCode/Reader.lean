import Mathlib.Data.List.ChainOfFn
import TapeLang.Proofs.CCode.Execution
import TapeLang.Proofs.Program.Tree
import TapeLang.Proofs.Text

/-! Reading C text. A text is cut into lines, of which every one is a statement, a bracket or
part of a declaration. The text of a program reads as that program. -/
namespace TapeLang

namespace CCode

def loopHeader : Text := "while (tape[p]) \x7b".toList

def closingLine : Text := ['\x7d']

def mainHeader : Text := "int main(void) \x7b".toList

def returnStatement : Text := "return 0;".toList

/-- Names of functions: word characters, of which the first is no digit. -/
def isIdentifier (t : Text) : Bool := t.head?.any (!Text.isDecimal ·) && t.all Text.isWord

/-- The text between two others. -/
def between? (front back t : Text) : Option Text :=
  (t.dropPrefix? front).bind (·.dropSuffix? back)

def number? (t : Text) : Option Nat :=
  if t ≠ [] ∧ t.all Char.isDigit then some (Nat.ofDigitChars 10 t 0) else none

def tapeSize? (line : Text) : Option Nat :=
  (between? "unsigned char tape[".toList "];".toList line).bind number?

def unindented (line : Text) : Text := line.dropWhile (· = ' ')

/-- The name that a call names. -/
def calledName? (t : Text) : Option Text := (between? [] "();".toList t).filter isIdentifier

def declaredName? (line : Text) : Option Text :=
  (between? "void ".toList "(void);".toList line).filter isIdentifier

/-- The action of a statement. -/
def action? (t : Text) : Option Action :=
  [Action.increment, .decrement, .left, .right, .output, .input].find? fun a =>
    (actionText a).toList == t

def statement? (t : Text) : Option (Node Text) :=
  match calledName? t with
  | some name => some (.call name)
  | none => (action? t).map .act

/-- Reads statements up to a final line outside of every loop. -/
def readBlock (final : Text) :
    Node.Builder Text → List Text → Option (List (Node Text) × List Text)
  | _, [] => none
  | b, line :: lines =>
    match statement? (unindented line) with
    | some node => readBlock final (b.add node) lines
    | none =>
      if unindented line = loopHeader then
        readBlock final ⟨[], b.current :: b.outer⟩ lines
      else match b.outer with
        | [] => if unindented line = final then some (b.current.reverse, lines) else none
        | enclosing :: outer =>
          if unindented line = closingLine then
            readBlock final ⟨.loop b.current.reverse :: enclosing, outer⟩ lines
          else none

/-- The names of the prototypes in front, and the lines behind them. -/
def readPrototypes : List Text → List Text × List Text
  | [] => ([], [])
  | line :: lines =>
    match declaredName? line with
    | none => ([], line :: lines)
    | some name => (name :: (readPrototypes lines).1, (readPrototypes lines).2)

/-- The lines behind a given one. -/
def behind? (expected : Text) : List Text → Option (List Text)
  | [] => none
  | line :: lines => if line = expected then some lines else none

/-- Reads one function for each name, with a blank line behind it. -/
def readFunctions : List Text → List Text → Option (List CFunction × List Text)
  | [], lines => some ([], lines)
  | name :: names, lines => do
    let lines ← behind? (prototype name ++ " \x7b".toList) lines
    let (body, lines) ← readBlock closingLine {} lines
    let lines ← behind? [] lines
    let (functions, lines) ← readFunctions names lines
    return (⟨name, body⟩ :: functions, lines)

/-- Reads the lines behind the declaration of the index: prototypes, functions in the same
order and the main function. A name may be declared once. -/
def readRest (tapeSize : Nat) (lines : List Text) : Option CProgram :=
  let (names, lines) := readPrototypes lines
  if names.Nodup then do
    let lines ← if names = [] then some lines else behind? [] lines
    let (functions, lines) ← readFunctions names lines
    let lines ← behind? mainHeader lines
    let (main, lines) ← readBlock returnStatement {} lines
    if lines = [closingLine, []] then some ⟨tapeSize, functions, main⟩ else none
  else none

end CCode

open CCode in
/-- The program that a text is. -/
def CProgram.ofText? (t : Text) : Option CProgram := do
  let lines ← behind? "#include <stdio.h>".toList (Text.pieces '\n' t)
  let lines ← behind? [] lines
  let size ← lines.head?.bind tapeSize?
  let lines ← behind? "int p = 0;".toList lines.tail
  let lines ← behind? [] lines
  readRest size lines

namespace CCode

theorem between?_append (front inner back : Text) :
    between? front back (front ++ inner ++ back) = some inner := by
  have rest : (front ++ inner ++ back).dropPrefix? front = some (inner ++ back) := by
    rw [List.append_assoc]
    exact List.dropPrefix?_append_of_beq _ (by simp)
  rw [between?, rest, Option.bind_some, List.dropSuffix?_eq_some_iff]
  exact ⟨back, rfl, by simp⟩

theorem number?_ofNat (n : Nat) : number? (Text.ofNat n) = some n := by
  have digits : (Text.ofNat n).all Char.isDigit := by
    rw [List.all_eq_true]
    intro c member
    exact Text.isDigit_of_mem_ofNat member
  rw [number?, if_pos ⟨Nat.toDigits_ne_nil, digits⟩, Text.ofNat, Nat.ofDigitChars_ten_toDigits]

theorem behind?_cons (line : Text) (lines : List Text) :
    behind? line (line :: lines) = some lines := if_pos rfl

theorem unindented_indented {t : Text} {c : Char} (first : t.head? = some c) (ink : c ≠ ' ')
    (depth : Nat) : unindented (indented depth t) = t := by
  obtain ⟨rest, rfl⟩ : ∃ rest, t = c :: rest := by
    cases t with
    | nil => cases first
    | cons d rest =>
      cases first
      exact ⟨rest, rfl⟩
  rw [indented, unindented, List.dropWhile_append_of_pos (by simp), List.dropWhile_cons_of_neg]
  simpa using ink

theorem statement?_call {name : Text} (legal : isIdentifier name = true) :
    statement? (name ++ "();".toList) = some (.call name) := by
  have called : calledName? (name ++ "();".toList) = some name := by
    have found := between?_append [] name "();".toList
    rw [List.nil_append] at found
    rw [calledName?, found, Option.filter_some, if_pos legal]
  rw [statement?, called]

theorem statement?_actionText (action : Action) :
    statement? (actionText action).toList = some (.act action) := by
  have noCall : calledName? (actionText action).toList = none := by
    cases action <;> decide +kernel
  have found : action? (actionText action).toList = some action := by
    cases action <;> decide +kernel
  rw [statement?, noCall, found]
  rfl

theorem head?_actionText (action : Action) :
    ∃ c, (actionText action).toList.head? = some c ∧ c ≠ ' ' := by
  cases action <;> exact ⟨_, rfl, by decide⟩

theorem head?_of_isIdentifier {name : Text} (legal : isIdentifier name = true) (rest : Text) :
    ∃ c, (name ++ rest).head? = some c ∧ c ≠ ' ' := by
  rw [isIdentifier, Bool.and_eq_true, List.all_eq_true] at legal
  cases name with
  | nil => exact absurd legal.1 (by decide)
  | cons c name =>
    refine ⟨c, rfl, ?_⟩
    rintro rfl
    exact absurd (legal.2 ' ' List.mem_cons_self) (by decide +kernel)

section

variable {final : Text} {b : Node.Builder Text} {lines : List Text}

/-- A line that is a statement is added to the current block. -/
theorem readBlock_statement {t : Text} {node : Node Text} (read : statement? t = some node)
    (first : ∃ c, t.head? = some c ∧ c ≠ ' ') (depth : Nat) :
    readBlock final b (indented depth t :: lines) = readBlock final (b.add node) lines := by
  obtain ⟨c, first, ink⟩ := first
  rw [readBlock, unindented_indented first ink, read]

theorem readBlock_opening (depth : Nat) :
    readBlock final b (indented depth loopHeader :: lines) =
      readBlock final ⟨[], b.current :: b.outer⟩ lines := by
  have none : statement? loopHeader = none := rfl
  rw [readBlock, unindented_indented (c := 'w') rfl (by decide), none]
  exact if_pos rfl

theorem readBlock_closing (depth : Nat) {enclosing current : List (Node Text)}
    {outer : List (List (Node Text))} :
    readBlock final ⟨current, enclosing :: outer⟩ (indented depth closingLine :: lines) =
      readBlock final ⟨.loop current.reverse :: enclosing, outer⟩ lines := by
  have none : statement? closingLine = none := rfl
  rw [readBlock, unindented_indented (c := '\x7d') rfl (by decide), none]
  dsimp only
  rw [if_neg (by decide)]
  exact if_pos rfl

end

mutual

/-- Reading the lines of a statement adds it to the current block. -/
theorem readBlock_nodeLines (final : Text) (node : Node Text)
    (legal : ∀ name ∈ node.calls, isIdentifier name = true) (depth : Nat)
    (b : Node.Builder Text) (lines : List Text) :
    readBlock final b (nodeLines depth node ++ lines) = readBlock final (b.add node) lines := by
  cases node with
  | act action =>
    exact readBlock_statement (statement?_actionText action) (head?_actionText action) depth
  | call name =>
    have named := legal name (by simp [Node.calls])
    exact readBlock_statement (statement?_call named) (head?_of_isIdentifier named _) depth
  | loop body =>
    have opening := @readBlock_opening final b (blockLines (depth + 1) body ++
      indented depth closingLine :: lines) depth
    rw [readBlock_blockLines final body legal, List.append_nil, readBlock_closing,
      List.reverse_reverse] at opening
    rw [nodeLines, List.append_assoc]
    exact opening

theorem readBlock_blockLines (final : Text) (block : List (Node Text))
    (legal : ∀ name ∈ Node.blockCalls block, isIdentifier name = true) (depth : Nat)
    (b : Node.Builder Text) (lines : List Text) :
    readBlock final b (blockLines depth block ++ lines) =
      readBlock final ⟨block.reverse ++ b.current, b.outer⟩ lines := by
  cases block with
  | nil => rfl
  | cons node rest =>
    have first (name : Text) (member : name ∈ node.calls) :=
      legal name (List.mem_append_left _ member)
    have others (name : Text) (member : name ∈ Node.blockCalls rest) :=
      legal name (List.mem_append_right _ member)
    rw [blockLines, List.append_assoc, readBlock_nodeLines final node first,
      readBlock_blockLines final rest others, List.reverse_cons, List.append_assoc]
    rfl

end

/-- Reading a whole block, up to its final line. -/
theorem readBlock_whole {final : Text} (none : statement? final = none)
    (noLoop : final ≠ loopHeader) {c : Char} (first : final.head? = some c)
    (ink : c ≠ ' ') (block : List (Node Text))
    (legal : ∀ name ∈ Node.blockCalls block, isIdentifier name = true) (depth outside : Nat)
    (lines : List Text) :
    readBlock final {} (blockLines depth block ++ indented outside final :: lines) =
      some (block, lines) := by
  rw [readBlock_blockLines final block legal, readBlock, unindented_indented first ink, none]
  dsimp only
  rw [if_neg noLoop, if_pos rfl, List.append_nil, List.reverse_reverse]

theorem not_mem_of_isIdentifier {name : Text} (legal : isIdentifier name = true) :
    '\n' ∉ name := by
  intro member
  rw [isIdentifier, Bool.and_eq_true, List.all_eq_true] at legal
  exact absurd (legal.2 '\n' member) (by decide +kernel)

theorem not_mem_indented {t : Text} (absent : '\n' ∉ t) (depth : Nat) :
    '\n' ∉ indented depth t := by
  rw [indented, List.mem_append, List.mem_replicate]
  rintro (⟨-, blank⟩ | member)
  · exact absurd blank (by decide)
  · exact absent member

mutual

/-- No line of a statement is broken. -/
theorem not_mem_nodeLines (node : Node Text)
    (legal : ∀ name ∈ node.calls, isIdentifier name = true) (depth : Nat) :
    ∀ line ∈ nodeLines depth node, '\n' ∉ line := by
  cases node with
  | act action =>
    rintro line (_ | ⟨_, ⟨⟩⟩)
    refine not_mem_indented ?_ depth
    cases action <;> decide
  | call name =>
    rintro line (_ | ⟨_, ⟨⟩⟩)
    refine not_mem_indented ?_ depth
    have named := not_mem_of_isIdentifier (legal name (by simp [Node.calls]))
    exact List.not_mem_append named (by decide)
  | loop body =>
    intro line member
    rw [nodeLines, List.cons_append, List.mem_cons, List.mem_append, List.mem_singleton] at member
    rcases member with rfl | inside | rfl
    · exact not_mem_indented (by decide) depth
    · exact not_mem_blockLines body legal (depth + 1) line inside
    · exact not_mem_indented (by decide) depth

theorem not_mem_blockLines (block : List (Node Text))
    (legal : ∀ name ∈ Node.blockCalls block, isIdentifier name = true) (depth : Nat) :
    ∀ line ∈ blockLines depth block, '\n' ∉ line := by
  cases block with
  | nil => nofun
  | cons node rest =>
    intro line member
    rw [blockLines, List.mem_append] at member
    rcases member with first | others
    · exact not_mem_nodeLines node (fun name called => legal name (List.mem_append_left _ called))
        depth line first
    · exact not_mem_blockLines rest
        (fun name called => legal name (List.mem_append_right _ called)) depth line others

end

theorem not_mem_prototype {name : Text} (legal : isIdentifier name = true) :
    '\n' ∉ prototype name :=
  List.not_mem_append (List.not_mem_append (by decide) (not_mem_of_isIdentifier legal)) (by decide)

/-- A function whose name and calls can be read. -/
structure IsReadable (f : CFunction) : Prop where
  name : isIdentifier f.name = true
  calls : ∀ name ∈ Node.blockCalls f.body, isIdentifier name = true

variable {functions : List CFunction}

theorem declaredName?_prototype {name : Text} (legal : isIdentifier name = true) :
    declaredName? (prototype name ++ [';']) = some name := by
  have found := between?_append "void ".toList name "(void);".toList
  have closed : "(void)".toList ++ [';'] = "(void);".toList := by decide
  have same : prototype name ++ [';'] = "void ".toList ++ name ++ "(void);".toList :=
    (List.append_assoc ..).trans (congrArg _ closed)
  rw [declaredName?, same, found, Option.filter_some, if_pos legal]

theorem readPrototypes_append (readable : ∀ f ∈ functions, IsReadable f) {line : Text}
    (other : declaredName? line = none) (lines : List Text) :
    readPrototypes (functions.map (fun f => prototype f.name ++ [';']) ++ line :: lines) =
      (functions.map (·.name), line :: lines) := by
  induction functions with
  | nil => rw [List.map_nil, List.nil_append, readPrototypes, other, List.map_nil]
  | cons f functions ih =>
    have first := declaredName?_prototype (readable f List.mem_cons_self).name
    have rest := ih fun g member => readable g (List.mem_cons_of_mem _ member)
    rw [List.map_cons, List.cons_append, readPrototypes, first]
    dsimp only
    rw [rest, List.map_cons]

theorem readFunctions_append (readable : ∀ f ∈ functions, IsReadable f) (lines : List Text) :
    readFunctions (functions.map (·.name)) (functions.flatMap CFunction.lines ++ lines) =
      some (functions, lines) := by
  induction functions with
  | nil => rfl
  | cons f functions ih =>
    have first := (readable f List.mem_cons_self).calls
    have rest := ih fun g member => readable g (List.mem_cons_of_mem _ member)
    have body (behind : List Text) :
        readBlock closingLine {} (blockLines 1 f.body ++ closingLine :: behind) =
          some (f.body, behind) :=
      readBlock_whole rfl (by decide) rfl (by decide) f.body first 1 0 behind
    have laid : (f :: functions).flatMap CFunction.lines ++ lines =
        (prototype f.name ++ " \x7b".toList) ::
          (blockLines 1 f.body ++
            closingLine :: [] :: (functions.flatMap CFunction.lines ++ lines)) := by
      simp [CFunction.lines, closingLine]
    rw [laid, List.map_cons, readFunctions]
    simp only [behind?_cons, Option.bind_eq_bind, Option.bind_some, body, rest]
    rfl

theorem readRest_append {program : CProgram}
    (distinct : (program.functions.map (·.name)).Nodup)
    (readable : ∀ f ∈ program.functions, IsReadable f)
    (calls : ∀ name ∈ Node.blockCalls program.main, isIdentifier name = true) :
    readRest program.tapeSize
      (program.functions.map (fun f => prototype f.name ++ [';']) ++
        ((if program.functions.isEmpty then [] else [[]]) ++
          (program.functions.flatMap CFunction.lines ++
            mainHeader :: (blockLines 1 program.main ++
              [indented 1 returnStatement, closingLine, []])))) = some program := by
  obtain ⟨tapeSize, functions, main⟩ := program
  have noStatement : statement? returnStatement = none := rfl
  have body := readBlock_whole noStatement (by decide) rfl (by decide) main calls 1 1
    [closingLine, []]
  have functionsRead := readFunctions_append readable
  have start {line : Text} (other : declaredName? line = none) (lines : List Text) :=
    readPrototypes_append readable other lines
  cases functions with
  | nil =>
    have start := start (show declaredName? mainHeader = none from rfl)
      (blockLines 1 main ++ [indented 1 returnStatement, closingLine, []])
    have functionsRead := functionsRead
      (mainHeader :: (blockLines 1 main ++ [indented 1 returnStatement, closingLine, []]))
    rw [readRest, List.isEmpty_nil, if_pos rfl, List.flatMap_nil, List.nil_append,
      List.nil_append, start]
    dsimp only
    rw [if_pos distinct, if_pos List.map_nil]
    simp only [Option.bind_eq_bind, Option.bind_some]
    rw [List.flatMap_nil, List.nil_append] at functionsRead
    simp only [functionsRead, behind?_cons, body, Option.bind_some, if_true]
  | cons f functions =>
    have start := start (show declaredName? [] = none from rfl)
    rw [readRest, List.isEmpty_cons, if_neg Bool.false_ne_true, List.singleton_append, start]
    dsimp only
    rw [if_pos distinct, if_neg (by simp)]
    simp only [behind?_cons, Option.bind_eq_bind, Option.bind_some, functionsRead, body, if_true]

theorem not_mem_functionLines (readable : ∀ f ∈ functions, IsReadable f) :
    ∀ line ∈ functions.flatMap CFunction.lines, '\n' ∉ line := by
  intro line member
  obtain ⟨f, listed, member⟩ := List.mem_flatMap.mp member
  simp only [CFunction.lines, List.cons_append, List.mem_cons, List.mem_append,
    List.not_mem_nil, or_false] at member
  rcases member with rfl | inside | rfl | rfl
  · exact List.not_mem_append (not_mem_prototype (readable f listed).name) (by decide)
  · exact not_mem_blockLines f.body (readable f listed).calls 1 line inside
  · decide
  · exact List.not_mem_nil

end CCode

/-- A program whose functions have names of their own. -/
structure CProgram.IsReadable (program : CProgram) : Prop where
  distinct : (program.functions.map (·.name)).Nodup
  functions : ∀ f ∈ program.functions, CCode.IsReadable f
  calls : ∀ name ∈ Node.blockCalls program.main, CCode.isIdentifier name = true

open CCode in
/-- The lines of the text of a program, and the blank behind the last line feed. -/
theorem CProgram.pieces_render {program : CProgram} (readable : program.IsReadable) :
    Text.pieces '\n' program.render =
      ["#include <stdio.h>".toList, [],
        "unsigned char tape[".toList ++ Text.ofNat program.tapeSize ++ "];".toList,
        "int p = 0;".toList, []] ++
      (program.functions.map (fun f => prototype f.name ++ [';']) ++
        ((if program.functions.isEmpty then [] else [[]]) ++
          (program.functions.flatMap CFunction.lines ++
            mainHeader :: (blockLines 1 program.main ++
              [indented 1 returnStatement, closingLine, []])))) := by
  let front : List Text :=
    ["#include <stdio.h>".toList, [],
     "unsigned char tape[".toList ++ Text.ofNat program.tapeSize ++ "];".toList,
     "int p = 0;".toList, []]
  let prototypes := program.functions.map (fun f => prototype f.name ++ [';'])
  let blank : List Text := if program.functions.isEmpty then [] else [[]]
  let bodies := program.functions.flatMap CFunction.lines
  let main := blockLines 1 program.main
  have rendered : program.render = (front ++ prototypes ++ blank ++ bodies ++ [mainHeader] ++
    main ++ [indented 1 returnStatement, closingLine]).flatMap (· ++ ['\n']) := rfl
  have unbroken : ∀ line ∈ front ++ prototypes ++ blank ++ bodies ++ [mainHeader] ++ main ++
      [indented 1 returnStatement, closingLine], '\n' ∉ line := by
    simp only [List.forall_mem_append]
    refine ⟨⟨⟨⟨⟨⟨?_, ?_⟩, ?_⟩, not_mem_functionLines readable.functions⟩, ?_⟩,
      not_mem_blockLines program.main readable.calls 1⟩, by decide⟩
    · have digits : '\n' ∉ Text.ofNat program.tapeSize := fun member =>
        absurd (Text.isDigit_of_mem_ofNat member) (by decide)
      simp [front, digits]
    · intro line member
      obtain ⟨f, listed, rfl⟩ := List.mem_map.mp member
      have named := not_mem_prototype (readable.functions f listed).name
      exact List.not_mem_append named (by decide)
    · intro line member
      by_cases empty : program.functions.isEmpty = true
      · rw [show blank = [] from if_pos empty] at member
        cases member
      · rw [show blank = [[]] from if_neg empty] at member
        cases List.mem_singleton.mp member
        exact List.not_mem_nil
    · decide
  rw [rendered, Text.pieces_flatMap unbroken]
  simp only [front, prototypes, blank, bodies, main, List.append_assoc, List.cons_append,
    List.nil_append]

open CCode in
/-- The text of a program reads as the program. -/
theorem CProgram.ofText?_render {program : CProgram} (readable : program.IsReadable) :
    ofText? program.render = some program := by
  have size : tapeSize? ("unsigned char tape[".toList ++ Text.ofNat program.tapeSize ++
      "];".toList) = some program.tapeSize := by
    rw [tapeSize?, between?_append, Option.bind_some, number?_ofNat]
  rw [ofText?, CProgram.pieces_render readable]
  simp only [List.cons_append, List.nil_append, behind?_cons, Option.bind_eq_bind,
    Option.bind_some, List.head?_cons, size, List.tail_cons]
  exact readRest_append readable.distinct readable.functions readable.calls

/-- A text that is a program and reads the bytes ends in the state. -/
def CCode.Computes (t : Text) (input : List UInt8) (s : CCode.State) : Prop :=
  ∃ program, CProgram.ofText? t = some program ∧ program.Computes input s

/-- What the text of a program computes is what the program computes. -/
theorem CCode.computes_render_iff {program : CProgram} (readable : program.IsReadable)
    {input : List UInt8} {s : CCode.State} :
    CCode.Computes program.render input s ↔ program.Computes input s := by
  constructor
  · rintro ⟨other, read, computes⟩
    rw [CProgram.ofText?_render readable] at read
    cases read
    exact computes
  · intro computes
    exact ⟨program, CProgram.ofText?_render readable, computes⟩

end TapeLang
