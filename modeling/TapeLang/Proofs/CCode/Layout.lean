import TapeLang.Proofs.CCode.Reader

/-! The layout of C text, line by line: which functions the lines declare, define and call, and
whether every line stands as deep as it is nested. -/
namespace TapeLang.CCode

/-- What a line is, without the blanks in front of it. -/
inductive Line where
  | declaration (name : Text)
  | definition (name : Text)
  | mainFunction
  | call (name : Text)
  | opening
  | closing
  | other
deriving DecidableEq, Repr

def definedName? (line : Text) : Option Text :=
  (between? "void ".toList "(void) \x7b".toList line).filter isIdentifier

def Line.ofText (t : Text) : Line :=
  match declaredName? t, definedName? t, calledName? t with
  | some name, _, _ => .declaration name
  | none, some name, _ => .definition name
  | none, none, some name => .call name
  | none, none, none =>
    if t = mainHeader then .mainFunction
    else if t = loopHeader then .opening
    else if t = closingLine then .closing
    else .other

/-- The line that a text is, behind its blanks. -/
def lineOf (line : Text) : Line := .ofText (unindented line)

def indentation (line : Text) : Nat := (line.takeWhile (· = ' ')).length

def Line.declared? : Line → Option Text
  | .declaration name => some name
  | _ => none

def Line.defined? : Line → Option Text
  | .definition name => some name
  | _ => none

def Line.called? : Line → Option Text
  | .call name => some name
  | _ => none

/-- Where lines stand: outside of every function, or in so many loops of one. -/
inductive Place where
  | outside
  | inside (loops : Nat)
deriving DecidableEq, Repr

/-- How deep a line must stand at a place, and the place behind it. A function opens outside, and
closes where no loop is open. -/
def Place.read : Place → Line → Option (Nat × Place)
  | .outside, .definition _ | .outside, .mainFunction => some (0, .inside 0)
  | .outside, .declaration _ | .outside, .other => some (0, .outside)
  | .inside loops, .opening => some (1 + loops, .inside (loops + 1))
  | .inside (loops + 1), .closing => some (1 + loops, .inside loops)
  | .inside 0, .closing => some (0, .outside)
  | .inside loops, .call _ | .inside loops, .other => some (1 + loops, .inside loops)
  | _, _ => none

/-- The place behind a line that is indented by four blanks for each level. -/
def Place.next (place : Place) (line : Text) : Option Place :=
  (place.read (lineOf line)).bind fun (depth, after) =>
    if indentation line = 4 * depth then some after else none

/-- Lines that lead from one place to another and declare, define and call functions in turn. -/
structure Stretch (lines : List Text) (start finish : Place)
    (declared defined called : List Text) : Prop where
  declared : lines.filterMap (fun line => (lineOf line).declared?) = declared
  defined : lines.filterMap (fun line => (lineOf line).defined?) = defined
  called : lines.filterMap (fun line => (lineOf line).called?) = called
  nested : lines.foldlM Place.next start = some finish

theorem stretch_iff {lines : List Text} {start finish : Place}
    {declared defined called : List Text} :
    Stretch lines start finish declared defined called ↔
      lines.filterMap (fun line => (lineOf line).declared?) = declared ∧
        lines.filterMap (fun line => (lineOf line).defined?) = defined ∧
        lines.filterMap (fun line => (lineOf line).called?) = called ∧
        lines.foldlM Place.next start = some finish :=
  ⟨fun s => ⟨s.declared, s.defined, s.called, s.nested⟩, fun ⟨a, b, c, d⟩ => ⟨a, b, c, d⟩⟩

instance (lines : List Text) (start finish : Place) (declared defined called : List Text) :
    Decidable (Stretch lines start finish declared defined called) :=
  decidable_of_iff' _ stretch_iff

namespace Stretch

variable {first second lines : List Text} {start middle finish : Place} {line : Text}
variable {declared defined called declared' defined' called' : List Text}

theorem nil (place : Place) : Stretch [] place place [] [] [] := ⟨rfl, rfl, rfl, rfl⟩

theorem append (front : Stretch first start middle declared defined called)
    (back : Stretch second middle finish declared' defined' called') :
    Stretch (first ++ second) start finish (declared ++ declared') (defined ++ defined')
      (called ++ called') := by
  constructor
  · simp [front.declared, back.declared]
  · simp [front.defined, back.defined]
  · simp [front.called, back.called]
  · simp [front.nested, back.nested]

theorem single (kind : Line) {depth : Nat} (is : lineOf line = kind)
    (stands : start.read kind = some (depth, finish)) (indent : indentation line = 4 * depth) :
    Stretch [line] start finish kind.declared?.toList kind.defined?.toList
      kind.called?.toList := by
  subst is
  constructor
  · cases found : (lineOf line).declared? <;> simp [found]
  · cases found : (lineOf line).defined? <;> simp [found]
  · cases found : (lineOf line).called? <;> simp [found]
  · simp [Place.next, stands, indent]

end Stretch

section

variable {t name : Text}

theorem between?_eq_some_iff {front back inner : Text} :
    between? front back t = some inner ↔ t = front ++ inner ++ back := by
  constructor
  · intro found
    obtain ⟨rest, behind, cut⟩ := Option.bind_eq_some_iff.mp found
    obtain ⟨front', rfl, same⟩ := List.dropPrefix?_eq_some_iff.mp behind
    obtain ⟨back', rfl, same'⟩ := List.dropSuffix?_eq_some_iff.mp cut
    simp only [beq_iff_eq] at same same'
    subst same same'
    simp
  · rintro rfl
    exact between?_append front inner back

theorem declaredName?_eq_some_iff :
    declaredName? t = some name ↔
      t = "void ".toList ++ name ++ "(void);".toList ∧ isIdentifier name = true := by
  rw [declaredName?, Option.filter_eq_some_iff, between?_eq_some_iff]

theorem definedName?_eq_some_iff :
    definedName? t = some name ↔
      t = "void ".toList ++ name ++ "(void) \x7b".toList ∧ isIdentifier name = true := by
  rw [definedName?, Option.filter_eq_some_iff, between?_eq_some_iff]

theorem calledName?_eq_some_iff :
    calledName? t = some name ↔ t = name ++ "();".toList ∧ isIdentifier name = true := by
  rw [calledName?, Option.filter_eq_some_iff, between?_eq_some_iff, List.nil_append]

theorem blank_not_in_identifier (legal : isIdentifier name = true) : ' ' ∉ name := by
  intro member
  rw [isIdentifier, Bool.and_eq_true, List.all_eq_true] at legal
  exact absurd (legal.2 ' ' member) (by decide +kernel)

/-- A text without a blank declares and defines nothing. -/
theorem names_of_no_blank (solid : ' ' ∉ t) : declaredName? t = none ∧ definedName? t = none := by
  simp only [Option.eq_none_iff_forall_ne_some]
  constructor
  · intro name found
    rw [(declaredName?_eq_some_iff.mp found).1] at solid
    exact solid (by simp)
  · intro name found
    rw [(definedName?_eq_some_iff.mp found).1] at solid
    exact solid (by simp)

/-- A text that starts otherwise declares and defines nothing. -/
theorem names_of_head (first : t.head? ≠ some 'v') :
    declaredName? t = none ∧ definedName? t = none := by
  simp only [Option.eq_none_iff_forall_ne_some]
  constructor
  · intro name found
    rw [(declaredName?_eq_some_iff.mp found).1] at first
    exact first rfl
  · intro name found
    rw [(definedName?_eq_some_iff.mp found).1] at first
    exact first rfl

theorem calledName?_of_blank (blank : ' ' ∈ t) : calledName? t = none := by
  rw [Option.eq_none_iff_forall_ne_some]
  intro name found
  obtain ⟨rfl, legal⟩ := calledName?_eq_some_iff.mp found
  rcases List.mem_append.mp blank with inside | behind
  · exact blank_not_in_identifier legal inside
  · exact absurd behind (by decide)

theorem ofText_declaration (legal : isIdentifier name = true) :
    Line.ofText (prototype name ++ [';']) = .declaration name := by
  rw [Line.ofText, declaredName?_prototype legal]

theorem ofText_definition (legal : isIdentifier name = true) :
    Line.ofText (prototype name ++ " \x7b".toList) = .definition name := by
  have laid : prototype name ++ " \x7b".toList =
      "void ".toList ++ name ++ "(void) \x7b".toList := by
    unfold prototype
    rw [List.append_assoc]
    rfl
  have undeclared : declaredName? (prototype name ++ " \x7b".toList) = none := by
    rw [Option.eq_none_iff_forall_ne_some]
    intro other found
    have last := congrArg (·.reverse.head?) (declaredName?_eq_some_iff.mp found).1
    simp at last
  rw [Line.ofText, undeclared, definedName?_eq_some_iff.mpr ⟨laid, legal⟩]

theorem ofText_call (legal : isIdentifier name = true) :
    Line.ofText (name ++ "();".toList) = .call name := by
  have solid : ' ' ∉ name ++ "();".toList :=
    List.not_mem_append (blank_not_in_identifier legal) (by decide)
  obtain ⟨undeclared, undefined⟩ := names_of_no_blank solid
  rw [Line.ofText, undeclared, undefined, calledName?_eq_some_iff.mpr ⟨rfl, legal⟩]

theorem ofText_action (action : Action) : Line.ofText (actionText action).toList = .other := by
  cases action <;> decide +kernel

/-- The declaration of the tape declares no function. -/
theorem ofText_tape (size : Nat) :
    Line.ofText ("unsigned char tape[".toList ++ Text.ofNat size ++ "];".toList) = .other := by
  generalize same : "unsigned char tape[".toList ++ Text.ofNat size ++ "];".toList = line
  have first : line.head? = some 'u' := by
    rw [← same]
    rfl
  have blank : ' ' ∈ line := by
    rw [← same]
    exact List.mem_append_left _ (List.mem_append_left _ (by decide))
  obtain ⟨undeclared, undefined⟩ := names_of_head (t := line) (by simp [first])
  have different (other : Text) (head : other.head? ≠ some 'u') : line ≠ other := by
    rintro rfl
    exact head first
  rw [Line.ofText, undeclared, undefined, calledName?_of_blank blank]
  dsimp only
  rw [if_neg (different _ (by decide)), if_neg (different _ (by decide)),
    if_neg (different _ (by decide))]

theorem indentation_indented (first : ∃ c, t.head? = some c ∧ c ≠ ' ') (depth : Nat) :
    indentation (indented depth t) = 4 * depth := by
  obtain ⟨c, head, ink⟩ := first
  cases t with
  | nil => simp at head
  | cons d rest =>
    obtain rfl : d = c := by simpa using head
    simp [indentation, indented, List.takeWhile_append_of_pos, ink]

theorem lineOf_indented (first : ∃ c, t.head? = some c ∧ c ≠ ' ') (depth : Nat) :
    lineOf (indented depth t) = Line.ofText t := by
  obtain ⟨c, head, ink⟩ := first
  rw [lineOf, unindented_indented head ink]

end

section

variable {loops : Nat} {functions : List CFunction}

theorem stretch_statement {t : Text} {kind : Line} (is : Line.ofText t = kind)
    (first : ∃ c, t.head? = some c ∧ c ≠ ' ')
    (stands : (Place.inside loops).read kind = some (1 + loops, .inside loops)) :
    Stretch [indented (1 + loops) t] (.inside loops) (.inside loops) kind.declared?.toList
      kind.defined?.toList kind.called?.toList :=
  .single kind ((lineOf_indented first _).trans is) stands (indentation_indented first _)

mutual

/-- The lines of a statement stand as deep as it is nested, and call what it calls. -/
theorem stretch_nodeLines (node : Node Text)
    (legal : ∀ name ∈ node.calls, isIdentifier name = true) (loops : Nat) :
    Stretch (nodeLines (1 + loops) node) (.inside loops) (.inside loops) [] [] node.calls := by
  cases node with
  | act action =>
    exact stretch_statement (ofText_action action) (head?_actionText action) rfl
  | call name =>
    have named := legal name (by simp [Node.calls])
    exact stretch_statement (ofText_call named) (head?_of_isIdentifier named _) rfl
  | loop body =>
    have opened : Stretch [indented (1 + loops) loopHeader] (.inside loops) (.inside (loops + 1))
        [] [] [] :=
      have first : ∃ c, loopHeader.head? = some c ∧ c ≠ ' ' := ⟨'w', rfl, by decide⟩
      .single .opening (lineOf_indented first _) rfl (indentation_indented first _)
    have closed : Stretch [indented (1 + loops) closingLine] (.inside (loops + 1)) (.inside loops)
        [] [] [] :=
      have first : ∃ c, closingLine.head? = some c ∧ c ≠ ' ' := ⟨'\x7d', rfl, by decide⟩
      .single .closing (lineOf_indented first _) rfl (indentation_indented first _)
    have inner := stretch_blockLines body legal (loops + 1)
    have whole := (opened.append inner).append closed
    simp only [List.nil_append, List.append_nil] at whole
    exact whole

theorem stretch_blockLines (block : List (Node Text))
    (legal : ∀ name ∈ Node.blockCalls block, isIdentifier name = true) (loops : Nat) :
    Stretch (blockLines (1 + loops) block) (.inside loops) (.inside loops) [] []
      (Node.blockCalls block) := by
  cases block with
  | nil => exact .nil _
  | cons node rest =>
    have first := stretch_nodeLines node
      (fun name member => legal name (List.mem_append_left _ member)) loops
    have others := stretch_blockLines rest
      (fun name member => legal name (List.mem_append_right _ member)) loops
    exact first.append others

end

/-- A line that stands outside of every function. -/
theorem stretch_outside {line : Text} (kind : Line) {finish : Place} (is : lineOf line = kind)
    (stands : Place.outside.read kind = some (0, finish)) (solid : indentation line = 0) :
    Stretch [line] .outside finish kind.declared?.toList kind.defined?.toList
      kind.called?.toList :=
  .single kind is stands solid

theorem stretch_prototypes (readable : ∀ f ∈ functions, IsReadable f) :
    Stretch (functions.map fun f => prototype f.name ++ [';']) .outside .outside
      (functions.map (·.name)) [] [] := by
  induction functions with
  | nil => exact .nil _
  | cons f functions ih =>
    have first : Stretch [prototype f.name ++ [';']] .outside .outside [f.name] [] [] :=
      stretch_outside (.declaration f.name)
        (ofText_declaration (readable f List.mem_cons_self).name) rfl rfl
    exact first.append (ih fun g member => readable g (List.mem_cons_of_mem _ member))

/-- The lines of a function define it and lead outside again. -/
theorem stretch_function {f : CFunction} (readable : IsReadable f) :
    Stretch (CFunction.lines f) .outside .outside [] [f.name] (Node.blockCalls f.body) := by
  have header : Stretch [prototype f.name ++ " \x7b".toList] .outside (.inside 0) [] [f.name] [] :=
    stretch_outside (.definition f.name) (ofText_definition readable.name) rfl rfl
  have body := stretch_blockLines f.body readable.calls 0
  have closed : Stretch [closingLine, []] (.inside 0) .outside [] [] [] := by decide +kernel
  have whole := (header.append body).append closed
  simp only [List.nil_append, List.append_nil] at whole
  exact whole

theorem stretch_functions (readable : ∀ f ∈ functions, IsReadable f) :
    Stretch (functions.flatMap CFunction.lines) .outside .outside [] (functions.map (·.name))
      (functions.flatMap fun f => Node.blockCalls f.body) := by
  induction functions with
  | nil => exact .nil _
  | cons f functions ih =>
    have first := stretch_function (readable f List.mem_cons_self)
    exact first.append (ih fun g member => readable g (List.mem_cons_of_mem _ member))

end

/-- The text of a program declares and defines its functions, each once, and calls what their
statements call. Every line stands as deep as it is nested, and all brackets are closed. -/
theorem stretch_render {program : CProgram} (readable : program.IsReadable) :
    Stretch (Text.pieces '\n' program.render) .outside .outside
      (program.functions.map (·.name)) (program.functions.map (·.name))
      (program.functions.flatMap (fun f => Node.blockCalls f.body) ++
        Node.blockCalls program.main) := by
  have front : Stretch ["#include <stdio.h>".toList, [],
      "unsigned char tape[".toList ++ Text.ofNat program.tapeSize ++ "];".toList,
      "int p = 0;".toList, []] .outside .outside [] [] [] := by
    have tape : Stretch ["unsigned char tape[".toList ++ Text.ofNat program.tapeSize ++
        "];".toList] .outside .outside [] [] [] :=
      stretch_outside .other (ofText_tape program.tapeSize) rfl rfl
    have above : Stretch ["#include <stdio.h>".toList, []] .outside .outside [] [] [] := by
      decide +kernel
    have below : Stretch ["int p = 0;".toList, []] .outside .outside [] [] [] := by
      decide +kernel
    exact (above.append tape).append below
  have blank : Stretch (if program.functions.isEmpty then [] else [[]]) .outside .outside
      [] [] [] := by
    cases program.functions with
    | nil => exact .nil _
    | cons => exact show Stretch [[]] .outside .outside [] [] [] by decide +kernel
  have header : Stretch [mainHeader] .outside (.inside 0) [] [] [] := by decide +kernel
  have closed : Stretch [indented 1 returnStatement, closingLine, []] (.inside 0) .outside
      [] [] [] := by
    decide +kernel
  have body := stretch_blockLines program.main readable.calls 0
  have whole := front.append ((stretch_prototypes readable.functions).append
    (blank.append ((stretch_functions readable.functions).append
      (header.append (body.append closed)))))
  simp only [List.nil_append, List.append_nil] at whole
  rw [CProgram.pieces_render readable]
  exact whole

end TapeLang.CCode
