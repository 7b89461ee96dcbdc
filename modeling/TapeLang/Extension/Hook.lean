import TapeLang.RuntimeError

/-! Hooks: handlers of events in order of priority, and rules applied after steps. -/
namespace TapeLang

inductive Event where
  | programParsed
  | programStart
  | beforeInstruction
  | afterInstruction
  | onError
  | programEnd
deriving DecidableEq, Repr

namespace Event

/-- All events, by name. -/
def all : List Event :=
  [afterInstruction, beforeInstruction, onError, programEnd, programParsed, programStart]

def name : Event → String
  | programParsed => "program_parsed"
  | programStart => "program_start"
  | beforeInstruction => "before_instruction"
  | afterInstruction => "after_instruction"
  | onError => "on_error"
  | programEnd => "program_end"

def ofName? (name : Text) : Option Event := all.find? (·.name.toList == name)

end Event

/-- A handler in the name of an extension. -/
structure Hook (α : Type) where
  priority : Int
  extension : Text
  handler : α

/-- A rule for every step whose count the period divides and whose kind is listed; without
a list every kind will do. -/
structure Rule (β : Type) where
  name : Text
  extension : Text
  period : Nat
  kinds : Option (List Text)
  handler : β

def Rule.applies {β : Type} (rule : Rule β) (step : Int) (kind : Text) : Bool :=
  rule.kinds.all (·.contains kind) && step % rule.period == 0

/-- The hooks of each event, the highest priority first, and the rules in order. -/
structure Hooks (α β : Type) where
  byEvent : Event → List (Hook α) := fun _ => []
  rules : List (Rule β) := []

/-- Places a hook behind all that have its priority or a higher one. -/
def insertHook {α : Type} (hook : Hook α) (hooks : List (Hook α)) : List (Hook α) :=
  hooks.takeWhile (hook.priority ≤ ·.priority) ++
    hook :: hooks.dropWhile (hook.priority ≤ ·.priority)

/-- Calls handlers in turn until one raises. -/
def callInTurn {α σ ε : Type} (call : α → σ → σ × Option ε) : List α → σ → σ × Option ε
  | [], s => (s, none)
  | a :: rest, s =>
    match call a s with
    | (s, none) => callInTurn call rest s
    | (s, some e) => (s, some e)

namespace Hooks

variable {α β : Type}

def addHook (hooks : Hooks α β) (event : Event) (hook : Hook α) : Hooks α β :=
  { hooks with
    byEvent := fun e =>
      if e = event then insertHook hook (hooks.byEvent e) else hooks.byEvent e }

def addRule (hooks : Hooks α β) (rule : Rule β) : Hooks α β :=
  { hooks with rules := hooks.rules ++ [rule] }

def handlers (hooks : Hooks α β) (event : Event) : List α :=
  (hooks.byEvent event).map (·.handler)

/-- The handlers of the rules that apply to a step, in order. -/
def applicable (hooks : Hooks α β) (step : Int) (kind : Text) : List β :=
  (hooks.rules.filter (·.applies step kind)).map (·.handler)

end Hooks
end TapeLang
