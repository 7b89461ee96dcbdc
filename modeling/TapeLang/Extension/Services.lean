import TapeLang.Extension.Handler
import TapeLang.Token.Lexer

/-! What extensions contribute to a machine, and the calls by which they register it. A call
that fails leaves nothing behind. -/
namespace TapeLang

/-- The version of the extension interface that this library speaks. -/
def interfaceVersion : Int := 1

structure Manifest where
  name : Text
  version : Text := "0.0.0".toList
  interface : Int := interfaceVersion
deriving DecidableEq, Repr

/-- Declarations of an extension that every program may use. -/
structure Prelude where
  name : Text
  text : Text
deriving DecidableEq, Repr

def Prelude.file (extension : Text) : Text := "<prelude:".toList ++ extension ++ ['>']

/-- The version that an extension asks for. -/
inductive InterfaceVersion where
  | number (n : Int)
  | text (t : Text)
deriving DecidableEq, Repr

inductive ExtensionError where
  | unknownEvent (name : Text)
  | nonPositivePeriod
  | noKinds
  | unreadablePrelude (extension cause : Text)
  | statementInPrelude (extension value : Text) (line : Int)
  | notFound (path : Text)
  | listNotFound (path : Text)
  | notLoadable (path : Text)
  | wrongApi (path : Text) (version : InterfaceVersion)
  | noRegistration (path : Text)
deriving DecidableEq, Repr

def InterfaceVersion.render : InterfaceVersion → Text
  | number n => Text.ofInt n
  | text t => t

namespace ExtensionError

def message : ExtensionError → Text
  | unknownEvent name =>
    "Unknown event '".toList ++ name ++ "' (known: ".toList ++
      Text.join [',', ' '] (Event.all.map (·.name.toList)) ++ [')']
  | nonPositivePeriod => "every_n_steps must be >= 1".toList
  | noKinds => "on_instruction needs at least one instruction kind".toList
  | unreadablePrelude extension cause =>
    "Prelude of ".toList ++ extension ++ " does not lex: ".toList ++ cause
  | statementInPrelude extension value line =>
    "Prelude of ".toList ++ extension ++ " may only declare; found '".toList ++ value ++
      "' on line ".toList ++ Text.ofInt line
  | notFound path => "Extension not found: ".toList ++ path
  | listNotFound path => ".bfx file not found: ".toList ++ path
  | notLoadable path => "Failed to load extension module: ".toList ++ path
  | wrongApi path version =>
    "Extension ".toList ++ path ++ " requires API ".toList ++ version.render ++
      ", host supports ".toList ++ Text.ofInt interfaceVersion
  | noRegistration path =>
    "Extension ".toList ++ path ++ " must define callable bf_lang_register(ext)".toList

end ExtensionError

structure Services (α β : Type) where
  metadata : List Manifest := []
  hooks : Hooks α β := {}
  preludes : List Prelude := []

/-- A call by which an extension registers something. -/
inductive Registration (α β : Type) where
  | metadata (m : Manifest)
  | onEvent (event : Text) (priority : Int) (handler : α)
  | everySteps (period : Int) (name : Text) (handler : β)
  | onInstruction (kinds : List Text) (name : Text) (handler : β)
  | prelude (text : Text)

namespace Hooks

variable {α β : Type}

/-- Adds a handler for a named event. -/
def onEvent (hooks : Hooks α β) (event : Text) (hook : Hook α) :
    Except ExtensionError (Hooks α β) :=
  match Event.ofName? event with
  | some e => .ok (hooks.addHook e hook)
  | none => .error (.unknownEvent event)

/-- Adds a rule with a period that must be positive. -/
def addPeriodic (hooks : Hooks α β) (name extension : Text) (period : Int)
    (kinds : Option (List Text)) (handler : β) : Except ExtensionError (Hooks α β) :=
  if 0 < period then .ok (hooks.addRule ⟨name, extension, period.toNat, kinds, handler⟩)
  else .error .nonPositivePeriod

end Hooks

/-- A prelude may hold declarations only; the first other token is refused. -/
def checkPrelude (extension text : Text) : Except ExtensionError Prelude :=
  match tokenize (Prelude.file extension) text with
  | .error e => .error (.unreadablePrelude extension e.message)
  | .ok tokens =>
    match tokens.find? fun t => t.kind = .symbol || t.kind = .word with
    | some t => .error (.statementInPrelude extension t.value t.line)
    | none => .ok ⟨extension, text⟩

namespace Services

variable {α β : Type}

/-- One registration in the name of an extension. -/
def register (s : Services α β) (extension : Text) :
    Registration α β → Except ExtensionError (Services α β)
  | .metadata m => .ok { s with metadata := s.metadata ++ [m] }
  | .onEvent event priority handler => do
    return { s with hooks := ← s.hooks.onEvent event ⟨priority, extension, handler⟩ }
  | .everySteps period name handler => do
    return { s with hooks := ← s.hooks.addPeriodic name extension period none handler }
  | .onInstruction kinds name handler => do
    if kinds.isEmpty then throw .noKinds
    return { s with
      hooks := ← s.hooks.addPeriodic name extension 1 (some kinds) handler }
  | .prelude text => do
    return { s with preludes := s.preludes ++ [← checkPrelude extension text] }

/-- Registrations in turn, up to the first that fails. -/
def registerAll (s : Services α β) (extension : Text) (calls : List (Registration α β)) :
    Except ExtensionError (Services α β) :=
  calls.foldlM (·.register extension) s

end Services

/-- The services of machines. -/
abbrev MachineServices := Services EventHandler RuleHandler

end TapeLang
