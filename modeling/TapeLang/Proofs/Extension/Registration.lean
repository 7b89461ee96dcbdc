import TapeLang.Extension.Services
import TapeLang.Proofs.Effect
import TapeLang.Proofs.Extension.Hook

/-! What stays registered of any calls, made in any names, of which some fail. A call succeeds or
fails by what it is given, whatever was registered before; and what is registered is what the calls
that succeed give, in the order in which they are made. -/
namespace TapeLang

/-- Tokens that declare, and the end of the text. -/
def TokenKind.isDeclaring : TokenKind → Bool
  | declaration _ | endOfText => true
  | symbol | word => false

/-- Whether a text can be cut into tokens, and all of them declare. -/
def Prelude.isAccepted (extension text : Text) : Bool :=
  match tokenize (Prelude.file extension) text with
  | .ok tokens => tokens.all (·.kind.isDeclaring)
  | .error _ => false

/-- What is accepted as a prelude is taken as it is. -/
theorem checkPrelude_cases (extension text : Text) :
    (Prelude.isAccepted extension text = true ∧
      checkPrelude extension text = .ok ⟨extension, text⟩) ∨
    (Prelude.isAccepted extension text = false ∧ ∃ e, checkPrelude extension text = .error e) := by
  unfold Prelude.isAccepted checkPrelude
  cases tokenize (Prelude.file extension) text with
  | error e => exact .inr ⟨rfl, _, rfl⟩
  | ok tokens =>
    have kinds (t : Token) : t.kind.isDeclaring = !(t.kind = .symbol || t.kind = .word) := by
      cases t.kind <;> rfl
    dsimp only
    cases found : tokens.find? fun t => t.kind = .symbol || t.kind = .word with
    | none =>
      left
      refine ⟨List.all_eq_true.mpr fun t member => ?_, rfl⟩
      rw [kinds]
      simpa using List.find?_eq_none.mp found t member
    | some t =>
      right
      refine ⟨?_, _, rfl⟩
      rw [List.all_eq_false]
      refine ⟨t, List.mem_of_find?_eq_some found, ?_⟩
      rw [kinds, List.find?_some found]
      exact Bool.false_ne_true

/-- A call that registers something: in the name of an extension, or with the hooks themselves. -/
inductive RegistrationCall (α β : Type) where
  | named (extension : Text) (registration : Registration α β)
  | onEvent (event : Text) (hook : Hook α)
  | rule (name extension : Text) (period : Int) (kinds : Option (List Text)) (handler : β)

variable {α β : Type}

namespace RegistrationCall

def manifest? : RegistrationCall α β → Option Manifest
  | named _ (.metadata m) => some m
  | _ => none

/-- The hook that a call adds for an event. -/
def hook? (e : Event) : RegistrationCall α β → Option (Hook α)
  | named extension (.onEvent event priority handler) =>
    if event = e.name.toList then some ⟨priority, extension, handler⟩ else none
  | onEvent event hook => if event = e.name.toList then some hook else none
  | _ => none

def rule? : RegistrationCall α β → Option (Rule β)
  | named extension (.everySteps period name handler) =>
    some ⟨name, extension, period.toNat, none, handler⟩
  | named extension (.onInstruction kinds name handler) =>
    some ⟨name, extension, 1, some kinds, handler⟩
  | rule name extension period kinds handler =>
    some ⟨name, extension, period.toNat, kinds, handler⟩
  | _ => none

def prelude? : RegistrationCall α β → Option Prelude
  | named extension (.prelude text) => some ⟨extension, text⟩
  | _ => none

end RegistrationCall

namespace Services

def perform (s : Services α β) : RegistrationCall α β → Except ExtensionError (Services α β)
  | .named extension registration => s.register extension registration
  | .onEvent event hook => do
    return { s with hooks := ← s.hooks.onEvent event hook }
  | .rule name extension period kinds handler => do
    return { s with hooks := ← s.hooks.addPeriodic name extension period kinds handler }

/-- The services behind calls that are made in turn. Those that fail are passed over. -/
def after (s : Services α β) (calls : List (RegistrationCall α β)) : Services α β :=
  calls.foldl (fun s call => ((s.perform call).toOption).getD s) s

/-- The services with what a call gives behind all that is there. -/
def entered (s : Services α β) (call : RegistrationCall α β) : Services α β where
  metadata := s.metadata ++ call.manifest?.toList
  hooks :=
    { byEvent := fun e => (call.hook? e).elim (s.hooks.byEvent e) (insertHook · (s.hooks.byEvent e))
      rules := s.hooks.rules ++ call.rule?.toList }
  preludes := s.preludes ++ call.prelude?.toList

/-- What services hold when they have been given calls one after another. -/
structure Holds (s : Services α β) (calls : List (RegistrationCall α β)) : Prop where
  metadata : s.metadata = calls.filterMap (·.manifest?)
  preludes : s.preludes = calls.filterMap (·.prelude?)
  rules : s.hooks.rules = calls.filterMap (·.rule?)
  hooks (e : Event) : s.hooks.byEvent e = byPriority (calls.filterMap (·.hook? e))

private theorem filterMap_concat {γ δ : Type} (f : γ → Option δ) (xs : List γ) (x : γ) :
    (xs ++ [x]).filterMap f = xs.filterMap f ++ (f x).toList := by
  rw [List.filterMap_append, List.filterMap_cons]
  cases f x <;> rfl

/-- What a further call gives stands behind the rest, or its hook where one stable sort of all the
hooks has it. -/
theorem Holds.entered {s : Services α β} {calls : List (RegistrationCall α β)}
    (holds : s.Holds calls) (call : RegistrationCall α β) : (s.entered call).Holds (calls ++ [call]) where
  metadata := by
    rw [filterMap_concat, ← holds.metadata]
    rfl
  preludes := by
    rw [filterMap_concat, ← holds.preludes]
    rfl
  rules := by
    rw [filterMap_concat, ← holds.rules]
    rfl
  hooks e := by
    rw [filterMap_concat]
    dsimp only [Services.entered]
    rw [holds.hooks]
    cases call.hook? e with
    | none => simp
    | some hook => exact insertHook_byPriority hook _

example :
    (({} : Services Nat Nat).after
      [.onEvent "program_start".toList ⟨-1, ['a'], 1⟩, .onEvent "tick".toList ⟨0, ['b'], 2⟩,
        .onEvent "program_start".toList ⟨10, ['b'], 3⟩, .rule [] [] 0 none 4,
        .onEvent "program_start".toList ⟨-1, ['c'], 5⟩]).hooks.handlers .programStart =
      [3, 1, 5] := by decide

end Services
end TapeLang
