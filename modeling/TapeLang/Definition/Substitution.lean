import TapeLang.Text.Basic

/-! Substitution of arguments for parameters. A parameter counts only as a whole word, all
are replaced in one pass from left to right, and an argument is never looked at again. -/
namespace TapeLang

/-- A parameter and the argument that replaces it. -/
abbrev Binding := Text × Text

namespace Substitution

/-- Whether a word may begin or end beside this neighbour. -/
def isBoundary : Option Char → Bool
  | none => true
  | some c => !Text.isWord c

/-- Whether the parameter stands at the head of the text with no word character behind it. -/
def standsAt (param text : Text) : Bool :=
  param.isPrefixOf text && isBoundary (text.drop param.length).head?

/-- Of the binding chosen so far and another one, the one that applies: it must stand at the
head of the text, and the longer parameter wins, of equal ones the later. -/
def prefer (text : Text) (chosen : Option Binding) (b : Binding) : Option Binding :=
  if standsAt b.1 text then
    match chosen with
    | none => some b
    | some a => if a.1.length ≤ b.1.length then some b else some a
  else chosen

/-- The binding that applies at the head of the text. -/
def match? (bindings : List Binding) (text : Text) : Option Binding :=
  bindings.foldl (prefer text) none

theorem prefer_eq_some {text : Text} {chosen : Option Binding} {a b : Binding}
    (preferred : prefer text chosen b = some a) :
    chosen = some a ∨ (a = b ∧ standsAt b.1 text = true) := by
  unfold prefer at preferred
  split at preferred
  · rename_i stands
    split at preferred
    · cases preferred
      exact .inr ⟨rfl, stands⟩
    · split at preferred <;> cases preferred
      · exact .inr ⟨rfl, stands⟩
      · exact .inl rfl
  · exact .inl preferred

theorem foldl_prefer_eq_some {text : Text} {bindings : List Binding}
    {chosen : Option Binding} {a : Binding}
    (preferred : bindings.foldl (prefer text) chosen = some a) :
    chosen = some a ∨ (a ∈ bindings ∧ standsAt a.1 text = true) := by
  induction bindings generalizing chosen with
  | nil => exact .inl preferred
  | cons b rest ih =>
    rcases ih preferred with earlier | ⟨member, stands⟩
    · rcases prefer_eq_some earlier with before | ⟨rfl, stands⟩
      · exact .inl before
      · exact .inr ⟨List.mem_cons_self .., stands⟩
    · exact .inr ⟨List.mem_cons_of_mem _ member, stands⟩

/-- What applies is a binding that stands at the head of the text. -/
theorem match?_eq_some {bindings : List Binding} {text : Text} {b : Binding}
    (found : match? bindings text = some b) : b ∈ bindings ∧ standsAt b.1 text = true :=
  (foldl_prefer_eq_some found).resolve_left nofun

/-- Substitution behind a character, after skipping what a match has used up. -/
def substituteFrom (bindings : List Binding) : Nat → Option Char → Text → Text
  | 0, before, [] =>
    if isBoundary before then ((match? bindings []).map (·.2)).getD [] else []
  | _ + 1, _, [] => []
  | skip + 1, _, c :: rest => substituteFrom bindings skip (some c) rest
  | 0, before, c :: rest =>
    match (if isBoundary before then match? bindings (c :: rest) else none) with
    | none => c :: substituteFrom bindings 0 (some c) rest
    | some (param, argument) =>
      if param.isEmpty then argument ++ c :: substituteFrom bindings 0 (some c) rest
      else argument ++ substituteFrom bindings (param.length - 1) (some c) rest

theorem substituteFrom_nil (before : Option Char) (text : Text) :
    substituteFrom [] 0 before text = text := by
  induction text generalizing before with
  | nil => simp [substituteFrom, match?]
  | cons c rest ih => simp [substituteFrom, match?, ih]

end Substitution

def substitute (bindings : List Binding) (body : Text) : Text :=
  Substitution.substituteFrom bindings 0 none body

/-- Without parameters a body stands for itself. -/
theorem substitute_nil (body : Text) : substitute [] body = body :=
  Substitution.substituteFrom_nil none body

end TapeLang
