import Mathlib.Data.Set.Finite.Basic
import TapeLang.Proofs.Definition.Substitution
import TapeLang.Proofs.Program.Callees
import TapeLang.Proofs.Token.Lines

/-! A function that calls itself with one more sign in its argument. Chains of nested calls lead
from a program to ever longer arguments, so what it reaches has no end, and what was met before
does not bound the work on it. -/
namespace TapeLang

namespace Source

variable {tokens : List Token} {d : Definition}

/-- What stands behind a declaration is read with the definition in force. -/
theorem run_parse_declaration (source : Source) (token : Token) {kind : DefinitionKind}
    {before after : Dictionary} (form : token.kind = .declaration kind)
    (read : readDeclaration kind token.value (source.locate token) = .ok d)
    (declared : before.declare d = .ok after) (rest : List Token) :
    (source.parse (token :: rest)).run before = (source.parse rest).run after := by
  have first : (Expansion.readToken source LoopBinder.consume source.limit.toNat [] none token).run
      ⟨before, {}⟩ = .ok () ⟨after, {}⟩ := by
    simp only [Expansion.readToken, form]
    exact Expansion.run_declare_eq_ok_iff.mpr ⟨⟨d, read, declared⟩, rfl⟩
  rw [run_parse, run_parse, run_consumeAll, run_consumeAll, expand, expand,
    Expansion.expandWithin_cons (by simp [form]), run_bind_of_ok first]

/-- A text that is one call of a function is a program that makes the call. -/
theorem exists_parse_of_call (source : Source) {word name : Text} {raw : Option Text}
    {dictionary : Dictionary}
    (same : tokens.map Token.spelling = [(.word, word), (.endOfText, [])])
    (split : splitCall? word = some (name, raw)) (found : dictionary.find? name = some d)
    (form : d.kind = .functionForm)
    (arity : (argumentList (raw.getD [])).length = d.params.length) :
    ∃ q, (source.parse tokens).run dictionary = .ok q dictionary ∧
      q.callees = [d.callWith (argumentList (raw.getD []))] := by
  obtain ⟨first, rest, rfl, one, others⟩ := List.map_eq_cons_iff.mp same
  obtain ⟨last, none, rfl, ended, empty⟩ := List.map_eq_cons_iff.mp others
  obtain rfl := List.map_eq_nil_iff.mp empty
  obtain ⟨kind, rfl⟩ := Prod.mk.inj one
  have expands : Expansion.Expands source source.limit.toNat [] none [first, last] dictionary _ _ :=
    .call kind split found form arity (.endOfText (Prod.mk.inj ended).1)
  exact ⟨_, run_parse_eq_ok_iff.mpr ⟨_, _, expands, rfl, rfl, rfl⟩, rfl⟩

end Source

namespace Program

/-- The body calls the function with a sign behind the argument. -/
def growing : Text := "§f(x) = f(x+)\nf(+)".toList

def signs (n : Nat) : Text := List.replicate n '+'

/-- The call of the function with so many signs. -/
def growingCall (n : Nat) : Call := ⟨['f'], [signs n]⟩

def growingDefinition (place : Location) : Definition :=
  ⟨.functionForm, ['f'], [['x']], "f(x+)".toList, some place⟩

def growingDictionary (place : Location) : Dictionary :=
  ⟨[growingDefinition place], List.nodup_singleton _⟩

theorem isArgumentList_signs (n : Nat) : IsArgumentList [signs (n + 1)] := by
  refine ⟨?_, by simp [signs]⟩
  simp only [List.mem_singleton, forall_eq]
  constructor
  · have ink : Text.isBlank '+' = false := by decide
    simp [Text.strip, Text.stripStart, Text.stripEnd, signs, ink]
  · induction n with
    | zero => rfl
    | succ n ih => exact ih

theorem argumentList_signs (n : Nat) : argumentList (signs (n + 1)) = [signs (n + 1)] := by
  have read := argumentList_join (isArgumentList_signs n)
  rwa [Text.join, List.intercalate_singleton] at read

theorem instantiate_growing (place : Location) (n : Nat) :
    (growingDefinition place).instantiate [signs n] =
      .ok (['f'] ++ '(' :: signs (n + 1) ++ [')']) := by
  have words : ∀ p ∈ (growingDefinition place).params, Text.IsWordRun p := by
    simp only [growingDefinition, List.mem_singleton, forall_eq]
    decide +kernel
  rw [Definition.instantiate_of_words words (List.nodup_singleton _)
    (show [signs n].length = (growingDefinition place).params.length from rfl)]
  have runs : Text.runs ['f', '(', 'x', '+', ')'] = [['f'], ['('], ['x'], ['+', ')']] := by
    decide +kernel
  have more : signs (n + 1) = signs n ++ ['+'] := List.replicate_succ'
  simp [Text.replaceRuns, runs, growingDefinition, more]

theorem isCallName_growing : IsCallName ['f'] :=
  ⟨by decide +kernel, List.all_eq_true.mp (by decide +kernel)⟩

/-- The body of a call makes the next one. -/
theorem body_growing {dictionary : Dictionary} {place : Location}
    (found : dictionary.find? ['f'] = some (growingDefinition place)) (limit : Int) (n : Nat) :
    ∃ q, dictionary.body limit (growingCall n) = .ok q ∧ q.callees = [growingCall (n + 1)] := by
  have balanced : Text.Balanced (signs (n + 1)) :=
    Text.nesting_of_refusing ((isArgumentList_signs n).each _ List.mem_cons_self).whole
  have legal : IsCallWord (['f'] ++ '(' :: signs (n + 1) ++ [')']) :=
    .arguments isCallName_growing balanced (by simp [signs])
  obtain ⟨tokens, lexed, same⟩ := legal.readsAs.exists_tokenize "<f>".toList
  obtain ⟨q, parsed, calls⟩ := Source.exists_parse_of_call
    (.ofLines "<f>".toList [['f'] ++ '(' :: signs (n + 1) ++ [')']] limit) same
    (splitCall?_arguments isCallName_growing _) found rfl
    (by simp [argumentList_signs, growingDefinition])
  refine ⟨q, ?_, ?_⟩
  · have source : (growingDefinition place).bodySource [signs n] limit =
        .ok (.ofLines "<f>".toList [['f'] ++ '(' :: signs (n + 1) ++ [')']] limit, tokens) := by
      rw [Definition.bodySource, instantiate_growing]
      dsimp only [bind, Except.bind]
      rw [show '<' :: (growingDefinition place).name ++ ['>'] = "<f>".toList from rfl, lexed]
      rfl
    simp only [Dictionary.body, Dictionary.compile, growingCall, found, Definition.compile, source,
      parsed, outcome]
  · rw [calls, Option.getD_some, argumentList_signs]
    rfl

theorem readDeclaration_growing (place : Location) :
    readDeclaration .functionForm "f(x) = f(x+)".toList place = .ok (growingDefinition place) := by
  have cut : Text.cut '=' "f(x) = f(x+)".toList = ("f(x) ".toList, some " f(x+)".toList) := by
    decide +kernel
  have head : splitHead? "f(x) ".toList = some (['f'], some ['x']) := by decide +kernel
  have params : splitParameters (some ['x']) = [['x']] := by decide +kernel
  have body : Text.strip " f(x+)".toList = "f(x+)".toList := by decide +kernel
  unfold readDeclaration
  rw [cut]
  dsimp only
  rw [head]
  dsimp only
  rw [params, body]
  rfl

/-- The text is a program that calls the function with one sign, whatever the limit. -/
theorem exists_ofText_growing (limit : Int) : ∃ p place, ofText [] growing limit = .ok p ∧
    p.callees = [growingCall 1] ∧ p.definitions = growingDictionary place := by
  have lexed : tokenize [] growing = .ok
      [⟨.declaration .functionForm, "f(x) = f(x+)".toList, 1, 1⟩, ⟨.word, "f(+)".toList, 2, 1⟩,
        ⟨.endOfText, [], 2, 5⟩] := by decide +kernel
  have split : splitCall? "f(+)".toList = some (['f'], some ['+']) := by decide +kernel
  have argument : argumentList ((some ['+']).getD []) = [['+']] := argumentList_signs 0
  have declared (place : Location) :
      ({} : Dictionary).declare (growingDefinition place) = .ok (growingDictionary place) := rfl
  have found (place : Location) :
      (growingDictionary place).find? ['f'] = some (growingDefinition place) := rfl
  have spelled : ([⟨.word, "f(+)".toList, 2, 1⟩, ⟨.endOfText, [], 2, 5⟩] : List Token).map
      Token.spelling = [(.word, "f(+)".toList), (.endOfText, [])] := rfl
  have behind := Source.run_parse_declaration (.ofText [] growing limit)
    ⟨.declaration .functionForm, "f(x) = f(x+)".toList, 1, 1⟩ rfl (readDeclaration_growing _)
    (declared _) [⟨.word, "f(+)".toList, 2, 1⟩, ⟨.endOfText, [], 2, 5⟩]
  obtain ⟨q, parsed, calls⟩ := Source.exists_parse_of_call (.ofText [] growing limit) spelled
    split (found _) rfl (by rw [argument]; rfl)
  have read := behind.trans parsed
  have left := Source.definitions_eq read
  rw [argument] at calls
  exact ⟨q, _, ofText_eq_ok_iff.mpr ⟨_, lexed, left ▸ read⟩, calls, left⟩

/-- What the program reaches has no end. -/
theorem infinite_reaches_growing (limit : Int) : ∃ p, ofText [] growing limit = .ok p ∧
    {c | ∃ n, p.Reaches (fun c q => p.definitions.body limit c = .ok q) n c}.Infinite := by
  obtain ⟨p, place, read, calls, left⟩ := exists_ofText_growing limit
  have found : p.definitions.find? ['f'] = some (growingDefinition place) := by
    rw [left]
    rfl
  refine ⟨p, read, Set.infinite_of_injective_forall_mem (f := fun n => growingCall (n + 1)) ?_ ?_⟩
  · intro m n same
    simpa [growingCall, signs] using same
  · intro n
    refine ⟨n + 1, ?_⟩
    induction n with
    | zero => exact .outermost (by simp [calls])
    | succ n ih =>
      obtain ⟨q, body, next⟩ := body_growing found limit (n + 1)
      exact .inner ih body (by simp [next])

end Program
end TapeLang
