import TapeLang.Call
import TapeLang.Program
import TapeLang.Proofs.DepthFirst
import TapeLang.Proofs.Expansion.Sound
import TapeLang.Proofs.Program.LoopBinder

/-! The calls of a program, the programs behind them, and what chains of nested calls reach. -/
namespace TapeLang

/-- The call that an operation makes, if it is one. -/
def Operation.call? : Operation → Option Call
  | command _ => none
  | call target args => some ⟨target, args⟩

def Definition.callWith (d : Definition) (args : List Text) : Call := ⟨d.name, args⟩

namespace Program

/-- The calls of a program, in order. -/
def callees (p : Program) : List Call :=
  (p.instructions.toList.map (·.op)).filterMap Operation.call?

/-- The number of loops, each of which has one opening bracket. -/
def loops (p : Program) : Nat :=
  (p.instructions.toList.map (·.op)).count (.command .jump)

theorem callees_eq_nil {p : Program} (flat : p.calls = []) : p.callees = [] := by
  rw [callees, List.filterMap_eq_nil_iff]
  intro op member
  cases op with
  | command => rfl
  | call target args => exact absurd rfl (List.filter_eq_nil_iff.mp flat _ member)

end Program

/-- `p.Reaches runs n c`: a chain of `n` nested calls leads from the program to the call, where
`runs` tells which programs calls run. -/
inductive Program.Reaches (runs : Call → Program → Prop) (p : Program) : Nat → Call → Prop where
  | outermost {c} : c ∈ p.callees → Reaches runs p 1 c
  | inner {n c q d} :
      Reaches runs p n c → runs c q → d ∈ q.callees → Reaches runs p (n + 1) d

namespace Program.Reaches

variable {runs others : Call → Program → Prop} {p : Program} {n bound : Nat} {c : Call}

theorem pos (reaches : p.Reaches runs n c) : 0 < n := by
  cases reaches <;> omega

theorem mono (subset : ∀ c q, runs c q → others c q) (reaches : p.Reaches runs n c) :
    p.Reaches others n c := by
  induction reaches with
  | outermost called => exact .outermost called
  | inner _ ran called ih => exact .inner ih (subset _ _ ran) called

/-- Where the chains of one length reach nothing that shorter ones do not, no longer chain
does. -/
theorem exists_shorter (positive : 0 < bound)
    (flat : ∀ c, p.Reaches runs bound c → ∃ k < bound, p.Reaches runs k c)
    (reaches : p.Reaches runs n c) : ∃ k < bound, p.Reaches runs k c := by
  have step {k : Nat} {d : Call} (next : p.Reaches runs (k + 1) d) (earlier : k < bound) :
      ∃ k < bound, p.Reaches runs k d := by
    by_cases last : k + 1 = bound
    · exact flat d (last ▸ next)
    · exact ⟨k + 1, by omega, next⟩
  induction reaches with
  | outermost called => exact step (.outermost called) positive
  | inner _ ran called ih =>
    obtain ⟨k, earlier, shorter⟩ := ih
    exact step (.inner shorter ran called) earlier

end Program.Reaches

namespace Dictionary

/-- How compiling a call on a dictionary ends. -/
def compile (dictionary : Dictionary) (limit : Int) (c : Call) :
    EStateM.Result SourceError Dictionary Program :=
  match dictionary.find? c.name with
  | none => .error ⟨.undefinedCall c.name, none⟩ dictionary
  | some d => (d.compile c.args limit).run dictionary

/-- The program that a call runs. -/
def body (dictionary : Dictionary) (limit : Int) (c : Call) : Except SourceError Program :=
  outcome (dictionary.compile limit c)

/-- The calls that a call makes in its turn. -/
def callees (dictionary : Dictionary) (limit : Int) (c : Call) : List Call :=
  match dictionary.body limit c with
  | .error _ => []
  | .ok p => p.callees

theorem compile_callWith {dictionary : Dictionary} {limit : Int} {d : Definition}
    (found : dictionary.find? d.name = some d) (args : List Text) :
    dictionary.compile limit (d.callWith args) = (d.compile args limit).run dictionary := by
  rw [compile, Definition.callWith, found]

end Dictionary

/-- The calls that chains of at most `limit` nested calls reach, each once. -/
def Program.within (p : Program) (limit : Int) : List Call :=
  ((List.range limit.toNat).flatMap
    (DepthFirst.layer (p.definitions.callees limit) p.callees)).dedup

theorem Program.mem_within {p : Program} {limit : Int} {c : Call} :
    c ∈ p.within limit ↔ ∃ n < limit.toNat,
      c ∈ DepthFirst.layer (p.definitions.callees limit) p.callees n := by
  simp [within]

/-- Every call names a function of a dictionary, with an argument for each parameter. -/
def Program.Resolves (p : Program) (dictionary : Dictionary) : Prop :=
  ∀ target args, .call target args ∈ p.instructions.toList.map (·.op) →
    ∃ d, dictionary.find? target = some d ∧ d.kind = .functionForm ∧
      args.length = d.params.length

theorem Source.resolves {source : Source} {tokens : List Token} {before after : Dictionary}
    {p : Program} (parsed : (source.parse tokens).run before = .ok p after) :
    p.Resolves after := by
  intro target args member
  obtain ⟨items, expands, spelled⟩ := exists_spelled parsed
  obtain ⟨d, place, rfl, listed⟩ := LoopBinder.exists_call_item spelled member
  exact ⟨d, expands.resolves _ listed⟩

/-- Every call of a parsed program is one by a name of word characters. -/
theorem Source.isWord_of_callees {source : Source} {tokens : List Token}
    {before after : Dictionary} {p : Program}
    (parsed : (source.parse tokens).run before = .ok p after) :
    ∀ c ∈ p.callees, ∀ ch ∈ c.name, Text.isWord ch = true := by
  intro c member
  obtain ⟨op, listed, called⟩ := List.mem_filterMap.mp member
  obtain ⟨items, expands, spelled⟩ := exists_spelled parsed
  cases op with
  | command => cases called
  | call target args =>
    cases called
    obtain ⟨d, place, rfl, item⟩ := LoopBinder.exists_call_item spelled listed
    exact expands.isWordCall _ item

/-- The program of a call is that of the tokens of its body. -/
theorem Dictionary.exists_parse_body {dictionary left : Dictionary} {limit : Int} {c : Call}
    {p : Program} (compiled : dictionary.compile limit c = .ok p left) :
    ∃ (d : Definition) (text file : Text) (source : Source) (tokens : List Token),
      dictionary.find? c.name = some d ∧ d.instantiate c.args = .ok text ∧
      tokenize file text = .ok tokens ∧ (source.parse tokens).run dictionary = .ok p left := by
  unfold compile at compiled
  cases found : dictionary.find? c.name with
  | none => rw [found] at compiled; cases compiled
  | some d =>
    rw [found] at compiled
    dsimp only at compiled
    unfold Definition.compile Definition.bodySource at compiled
    cases instantiated : d.instantiate c.args with
    | error e => rw [instantiated] at compiled; cases compiled
    | ok text =>
      rw [instantiated] at compiled
      dsimp only [bind, Except.bind] at compiled
      cases lexed : tokenize ('<' :: d.name ++ ['>']) text with
      | error e => rw [lexed] at compiled; cases compiled
      | ok tokens =>
        rw [lexed] at compiled
        exact ⟨d, text, _, _, tokens, rfl, instantiated, lexed, compiled⟩

theorem Dictionary.exists_parse {dictionary left : Dictionary} {limit : Int} {c : Call}
    {p : Program} (compiled : dictionary.compile limit c = .ok p left) :
    ∃ (source : Source) (tokens : List Token),
      (source.parse tokens).run dictionary = .ok p left := by
  obtain ⟨_, _, _, source, tokens, -, -, -, parsed⟩ := exists_parse_body compiled
  exact ⟨source, tokens, parsed⟩

end TapeLang
