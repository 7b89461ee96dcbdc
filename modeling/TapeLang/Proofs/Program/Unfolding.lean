import TapeLang.Proofs.Program.Yields

/-! Unfolding of one call. A call of a macro or procedure that stands alone on its line can be
replaced by the text that it stands for: what is expanded inside of the call is then read at the
top level, between the lines before it and the lines behind it. -/
namespace TapeLang

/-- The definitions in force behind a text, which may leave loops open. -/
def Program.definitionsBehind (file text : Text) (limit : Int) : Except SourceError Dictionary := do
  let tokens ← tokenize file text
  match ((Source.ofText file text limit).items tokens).run {} with
  | .error e _ => .error e
  | .ok _ dictionary => .ok dictionary

namespace Expansion

variable {budget : Nat} {spelled : List (TokenKind × Text)} {ops : List Operation}
variable {before after : Dictionary} {word name : Text} {raw : Option Text} {d : Definition}

/-- A call yields what its body yields. -/
theorem Yields.unfolded (yields : Yields budget [(.word, word)] before ops after)
    (split : splitCall? word = some (name, raw)) (found : before.find? name = some d)
    (form : d.kind ≠ .functionForm) : ∃ text spelled,
      d.instantiate (argumentList (raw.getD [])) = .ok text ∧ text.ReadsAs spelled ∧
        Yields budget spelled before ops after := by
  obtain ⟨items, left, expands, spells, alike⟩ := yields
  cases expands with
  | endOfText kind | declaration kind | symbol kind => cases kind
  | plainWord _ split' absent =>
    cases split.symm.trans split'
    cases found.symm.trans absent
  | call _ split' found' form' =>
    cases split.symm.trans split'
    cases found.symm.trans found'
    exact absurd form' form
  | body _ split' found' _ _ made inner rest =>
    cases split.symm.trans split'
    cases found.symm.trans found'
    cases rest
    rw [List.append_nil] at spells
    obtain ⟨text, instantiated, lexed⟩ := bodyTokens_eq_ok_iff.mp made
    obtain ⟨spelled, reads, same⟩ := Text.exists_readsAs lexed
    refine ⟨text, spelled, instantiated, reads, (yields_ended_iff reads.unended).mp ?_⟩
    obtain ⟨items, left', expands, spells, alike'⟩ :=
      inner.yields same spells (Nat.le_succ _) (.refl before)
    exact ⟨items, left', expands, spells, alike'.trans alike⟩

end Expansion

namespace Program

open Expansion

variable {file text line word name : Text} {limit : Int} {front rest : List Text}
variable {raw : Option Text} {p : Program}

theorem exists_definitionsBehind {spelled : List (TokenKind × Text)} {ops : List Operation}
    {after : Dictionary} (reads : text.ReadsAs spelled)
    (yields : Yields limit.toNat spelled {} ops after) (file : Text) :
    ∃ dictionary, definitionsBehind file text limit = .ok dictionary ∧ dictionary.Alike after := by
  obtain ⟨tokens, lexed, same⟩ := reads.exists_tokenize file
  obtain ⟨items, left, expands, -, alike⟩ :=
    ((yields_ended_iff reads.unended).mpr yields).exists_expands (Source.ofText file text limit)
      same
  refine ⟨left, ?_, alike⟩
  rw [definitionsBehind, lexed]
  dsimp only [bind, Except.bind]
  rw [Source.run_items expands]

/-- Where a call of a macro or procedure stands alone on its line, the line can be replaced by the
body with the arguments in place of the parameters: what was read as a program before is read as
the same instructions and the same definitions, places aside. -/
theorem ofText_unfolded (alone : line.ReadsAs [(.word, word)])
    (split : splitCall? word = some (name, raw))
    (read : ofText file (Text.join ['\n'] (front ++ line :: rest)) limit = .ok p) :
    ∃ dictionary, definitionsBehind file (Text.join ['\n'] front) limit = .ok dictionary ∧
      ∀ d, dictionary.find? name = some d → d.kind ≠ .functionForm →
        ∃ text q, d.instantiate (argumentList (raw.getD [])) = .ok text ∧
          ofText file (Text.join ['\n'] (front ++ text :: rest)) limit = .ok q ∧
          q.instructions.map Instruction.unplaced = p.instructions.map Instruction.unplaced ∧
          q.definitions.toList.map Definition.unplaced =
            p.definitions.toList.map Definition.unplaced := by
  obtain ⟨spelled, reads, yields⟩ := exists_yields_of_ofText read
  obtain ⟨parts, each, rfl⟩ := Text.readsAs_join_iff.mp reads
  obtain ⟨partsFront, others, rfl, eachFront, eachOther⟩ := exists_append_of_forall₂ each
  cases eachOther with
  | @cons _ part _ partsRest here eachRest =>
    obtain rfl := alone.unique here
    have readsFront : (Text.join ['\n'] front).ReadsAs partsFront.flatten :=
      Text.readsAs_join_iff.mpr ⟨partsFront, eachFront, rfl⟩
    rw [List.flatten_append, List.flatten_cons] at yields
    obtain ⟨first, between, later, yieldsFront, yieldsLater, same⟩ :=
      (yields_append_iff readsFront.unended).mp yields
    obtain ⟨second, after, third, yieldsHere, yieldsRest, rfl⟩ :=
      (yields_append_iff alone.unended).mp yieldsLater
    obtain ⟨dictionary, known, alike⟩ := exists_definitionsBehind readsFront yieldsFront file
    refine ⟨dictionary, known, ?_⟩
    intro d found form
    obtain ⟨e, found', alike'⟩ := alike.exists_find? found
    rw [← Definition.isLikeness_alike.kind alike'] at form
    obtain ⟨text, body, instantiated, readsBody, yieldsBody⟩ :=
      yieldsHere.unfolded split found' form
    rw [Definition.isLikeness_alike.instantiate alike'] at instantiated
    have reads' : (Text.join ['\n'] (front ++ text :: rest)).ReadsAs
        (partsFront ++ body :: partsRest).flatten :=
      Text.readsAs_join_iff.mpr
        ⟨_, List.rel_append eachFront (.cons readsBody eachRest), rfl⟩
    have yields' : Yields limit.toNat (partsFront ++ body :: partsRest).flatten {} p.operations
        p.definitions := by
      rw [List.flatten_append, List.flatten_cons, yields_append_iff readsFront.unended]
      refine ⟨first, between, second ++ third, yieldsFront, ?_, same⟩
      exact (yields_append_iff readsBody.unended).mpr
        ⟨second, after, third, yieldsBody, yieldsRest, rfl⟩
    obtain ⟨q, read', code, left⟩ := exists_ofText_of_yields read reads' yields' file
    exact ⟨text, q, instantiated, read', code, Dictionary.alike_iff.mp left⟩

/-- A procedure that opens a loop, declares a function and ends in a comment that comes from an
argument; the loop is closed on the line behind the call. -/
theorem ofText_unfolded_openingLoop :
    ∃ p q, ofText [] "@open(b;c) = [ §f(x) = x b c\n open(+;#) # twice\nf(-) ]".toList 1 = .ok p ∧
      ofText [] "@open(b;c) = [ §f(x) = x b c\n[ §f(x) = x + #\nf(-) ]".toList 1 = .ok q ∧
      p.size = 3 ∧
      q.instructions.map Instruction.unplaced = p.instructions.map Instruction.unplaced ∧
      q.definitions.toList.map Definition.unplaced =
        p.definitions.toList.map Definition.unplaced := by
  have size : (ofText [] "@open(b;c) = [ §f(x) = x b c\n open(+;#) # twice\nf(-) ]".toList
      1).toOption.map Program.size = some 3 := by decide +kernel
  have inForce : ((definitionsBehind [] "@open(b;c) = [ §f(x) = x b c".toList 1).toOption.bind
      fun dictionary => (dictionary.find? "open".toList).map fun d =>
        (d.kind, (d.instantiate ["+".toList, "#".toList]).toOption)) =
      some (.procedureForm, some "[ §f(x) = x + #".toList) := by decide +kernel
  have alone : Text.ReadsAs " open(+;#) # twice".toList [(.word, "open(+;#)".toList)] :=
    ⟨[⟨.word, "open(+;#)".toList, 1, 2⟩, ⟨.endOfText, [], 1, 19⟩], by decide +kernel, rfl⟩
  have joined : Text.join ['\n'] (["@open(b;c) = [ §f(x) = x b c".toList] ++
      " open(+;#) # twice".toList :: ["f(-) ]".toList]) =
        "@open(b;c) = [ §f(x) = x b c\n open(+;#) # twice\nf(-) ]".toList := by decide +kernel
  have joined' : Text.join ['\n'] (["@open(b;c) = [ §f(x) = x b c".toList] ++
      "[ §f(x) = x + #".toList :: ["f(-) ]".toList]) =
        "@open(b;c) = [ §f(x) = x b c\n[ §f(x) = x + #\nf(-) ]".toList := by decide +kernel
  have single : Text.join ['\n'] ["@open(b;c) = [ §f(x) = x b c".toList] =
      "@open(b;c) = [ §f(x) = x b c".toList := by decide +kernel
  have split : splitCall? "open(+;#)".toList = some ("open".toList, some "+;#".toList) := by
    decide +kernel
  cases read : ofText [] "@open(b;c) = [ §f(x) = x b c\n open(+;#) # twice\nf(-) ]".toList 1 with
  | error e =>
    rw [read] at size
    cases size
  | ok p =>
    rw [read] at size
    rw [← joined] at read
    obtain ⟨dictionary, known, unfolds⟩ := ofText_unfolded alone split read
    rw [single] at known
    rw [known] at inForce
    obtain ⟨d, found, facts⟩ := Option.map_eq_some_iff.mp inForce
    obtain ⟨kind, body⟩ := Prod.mk.inj facts
    obtain ⟨text, q, instantiated, read', code, definitions⟩ :=
      unfolds d found (by rw [kind]; exact DefinitionKind.noConfusion)
    have arguments : argumentList ((some "+;#".toList).getD []) = ["+".toList, "#".toList] := by
      decide +kernel
    rw [arguments] at instantiated
    rw [instantiated] at body
    obtain rfl := Option.some.inj body
    rw [joined'] at read'
    exact ⟨p, q, rfl, read', Option.some.inj size, code, definitions⟩

end Program
end TapeLang
