import TapeLang.Proofs.Inlining.Expansion

/-! The calls that texts involve: those that their words make, and those that words in the bodies
of such calls make in their turn, with the arguments in place of the parameters. Where none of
them holds a sigil, no body declares anything. -/
namespace TapeLang

/-- A word that makes a call, if anything is defined under its name. -/
def Token.Names (t : Token) (c : Call) : Prop :=
  t.kind = .word ∧
    ∃ raw, splitCall? t.value = some (c.name, raw) ∧ c.args = argumentList (raw.getD [])

/-- A text in which a word makes a call. -/
def Text.Names (text : Text) (c : Call) : Prop :=
  ∃ file tokens, tokenize file text = .ok tokens ∧ ∃ t ∈ tokens, t.Names c

/-- The calls that texts involve by the definitions of a dictionary, be they of functions,
procedures or macros. -/
inductive Involved (dictionary : Dictionary) (texts : List Text) : Call → Prop where
  | named {text c} : text ∈ texts → text.Names c → Involved dictionary texts c
  | inBody {caller d text c} :
      Involved dictionary texts caller → dictionary.find? caller.name = some d →
      d.instantiate caller.args = .ok text → Text.Names text c → Involved dictionary texts c

/-- Whether neither the arguments of a call nor the body that it stands for holds a sigil. -/
structure Call.SigilFree (dictionary : Dictionary) (c : Call) : Prop where
  args : ∀ a ∈ c.args, Text.SigilFree a
  body : ∀ d, dictionary.find? c.name = some d → Text.SigilFree d.body

variable {dictionary before after : Dictionary} {texts : List Text} {c : Call} {d : Definition}
variable {file text : Text} {tokens : List Token} {p : Program}

/-- The body of a call without sigils has no declaration among its tokens. -/
theorem Call.SigilFree.plain (free : c.SigilFree dictionary)
    (found : dictionary.find? c.name = some d) (instantiated : d.instantiate c.args = .ok text)
    (lexed : tokenize file text = .ok tokens) : ∀ t ∈ tokens, t.IsPlain :=
  tokenize_plain (Definition.sigilFree_of_instantiate (free.body d found) free.args instantiated)
    lexed

/-- Where no definition has a sigil in its body and no word of the texts holds one, there is none
in any call that the texts involve. -/
theorem Involved.sigilFree (involved : Involved dictionary texts c)
    (bodies : ∀ name d, dictionary.find? name = some d → Text.SigilFree d.body)
    (words : ∀ text ∈ texts, ∀ file tokens, tokenize file text = .ok tokens →
      ∀ t ∈ tokens, t.kind = .word → Text.SigilFree t.value) : c.SigilFree dictionary := by
  refine ⟨?_, fun d => bodies c.name d⟩
  induction involved with
  | named member names =>
    obtain ⟨file, tokens, lexed, t, listed, isWord, raw, split, same⟩ := names
    rw [same]
    exact sigilFree_of_argumentList (words _ member file tokens lexed t listed isWord) split
  | inBody _ found instantiated names ih =>
    obtain ⟨file, tokens, lexed, t, listed, isWord, raw, split, same⟩ := names
    have free : Call.SigilFree dictionary _ := ⟨ih, fun d => bodies _ d⟩
    have plain := free.plain found instantiated lexed t listed
    rw [Token.IsPlain, isWord] at plain
    rw [same]
    exact sigilFree_of_argumentList plain split

namespace Expansion

variable {source : Source} {budget : Nat} {chain : List Text} {origin : Option Location}
variable {items : List Item}

/-- Plain tokens declare nothing, and call what their words involve. -/
theorem Expands.quiet (free : ∀ c, Involved dictionary texts c → c.SigilFree dictionary)
    (expands : Expands source budget chain origin tokens before items after)
    (extended : dictionary.Extends before) (plain : ∀ t ∈ tokens, t.IsPlain)
    (words : ∀ t ∈ tokens, ∀ c, t.Names c → Involved dictionary texts c) :
    after = before ∧ ∀ c ∈ items.filterMap Item.call?, Involved dictionary texts c := by
  induction expands with
  | nil => exact ⟨rfl, List.forall_mem_nil _⟩
  | endOfText => exact ⟨rfl, List.forall_mem_nil _⟩
  | declaration kind =>
    have first := (List.forall_mem_cons.mp plain).1
    rw [Token.IsPlain, kind] at first
    exact first.elim
  | symbol _ _ ih | plainWord _ _ _ _ ih =>
    exact ih extended (List.forall_mem_cons.mp plain).2 (List.forall_mem_cons.mp words).2
  | call kind split found _ _ _ ih =>
    obtain ⟨first, others⟩ := List.forall_mem_cons.mp words
    obtain ⟨same, calls⟩ := ih extended (List.forall_mem_cons.mp plain).2 others
    rw [← Dictionary.name_of_find? found] at split
    exact ⟨same, List.forall_mem_cons.mpr ⟨first _ ⟨kind, _, split, rfl⟩, calls⟩⟩
  | @body _ _ _ _ _ _ _ _ _ _ name raw d _ kind split found _ _ made _ _ ihInner ihRest =>
    obtain ⟨first, others⟩ := List.forall_mem_cons.mp words
    have known : dictionary.find? name = some d := Dictionary.find?_extends extended found
    have caller := first ⟨name, argumentList (raw.getD [])⟩ ⟨kind, raw, split, rfl⟩
    obtain ⟨text, instantiated, lexed⟩ := bodyTokens_eq_ok_iff.mp made
    obtain ⟨rfl, callsInner⟩ := ihInner extended ((free _ caller).plain known instantiated lexed)
      fun t member c names =>
        .inBody caller known instantiated ⟨_, _, lexed, t, member, names⟩
    obtain ⟨rfl, calls⟩ := ihRest extended (List.forall_mem_cons.mp plain).2 others
    rw [List.filterMap_append]
    exact ⟨rfl, List.forall_mem_append.mpr ⟨callsInner, calls⟩⟩

/-- What is expanded calls what its words involve. -/
theorem Expands.involved (free : ∀ c, Involved dictionary texts c → c.SigilFree dictionary)
    (expands : Expands source budget chain origin tokens before items after)
    (extended : dictionary.Extends after)
    (words : ∀ t ∈ tokens, ∀ c, t.Names c → Involved dictionary texts c) :
    ∀ c ∈ items.filterMap Item.call?, Involved dictionary texts c := by
  induction expands with
  | nil => exact List.forall_mem_nil _
  | endOfText => exact List.forall_mem_nil _
  | declaration _ _ _ _ ih | symbol _ _ ih | plainWord _ _ _ _ ih =>
    exact ih extended (List.forall_mem_cons.mp words).2
  | call kind split found _ _ _ ih =>
    obtain ⟨first, others⟩ := List.forall_mem_cons.mp words
    rw [← Dictionary.name_of_find? found] at split
    exact List.forall_mem_cons.mpr ⟨first _ ⟨kind, _, split, rfl⟩, ih extended others⟩
  | @body _ _ _ _ _ _ _ _ _ _ name raw d _ kind split found _ _ made inner rest _ ihRest =>
    obtain ⟨first, others⟩ := List.forall_mem_cons.mp words
    have behind := extended.trans (rest.extends.trans inner.extends)
    have known : dictionary.find? name = some d := Dictionary.find?_extends behind found
    have caller := first ⟨name, argumentList (raw.getD [])⟩ ⟨kind, raw, split, rfl⟩
    obtain ⟨text, instantiated, lexed⟩ := bodyTokens_eq_ok_iff.mp made
    obtain ⟨-, callsInner⟩ := inner.quiet free behind
      ((free _ caller).plain known instantiated lexed)
      fun t member c names =>
        .inBody caller known instantiated ⟨_, _, lexed, t, member, names⟩
    rw [List.filterMap_append]
    exact List.forall_mem_append.mpr ⟨callsInner, ihRest extended others⟩

end Expansion

/-- A program calls what the text that it is read from involves. -/
theorem Source.involved_of_parse {source : Source}
    (free : ∀ c, Involved dictionary texts c → c.SigilFree dictionary) (member : text ∈ texts)
    (lexed : tokenize file text = .ok tokens)
    (parsed : (source.parse tokens).run before = .ok p after)
    (extended : dictionary.Extends after) :
    ∀ c ∈ p.callees, Involved dictionary texts c := by
  obtain ⟨items, expands, spelled⟩ := exists_spelled parsed
  rw [Program.callees, ← Item.filterMap_call? spelled]
  exact expands.involved free extended fun t listed c names =>
    .named member ⟨file, tokens, lexed, t, listed, names⟩

/-- The body of an involved call declares nothing, and calls what is involved. -/
theorem Dictionary.involved_of_compile {limit : Int}
    (free : ∀ c, Involved dictionary texts c → c.SigilFree dictionary)
    (compiled : before.compile limit c = .ok p after) (extended : dictionary.Extends before)
    (involved : Involved dictionary texts c) :
    after = before ∧ ∀ callee ∈ p.callees, Involved dictionary texts callee := by
  obtain ⟨d, text, file, source, tokens, found, instantiated, lexed, parsed⟩ :=
    exists_parse_body compiled
  obtain ⟨items, expands, spelled⟩ := Source.exists_spelled parsed
  have known := find?_extends extended found
  rw [Program.callees, ← Item.filterMap_call? spelled]
  exact expands.quiet free extended ((free c involved).plain known instantiated lexed)
    fun t listed callee names =>
      .inBody involved known instantiated ⟨file, tokens, lexed, t, listed, names⟩

end TapeLang
