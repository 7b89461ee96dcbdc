import TapeLang.Definition.Dictionary
import TapeLang.Proofs.Definition.Declaration
import TapeLang.Proofs.Expansion

/-! What the expansion of a text keeps. The dictionary only grows, by definitions that can be
declared again, and every call that comes out names a function of it with arguments that can
be written back. -/
namespace TapeLang

namespace Dictionary

/-- Whether one dictionary holds the definitions of another one, in front. -/
def Extends (after before : Dictionary) : Prop := before.toList <+: after.toList

theorem Extends.refl (dictionary : Dictionary) : dictionary.Extends dictionary :=
  List.prefix_refl _

theorem Extends.trans {a b c : Dictionary} (second : c.Extends b) (first : b.Extends a) :
    c.Extends a :=
  List.IsPrefix.trans first second

theorem extends_declare {before after : Dictionary} {d : Definition}
    (declared : before.declare d = .ok after) : after.Extends before :=
  ⟨[d], (toList_declare declared).symm⟩

theorem find?_extends {before after : Dictionary} (extended : after.Extends before)
    {name : Text} {d : Definition} (found : before.find? name = some d) :
    after.find? name = some d := by
  obtain ⟨more, same⟩ := extended
  unfold find? at found ⊢
  rw [← same, List.find?_append, found]
  rfl

theorem name_of_find? {dictionary : Dictionary} {name : Text} {d : Definition}
    (found : dictionary.find? name = some d) : d.name = name := by
  simpa using List.find?_some found

theorem Extends.eq_of_length_le {a b : Dictionary} (extended : a.Extends b)
    (size : a.toList.length ≤ b.toList.length) : a = b := by
  cases a
  cases b
  congr
  exact (List.IsPrefix.eq_of_length_le extended size).symm

theorem Extends.antisymm {a b : Dictionary} (forth : a.Extends b) (back : b.Extends a) :
    a = b :=
  forth.eq_of_length_le back.length_le

/-- A dictionary whose definitions can be declared again. -/
def IsDeclarable (dictionary : Dictionary) : Prop := ∀ d ∈ dictionary.toList, d.IsDeclarable

theorem isDeclarable_empty : ({} : Dictionary).IsDeclarable := by
  intro d member
  cases member

theorem IsDeclarable.declare {before after : Dictionary} {d : Definition}
    (legal : before.IsDeclarable) (declarable : d.IsDeclarable)
    (declared : before.declare d = .ok after) : after.IsDeclarable := by
  intro e member
  rw [toList_declare declared, List.mem_append, List.mem_singleton] at member
  rcases member with earlier | rfl
  · exact legal e earlier
  · exact declarable

end Dictionary

/-- Arguments that a call word can carry. -/
structure IsCallArguments (args : List Text) : Prop extends IsArgumentList args where
  oneLine : ∀ a ∈ args, '\n' ∉ a

namespace Item

/-- Whether a call can be written as a call word. -/
def IsWritable : Item → Prop
  | .plain .. => True
  | .call d args _ => IsCallName d.name ∧ IsCallArguments args

/-- Whether a call is one of a function of a dictionary, with an argument for each parameter. -/
def Resolves (dictionary : Dictionary) : Item → Prop
  | .plain .. => True
  | .call d args _ => dictionary.find? d.name = some d ∧ d.kind = .functionForm ∧
      args.length = d.params.length

/-- Whether the function of a call has a name of word characters. -/
def IsWordCall : Item → Prop
  | .plain .. => True
  | .call d _ _ => ∀ c ∈ d.name, Text.isWord c = true

theorem Resolves.extends {before after : Dictionary} (extended : after.Extends before)
    {item : Item} (resolves : item.Resolves before) : item.Resolves after := by
  cases item with
  | plain => trivial
  | call d args location => exact ⟨Dictionary.find?_extends extended resolves.1, resolves.2⟩

end Item

/-- The parts of a call word. -/
theorem IsCallWord.split {word name : Text} {raw : Option Text} (legal : IsCallWord word)
    (split : splitCall? word = some (name, raw)) :
    IsCallName name ∧ IsCallArguments (argumentList (raw.getD [])) := by
  cases legal with
  | name legal =>
    rw [splitCall?_name legal] at split
    cases split
    exact ⟨legal, ⟨by simp [argumentList, Text.isBlankText], by simp [argumentList, Text.isBlankText]⟩,
      by simp [argumentList, Text.isBlankText]⟩
  | arguments legal balanced oneLine =>
    rw [splitCall?_arguments legal] at split
    cases split
    exact ⟨legal, argumentList_of_balanced balanced,
      fun a listed member => oneLine (mem_argumentList listed member)⟩

theorem isWord_of_splitCall? {word name : Text} {raw : Option Text}
    (split : splitCall? word = some (name, raw)) : ∀ c ∈ name, Text.isWord c = true := by
  have taken : name = word.takeWhile Text.isWord := by
    unfold splitCall? at split
    dsimp only at split
    split at split
    · cases split
    · split at split
      · cases split
        rfl
      · split at split <;> cases split
        rfl
      · cases split
  rw [taken]
  exact List.all_eq_true.mp List.all_takeWhile

namespace Expansion

variable {source : Source} {budget : Nat} {chain : List Text} {origin : Option Location}

theorem bodyTokens_sound {file : Text} {d : Definition} {args : List Text}
    {location : Location} {tokens : List Token}
    (made : bodyTokens file d args location = .ok tokens) : ∀ t ∈ tokens, t.Sound := by
  obtain ⟨text, -, lexed⟩ := bodyTokens_eq_ok_iff.mp made
  exact tokenize_sound lexed

theorem Expands.extends {tokens : List Token} {before after : Dictionary} {items : List Item}
    (expands : Expands source budget chain origin tokens before items after) :
    after.Extends before := by
  induction expands with
  | nil => exact .refl _
  | endOfText => exact .refl _
  | declaration _ _ declared _ ih => exact ih.trans (Dictionary.extends_declare declared)
  | symbol _ _ ih => exact ih
  | plainWord _ _ _ _ ih => exact ih
  | call _ _ _ _ _ _ ih => exact ih
  | body _ _ _ _ _ _ _ _ ihBody ihRest => exact ihRest.trans ihBody

/-- The calls that come out name functions of the dictionary that is left. -/
theorem Expands.resolves {tokens : List Token} {before after : Dictionary} {items : List Item}
    (expands : Expands source budget chain origin tokens before items after) :
    ∀ item ∈ items, item.Resolves after := by
  induction expands with
  | nil => simp
  | endOfText => simp
  | declaration _ _ _ _ ih => exact ih
  | symbol _ _ ih => exact List.forall_mem_cons.mpr ⟨trivial, ih⟩
  | plainWord _ _ _ _ ih => exact List.forall_mem_cons.mpr ⟨trivial, ih⟩
  | call _ _ found form arity rest ih =>
    have same := Dictionary.name_of_find? found
    subst same
    exact List.forall_mem_cons.mpr
      ⟨⟨Dictionary.find?_extends rest.extends found, form, arity⟩, ih⟩
  | body _ _ _ _ _ _ _ rest ihBody ihRest =>
    intro item member
    rcases List.mem_append.mp member with inBody | inRest
    · exact (ihBody item inBody).extends rest.extends
    · exact ihRest item inRest

/-- The functions that are called have names of word characters. -/
theorem Expands.isWordCall {tokens : List Token} {before after : Dictionary} {items : List Item}
    (expands : Expands source budget chain origin tokens before items after) :
    ∀ item ∈ items, item.IsWordCall := by
  induction expands with
  | nil => nofun
  | endOfText => nofun
  | declaration _ _ _ _ ih => exact ih
  | symbol _ _ ih => exact List.forall_mem_cons.mpr ⟨trivial, ih⟩
  | plainWord _ _ _ _ ih => exact List.forall_mem_cons.mpr ⟨trivial, ih⟩
  | call _ split found _ _ _ ih =>
    refine List.forall_mem_cons.mpr ⟨?_, ih⟩
    rw [Item.IsWordCall, Dictionary.name_of_find? found]
    exact isWord_of_splitCall? split
  | body _ _ _ _ _ _ _ _ ihBody ihRest => exact List.forall_mem_append.mpr ⟨ihBody, ihRest⟩

/-- The expansion of sound tokens declares what can be declared again, and the calls in it
can be written back. -/
theorem Expands.sound {tokens : List Token} {before after : Dictionary} {items : List Item}
    (expands : Expands source budget chain origin tokens before items after)
    (sound : ∀ t ∈ tokens, t.Sound) (legal : before.IsDeclarable) :
    after.IsDeclarable ∧ ∀ item ∈ items, item.IsWritable := by
  induction expands with
  | nil => exact ⟨legal, by simp⟩
  | endOfText => exact ⟨legal, by simp⟩
  | @declaration _ _ _ _ _ _ _ token rest kind d isDeclaration read declared _ ih =>
    have shape := sound token (by simp)
    simp only [Token.Sound, isDeclaration] at shape
    have declarable := readDeclaration_declarable shape.1 shape.2 read
    exact ih (fun t member => sound t (List.mem_cons_of_mem _ member))
      (legal.declare declarable declared)
  | symbol _ _ ih =>
    obtain ⟨declarable, items⟩ := ih (fun t member => sound t (List.mem_cons_of_mem _ member)) legal
    exact ⟨declarable, List.forall_mem_cons.mpr ⟨trivial, items⟩⟩
  | plainWord _ _ _ _ ih =>
    obtain ⟨declarable, items⟩ := ih (fun t member => sound t (List.mem_cons_of_mem _ member)) legal
    exact ⟨declarable, List.forall_mem_cons.mpr ⟨trivial, items⟩⟩
  | @call _ _ _ _ _ _ token _ _ _ d isWord split found form arity rest ih =>
    obtain ⟨declarable, items⟩ := ih (fun t member => sound t (List.mem_cons_of_mem _ member)) legal
    have shape := sound token (by simp)
    simp only [Token.Sound, isWord] at shape
    obtain ⟨name, args⟩ := shape.split split
    rw [← Dictionary.name_of_find? found] at name
    exact ⟨declarable, List.forall_mem_cons.mpr ⟨⟨name, args⟩, items⟩⟩
  | body _ _ _ _ _ made _ rest ihBody ihRest =>
    obtain ⟨between, inner⟩ := ihBody (bodyTokens_sound made) legal
    obtain ⟨declarable, items⟩ :=
      ihRest (fun t member => sound t (List.mem_cons_of_mem _ member)) between
    refine ⟨declarable, ?_⟩
    intro item member
    rcases List.mem_append.mp member with inBody | inRest
    · exact inner item inBody
    · exact items item inRest

end Expansion
end TapeLang
