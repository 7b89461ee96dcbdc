import TapeLang.Proofs.Definition.Substitution
import TapeLang.Proofs.Expansion.Unmet
import TapeLang.Proofs.Token.Lines

/-! A name that stands nowhere in a text and in the bodies of the macros and procedures is not met
where their parameters are words: words of a text stand inside of it, and substitution forms no new
ones. -/
namespace TapeLang

namespace Lexer

variable {file text : Text} {c : Char} {mode after : Mode} {completed : List Token}

/-- What is collected of a word. -/
def Mode.begunWord : Mode → Text
  | .word _ collected | .arguments _ collected _ => collected.reverse
  | .start | .comment | .declaration .. => []

/-- Behind a text that was read, the word that is begun stands at its end, and every word that was
made stands inside of it. -/
structure State.WordsFrom (text : Text) (s : State) : Prop where
  begun : s.mode.begunWord <:+ text
  made : ∀ t ∈ s.tokens, t.kind = .word → t.value <:+: text

theorem begin_wordsFrom (p : Position) (c : Char) :
    (begin p c).2.begunWord <:+ [c] ∧ ∀ t ∈ (begin p c).1, t.kind ≠ .word := by
  unfold begin
  repeat' split
  all_goals simp [Mode.begunWord, token]

/-- One character extends the begun word or ends it. -/
theorem Mode.read_wordsFrom {p : Position} (begun : mode.begunWord <:+ text)
    (read : mode.read file p c = .ok (completed, after)) :
    after.begunWord <:+ text ++ [c] ∧
      ∀ t ∈ completed, t.kind = .word → t.value <:+: text ++ [c] := by
  have longer {collected : Text} (begun : collected.reverse <:+ text) :
      (c :: collected).reverse <:+ text ++ [c] := by
    obtain ⟨front, rfl⟩ := begun
    exact ⟨front, by simp⟩
  have fresh := begin_wordsFrom p c
  cases mode with
  | start =>
    obtain ⟨rfl, rfl⟩ := Prod.mk.inj (Except.ok.inj read)
    exact ⟨fresh.1.trans (List.suffix_append text [c]),
      fun t member isWord => absurd isWord (fresh.2 t member)⟩
  | comment =>
    cases read
    exact ⟨by split <;> exact List.nil_suffix, List.forall_mem_nil _⟩
  | declaration kind origin collected =>
    have same := Except.ok.inj read
    split at same <;> cases same
    · exact ⟨List.nil_suffix, List.forall_mem_singleton.mpr TokenKind.noConfusion⟩
    · exact ⟨List.nil_suffix, List.forall_mem_nil _⟩
  | word origin collected =>
    have same := Except.ok.inj read
    repeat' split at same
    all_goals cases same
    · exact ⟨longer begun, List.forall_mem_nil _⟩
    · exact ⟨longer begun, List.forall_mem_nil _⟩
    · refine ⟨fresh.1.trans (List.suffix_append text [c]), List.forall_mem_append.mpr ⟨?_, ?_⟩⟩
      · exact fun t member isWord => absurd isWord (fresh.2 t member)
      · exact List.forall_mem_singleton.mpr fun _ =>
          begun.isInfix.trans (List.prefix_append text [c]).isInfix
  | arguments origin collected depth =>
    rw [Mode.read] at read
    repeat' split at read
    all_goals cases read
    · exact ⟨longer begun, List.forall_mem_nil _⟩
    · exact ⟨List.nil_suffix, List.forall_mem_singleton.mpr fun _ => (longer begun).isInfix⟩
    · exact ⟨longer begun, List.forall_mem_nil _⟩
    · exact ⟨longer begun, List.forall_mem_nil _⟩

theorem State.WordsFrom.foldlM {s next : State} {front : Text} (words : s.WordsFrom front)
    (read : text.foldlM (State.read file) s = .ok next) : next.WordsFrom (front ++ text) := by
  induction text generalizing s front with
  | nil =>
    cases read
    rwa [List.append_nil]
  | cons c rest ih =>
    obtain ⟨between, one, others⟩ := foldlM_cons_eq_ok_iff.mp read
    unfold State.read at one
    cases here : s.mode.read file s.position c with
    | error e => rw [here] at one; cases one
    | ok result =>
      rw [here] at one
      cases one
      have step := Mode.read_wordsFrom words.begun here
      rw [← List.singleton_append, ← List.append_assoc]
      refine ih ⟨step.1, List.forall_mem_append.mpr ⟨step.2, ?_⟩⟩ others
      exact fun t member isWord =>
        (words.made t member isWord).trans (List.prefix_append front [c]).isInfix

end Lexer

open Lexer in
/-- The words of a text stand inside of it. -/
theorem isInfix_of_tokenize {file text : Text} {tokens : List Token}
    (lexed : tokenize file text = .ok tokens) :
    ∀ t ∈ tokens, t.kind = .word → t.value <:+: text := by
  obtain ⟨s, read, finished⟩ := tokenize_eq_ok_iff.mp lexed
  obtain ⟨completed, ended, rfl⟩ := State.finish_eq_ok_iff.mp finished
  have start : State.WordsFrom [] {} := ⟨List.nil_suffix, List.forall_mem_nil _⟩
  have words := start.foldlM read
  have last : ∀ t ∈ completed, t.kind = .word → t.value <:+: text := by
    obtain ⟨mode, p, tokens⟩ := s
    cases mode with
    | start | comment =>
      cases ended
      exact List.forall_mem_nil _
    | declaration kind origin collected =>
      cases ended
      exact List.forall_mem_singleton.mpr TokenKind.noConfusion
    | word origin collected =>
      cases ended
      exact List.forall_mem_singleton.mpr fun _ => words.begun.isInfix
    | arguments => cases ended
  intro t member isWord
  rcases List.mem_append.mp member with inText | ended
  · rcases List.mem_append.mp (List.mem_reverse.mp inText) with atEnd | before
    · exact last t atEnd isWord
    · exact words.made t before isWord
  · obtain rfl := List.mem_singleton.mp ended
    cases isWord

namespace Text

theorem isInfix_strip (t : Text) : strip t <:+: t := by
  obtain ⟨before, after, -, -, same⟩ := exists_strip_eq t
  exact ⟨before, after, same.symm⟩

theorem isInfix_join {part separator : Text} {parts : List Text} (listed : part ∈ parts) :
    part <:+: join separator parts := by
  induction parts with
  | nil => cases listed
  | cons first rest ih =>
    cases rest with
    | nil =>
      obtain rfl := List.mem_singleton.mp listed
      exact ⟨[], [], by simp [join]⟩
    | cons next others =>
      simp only [join, List.intercalate_cons_cons] at ih ⊢
      rcases List.mem_cons.mp listed with rfl | later
      · exact ⟨[], separator ++ List.intercalate separator (next :: others), by simp⟩
      · exact (ih later).trans (List.suffix_append _ _).isInfix

end Text

theorem isInfix_of_mem_argumentList {raw a : Text} (listed : a ∈ argumentList raw) :
    a <:+: raw := by
  unfold argumentList at listed
  split at listed
  · cases listed
  · obtain ⟨piece, found, rfl⟩ := List.mem_map.mp listed
    have inside : piece <:+: Text.join [';'] (argumentPieces 0 raw) := Text.isInfix_join found
    rw [join_argumentPieces] at inside
    exact (Text.isInfix_strip piece).trans inside

/-- The name and the arguments of a call stand inside of the text that makes it. -/
theorem Text.Names.isInfix {text : Text} {c : Call} (names : text.Names c) :
    c.name <:+: text ∧ ∀ a ∈ c.args, a <:+: text := by
  obtain ⟨file, tokens, lexed, t, member, isWord, raw, split, same⟩ := names
  have inside := isInfix_of_tokenize lexed t member isWord
  have sound := tokenize_sound lexed t member
  rw [Token.Sound, isWord] at sound
  rw [same]
  generalize t.value = word at inside sound split
  cases sound with
  | name legal =>
    rw [splitCall?_name legal] at split
    cases split
    exact ⟨inside, List.forall_mem_nil _⟩
  | @arguments name raw legal =>
    rw [splitCall?_arguments legal] at split
    cases split
    refine ⟨List.IsInfix.trans ⟨[], '(' :: raw ++ [')'], by simp⟩ inside, fun a listed => ?_⟩
    have inRaw := isInfix_of_mem_argumentList listed
    exact (inRaw.trans ⟨c.name ++ ['('], [')'], by simp⟩).trans inside

/-- A dictionary whose macros and procedures have words for parameters and lack a name in their
bodies. -/
structure Dictionary.Lacks (dictionary : Dictionary) (name : Text) : Prop where
  words : ∀ d ∈ dictionary.toList, d.kind ≠ .functionForm → ∀ p ∈ d.params, Text.IsWordRun p
  distinct : ∀ d ∈ dictionary.toList, d.kind ≠ .functionForm → d.params.Nodup
  bodies : ∀ d ∈ dictionary.toList, d.kind ≠ .functionForm → ¬ name <:+: d.body

/-- A name that a text and the bodies lack is not met. -/
theorem Dictionary.Lacks.not_meets {dictionary : Dictionary} {name text : Text}
    (lacks : dictionary.Lacks name) (isWordRun : Text.IsWordRun name) (absent : ¬ name <:+: text) :
    ¬ text.Meets dictionary name := by
  intro meets
  induction meets with
  | named names => exact absent names.isInfix.1
  | @inBody text caller d body name names found form instantiated _ ih =>
    have listed := List.mem_of_find?_eq_some found
    refine ih lacks isWordRun fun inside => ?_
    by_cases arity : caller.args.length = d.params.length
    · rw [Definition.instantiate_of_words (lacks.words d listed form) (lacks.distinct d listed form)
        arity] at instantiated
      cases instantiated
      have params : ∀ b ∈ d.params.zip caller.args, Text.IsWordRun b.1 := fun b member =>
        lacks.words d listed form b.1 (List.of_mem_zip member).1
      rcases Text.infix_of_infix_replaceRuns params isWordRun inside with
        inBody | ⟨b, member, inArg⟩
      · exact lacks.bodies d listed form inBody
      · exact absent (inArg.trans (names.isInfix.2 b.2 (List.of_mem_zip member).2))
    · rw [Definition.instantiate, if_neg arity] at instantiated
      cases instantiated

end TapeLang
