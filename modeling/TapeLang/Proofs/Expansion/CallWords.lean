import TapeLang.Proofs.Expansion.Refusals
import TapeLang.Proofs.Program.Callable

/-! Calls from the lexer to their arguments. The lexer, the reader of a call word and the splitter
of an argument list count parentheses each for itself, and they agree: what the lexer makes a word
of is a name with a list whose parentheses match, such a list falls into arguments that joining
brings back together, and no expansion meets a word, at whatever depth, that is anything else. -/
namespace TapeLang

namespace Text

/-- A text read from one depth of parentheses to another: no front part closes more of them than are
open, and what is refused stands inside of parentheses. -/
structure Nests (refused : Char → Bool) (depth : Nat) (t : Text) (after : Nat) : Prop where
  fronts : ∀ front, front <+: t → front.count ')' ≤ depth + front.count '('
  inside : ∀ front c rest, t = front ++ c :: rest → refused c = true →
    front.count ')' < depth + front.count '('
  level : t.count ')' + after = depth + t.count '('

variable {refused : Char → Bool} {depth after : Nat} {c : Char} {t rest : Text}

/-- A character in front changes the depth at which the text behind it is read. -/
theorem nests_cons_iff (inner : Nat)
    (shift : depth + (if c == '(' then 1 else 0) = inner + if c == ')' then 1 else 0) :
    Nests refused depth (c :: rest) after ↔
      (refused c = true → 0 < depth) ∧ Nests refused inner rest after := by
  constructor
  · rintro ⟨fronts, inside, level⟩
    refine ⟨fun outside => by simpa using inside [] c rest rfl outside, ?_, ?_, ?_⟩
    · intro front within
      have := fronts (c :: front) ((List.prefix_cons_inj c).mpr within)
      simp only [List.count_cons] at this
      omega
    · rintro front d behind rfl outside
      have := inside (c :: front) d behind rfl outside
      simp only [List.count_cons] at this
      omega
    · simp only [List.count_cons] at level
      omega
  · rintro ⟨first, fronts, inside, level⟩
    refine ⟨?_, ?_, ?_⟩
    · intro front within
      rcases List.prefix_cons_iff.mp within with rfl | ⟨shorter, rfl, inRest⟩
      · simp
      · have := fronts shorter inRest
        simp only [List.count_cons]
        omega
    · intro front d behind same outside
      cases front with
      | nil =>
        obtain ⟨rfl, rfl⟩ := List.cons.inj same
        simpa using first outside
      | cons e front =>
        obtain ⟨rfl, rfl⟩ := List.cons.inj same
        have := inside front d behind rfl outside
        simp only [List.count_cons]
        omega
    · simp only [List.count_cons]
      omega

/-- The depth that is counted character by character is the one that the counts of the front parts
give. -/
theorem nesting_eq_some_iff (opens : refused '(' = false) (closes : refused ')' = false) :
    nesting refused depth t = some after ↔ Nests refused depth t after := by
  induction t generalizing depth with
  | nil =>
    constructor
    · rintro ⟨⟩
      exact ⟨by simp, by simp, by simp⟩
    · rintro ⟨-, -, level⟩
      simpa [nesting, eq_comm] using level
  | cons c rest ih =>
    by_cases opening : c = '('
    · subst opening
      rw [nests_cons_iff (depth + 1) (by simp)]
      simp [nesting, ih, opens]
    by_cases closing : c = ')'
    · subst closing
      cases depth with
      | zero =>
        refine ⟨by simp [nesting], fun nests => ?_⟩
        have := nests.fronts [')'] (by simp)
        simp at this
      | succ outer =>
        rw [nests_cons_iff outer (by simp)]
        simp [nesting, ih, closes]
    rw [nests_cons_iff depth (by simp [opening, closing]), ← ih]
    simp only [nesting, opening, closing, if_false]
    cases depth <;> cases refused c <;> simp

/-- A text whose parentheses match: no front part closes more of them than it opens, and the whole
text closes them all. -/
structure IsMatched (t : Text) : Prop where
  fronts : ∀ front, front <+: t → front.count ')' ≤ front.count '('
  level : t.count ')' = t.count '('

theorem balanced_iff : Balanced t ↔ t.IsMatched := by
  rw [Balanced, nesting_eq_some_iff rfl rfl]
  constructor
  · rintro ⟨fronts, -, level⟩
    exact ⟨by simpa using fronts, by simpa using level⟩
  · rintro ⟨fronts, level⟩
    exact ⟨by simpa using fronts, nofun, by simpa using level⟩

end Text

/-- A text that can stand between semicolons: it is stripped, its parentheses match, and a semicolon
in it stands inside of them. -/
structure IsSeparate (a : Text) : Prop extends Text.IsMatched a where
  stripped : Text.strip a = a
  inside : ∀ front rest, a = front ++ ';' :: rest → front.count ')' < front.count '('

theorem isArgument_iff {a : Text} : IsArgument a ↔ IsSeparate a := by
  constructor
  · rintro ⟨stripped, whole⟩
    obtain ⟨fronts, inside, level⟩ := (Text.nesting_eq_some_iff rfl rfl).mp whole
    refine ⟨⟨by simpa using fronts, by simpa using level⟩, stripped, fun front rest same => ?_⟩
    simpa using inside front ';' rest same rfl
  · rintro ⟨⟨fronts, level⟩, stripped, inside⟩
    refine ⟨stripped, (Text.nesting_eq_some_iff rfl rfl).mpr ⟨by simpa using fronts, ?_, ?_⟩⟩
    · intro front c rest same divides
      obtain rfl : c = ';' := by simpa [isSeparator] using divides
      simpa using inside front rest same
    · simpa using level

/-- A word is split in the one way there is: word characters in front, and behind them nothing or
anything in parentheses. -/
theorem splitCall?_eq_some_iff {word name : Text} {raw : Option Text} :
    splitCall? word = some (name, raw) ↔
      name ≠ [] ∧ (∀ c ∈ name, Text.isWord c = true) ∧ word = callWord name raw := by
  constructor
  · intro split
    have letters := isWord_of_splitCall? split
    have whole := List.takeWhile_append_dropWhile (p := Text.isWord) (l := word)
    unfold splitCall? at split
    dsimp only at split
    split at split
    · cases split
    · rename_i some_char
      split at split
      · rename_i ends
        cases split
        rw [ends] at whole
        exact ⟨by simpa using some_char, letters, whole.symm⟩
      · rename_i rest opens
        split at split
        · rename_i closes
          cases split
          rw [opens, ← List.dropLast_append_getLast? _ closes] at whole
          exact ⟨by simpa using some_char, letters, whole.symm⟩
        · cases split
      · cases split
  · rintro ⟨some_char, letters, rfl⟩
    exact splitCall?_callWord some_char letters raw

/-- What a call word is split into: all the word characters in front are its name, the parentheses
of its list match, if it has one, and the arguments are what can be joined to a list again. -/
structure IsSplit (word : Text) (raw : Option Text) : Prop where
  split : splitCall? word = some (word.takeWhile Text.isWord, raw)
  matched : ∀ list ∈ raw, Text.IsMatched list
  separate : ∀ a ∈ argumentList (raw.getD []), IsSeparate a
  notBlank : argumentList (raw.getD []) ≠ [[]]

theorem IsCallWord.exists_isSplit {word : Text} (legal : IsCallWord word) :
    ∃ raw, IsSplit word raw := by
  cases legal with
  | name legal =>
    have taken : word.takeWhile Text.isWord = word := by
      simpa using @List.takeWhile_append_of_pos _ _ _ [] legal.word
    have list : IsArgumentList (argumentList []) := argumentList_of_balanced rfl
    refine ⟨none, ?_, by simp, fun a listed => isArgument_iff.mp (list.each a listed),
      list.notBlank⟩
    rw [taken, splitCall?_name legal]
  | @arguments name raw legal balanced =>
    have taken : (name ++ '(' :: raw ++ [')']).takeWhile Text.isWord = name := by
      rw [List.append_assoc, List.cons_append]
      exact legal.takeWhile_append _
    have list : IsArgumentList (argumentList raw) := argumentList_of_balanced balanced
    refine ⟨some raw, ?_, ?_, fun a listed => isArgument_iff.mp (list.each a listed),
      list.notBlank⟩
    · rw [taken, splitCall?_arguments legal]
    · rintro _ ⟨⟩
      exact Text.balanced_iff.mp balanced

theorem Token.Sound.exists_isSplit {t : Token} (sound : t.Sound) (kind : t.kind = .word) :
    ∃ raw, IsSplit t.value raw := by
  rw [Token.Sound, kind] at sound
  exact sound.exists_isSplit

namespace Expansion

variable {σ α : Type} {source : Source} {depth : Nat} {chain : List Text} {place : Location}
variable {dictionary : Dictionary} {token : Token} {name word : Text} {e : SourceError}

/-- A body that is opened has been lexed. -/
theorem sound_of_request {body : List Token}
    (asked : request source depth chain place dictionary token = .ok (.expand name body)) :
    ∀ t ∈ body, t.Sound := by
  unfold request at asked
  cases kind : token.kind with
  | endOfText => simp [kind] at asked
  | symbol => simp [kind] at asked
  | declaration form =>
    simp only [kind] at asked
    obtain ⟨_, -, ⟨⟩⟩ := map_eq_ok_iff.mp asked
  | word =>
    simp only [kind] at asked
    cases split : splitCall? token.value with
    | none => simp [split] at asked
    | some parts =>
      obtain ⟨called, raw⟩ := parts
      simp only [split] at asked
      cases found : dictionary.find? called with
      | none =>
        simp only [found] at asked
        cases raw <;> cases asked
      | some d =>
        simp only [found] at asked
        unfold requestCall at asked
        repeat' split at asked
        · cases asked
        · cases asked
        · cases asked
        · cases asked
        · obtain ⟨tokens, made, ⟨⟩⟩ := map_eq_ok_iff.mp asked
          exact bodyTokens_sound made

theorem requestCall_ne_invalid {d : Definition} {args : List Text}
    (failed : requestCall source depth chain d args place = .error e) :
    e.fault ≠ .invalidInstruction word := by
  unfold requestCall at failed
  repeat' split at failed
  · cases failed
  · cases failed
    nofun
  · cases failed
    nofun
  · cases failed
    nofun
  · rcases bodyTokens_fails (map_eq_error_iff.mp failed) with rfl | ⟨body, -, refused⟩
    · nofun
    · obtain ⟨line, column, rfl⟩ := tokenize_fails refused
      nofun

/-- Of all that a token can be refused for, it is no instruction only if it is a word that cannot be
split. -/
theorem request_invalid
    (failed : request source depth chain place dictionary token = .error e)
    (invalid : e.fault = .invalidInstruction word) :
    token.kind = .word ∧ splitCall? token.value = none := by
  unfold request at failed
  cases kind : token.kind with
  | endOfText => simp [kind] at failed
  | symbol => simp [kind] at failed
  | declaration form =>
    simp only [kind] at failed
    rcases bind_eq_error_iff.mp (map_eq_error_iff.mp failed) with refused | ⟨d, -, refused⟩
    · obtain ⟨fault, isFault, rfl⟩ := readDeclaration_fails refused
      cases isFault <;> cases invalid
    · obtain rfl := Dictionary.declare_fails refused
      cases invalid
  | word =>
    simp only [kind] at failed
    refine ⟨rfl, ?_⟩
    cases split : splitCall? token.value with
    | none => rfl
    | some parts =>
      obtain ⟨called, raw⟩ := parts
      simp only [split] at failed
      cases found : dictionary.find? called with
      | some d =>
        simp only [found] at failed
        exact absurd invalid (requestCall_ne_invalid failed)
      | none =>
        simp only [found] at failed
        cases raw with
        | none => cases failed
        | some raw =>
          cases failed
          cases invalid

namespace Reader

open Course StateTransition

variable {consume : σ → Item → Except SourceError σ} {finish : Progress σ → Except SourceError α}

/-- All that is left to be read, on every level, has been lexed. -/
def IsLexed (r : Reader σ) : Prop := ∀ level ∈ r.levels, ∀ t ∈ level.tokens, t.Sound

theorem isLexed_step {r r' : Reader σ} (lexed : r.IsLexed)
    (stepped : step source consume finish r = going r') : r'.IsLexed := by
  obtain ⟨levels, p⟩ := r
  match levels with
  | [] => cases stepped
  | ⟨chain, origin, []⟩ :: outer =>
    cases stepped
    exact (List.forall_mem_cons.mp lexed).2
  | ⟨chain, origin, token :: rest⟩ :: outer =>
    obtain ⟨here, others⟩ := List.forall_mem_cons.mp lexed
    have behind := (List.forall_mem_cons.mp here).2
    simp only [Reader.step] at stepped
    cases asked : request source outer.length chain (source.place origin token) p.dictionary
        token with
    | error e => simp [asked] at stepped
    | ok wish =>
      simp only [asked] at stepped
      cases wish with
      | leave =>
        cases stepped
        exact others
      | enter dictionary =>
        cases stepped
        exact List.forall_mem_cons.mpr ⟨behind, others⟩
      | feed item =>
        dsimp only at stepped
        cases taken : consume p.consumed item with
        | error e => simp [taken] at stepped
        | ok consumed =>
          simp only [taken] at stepped
          cases stepped
          exact List.forall_mem_cons.mpr ⟨behind, others⟩
      | expand name body =>
        cases stepped
        exact List.forall_mem_cons.mpr
          ⟨sound_of_request asked, List.forall_mem_cons.mpr ⟨behind, others⟩⟩

/-- Whatever a reading comes to, all that is left has been lexed. -/
theorem isLexed_of_reaches {tokens : List Token} (sound : ∀ t ∈ tokens, t.Sound) {s : σ}
    {r : Reader σ}
    (reaches : Reaches (next (step source consume finish)) (going (start tokens dictionary s))
      (going r)) : r.IsLexed := by
  refine reaches_keeps (fun _ _ lexed stepped => isLexed_step lexed stepped) ?_ reaches r rfl
  rintro _ ⟨⟩
  exact List.forall_mem_singleton.mpr sound

/-- Where a lexed text is said to hold no instruction, the consumer says so. -/
theorem IsLexed.invalid {r : Reader σ} {after : Dictionary} (lexed : r.IsLexed)
    (stepped : step source consume .ok r = .ended (.error e after))
    (invalid : e.fault = .invalidInstruction word) : ∃ s item, consume s item = .error e := by
  obtain ⟨levels, p⟩ := r
  match levels with
  | [] => cases stepped
  | ⟨chain, origin, []⟩ :: outer => cases stepped
  | ⟨chain, origin, token :: rest⟩ :: outer =>
    simp only [Reader.step] at stepped
    cases asked : request source outer.length chain (source.place origin token) p.dictionary
        token with
    | error e' =>
      simp only [asked, ended.injEq, EStateM.Result.error.injEq] at stepped
      obtain ⟨rfl, -⟩ := stepped
      obtain ⟨isWord, unsplit⟩ := request_invalid asked invalid
      have sound := lexed _ List.mem_cons_self token List.mem_cons_self
      obtain ⟨raw, split⟩ := sound.exists_isSplit isWord
      cases unsplit.symm.trans split.split
    | ok wish =>
      simp only [asked] at stepped
      cases wish with
      | leave | enter | expand => cases stepped
      | feed item =>
        dsimp only at stepped
        cases taken : consume p.consumed item with
        | ok consumed => simp [taken] at stepped
        | error e' =>
          simp only [taken, ended.injEq, EStateM.Result.error.injEq] at stepped
          obtain ⟨rfl, -⟩ := stepped
          exact ⟨_, item, taken⟩

end Reader
end Expansion

/-- An expansion of lexed tokens says of no word that it is no instruction: if that is said, the
consumer says it of an item. -/
theorem Source.invalid_of_expand {σ : Type} {source : Source}
    {consume : σ → Item → Except SourceError σ} {tokens : List Token} {p q : Progress σ}
    {e : SourceError} {word : Text} (sound : ∀ t ∈ tokens, t.Sound)
    (failed : (source.expand consume tokens).run p = .error e q)
    (invalid : e.fault = .invalidInstruction word) : ∃ s item, consume s item = .error e := by
  have ends := (Expansion.Reader.ends source consume .ok tokens p.dictionary p.consumed).ended
  rw [failed] at ends
  obtain ⟨last, reaches, stepped⟩ := Course.exists_last_step (Course.mem_eval_iff.mp ends)
  exact (Expansion.Reader.isLexed_of_reaches sound reaches).invalid stepped invalid

open Course Expansion StateTransition

/-- Arguments survive joining and splitting, and every word that the lexer makes holds a list of
them. So does every word that is left to be read wherever the expansion of lexed tokens comes to,
whatever the limit and the definitions; and where it ends in the complaint that something is no
instruction, this is said by the consumer of an item, never of a word that cannot be split. -/
theorem callWords_split :
    (∀ args : List Text, (∀ a ∈ args, IsSeparate a) → args ≠ [[]] →
      argumentList (Text.join [';'] args) = args) ∧
    ∀ {file text tokens}, tokenize file text = .ok tokens →
      (∀ t ∈ tokens, t.kind = .word → ∃ raw, IsSplit t.value raw) ∧
      ∀ {σ : Type} (source : Source) (consume : σ → Item → Except SourceError σ) (p : Progress σ),
        (∀ r, Reaches (next (Reader.step source consume .ok))
            (going (.start tokens p.dictionary p.consumed)) (going r) →
          ∀ level ∈ r.levels, ∀ t ∈ level.tokens, t.kind = .word →
            ∃ raw, IsSplit t.value raw) ∧
        ∀ {e q word}, (source.expand consume tokens).run p = .error e q →
          e.fault = .invalidInstruction word → ∃ s item, consume s item = .error e := by
  constructor
  · intro args separate notBlank
    exact argumentList_join ⟨fun a member => isArgument_iff.mpr (separate a member), notBlank⟩
  · intro file text tokens lexed
    have sound := tokenize_sound lexed
    refine ⟨fun t listed => (sound t listed).exists_isSplit, fun source consume p => ⟨?_, ?_⟩⟩
    · intro r reaches level standing t left
      exact (Reader.isLexed_of_reaches sound reaches level standing t left).exists_isSplit
    · intro e q word failed invalid
      exact source.invalid_of_expand sound failed invalid

/-- A macro whose body holds a sign that is no instruction. -/
def starred : Definition where
  kind := .macroForm
  name := ['k']
  params := [['x'], ['y']]
  body := "*x".toList

/-- A call in a list of arguments, one of which is empty: it is split where it is lexed, and again
in the body that is expanded. -/
theorem callWords_split_nested :
    argumentList "f(a;b);".toList = ["f(a;b)".toList, []] ∧
    (∃ raw, IsSplit "k(f(a;b);)".toList raw) ∧ (∃ raw, IsSplit "f(a;b)".toList raw) ∧
    ∃ s item, LoopBinder.consume s item =
      .error ⟨.invalidInstruction ['*'], some ⟨[], 1, 1, "k(f(a;b);)".toList⟩⟩ := by
  let source := Source.ofText [] "k(f(a;b);)".toList 64
  have separate : ∀ a ∈ ["f(a;b)".toList, []], IsSeparate a := by
    intro a member
    refine isArgument_iff.mp ?_
    simp only [List.mem_cons, List.not_mem_nil, or_false] at member
    rcases member with rfl | rfl <;> exact ⟨by decide, by decide⟩
  have lexed : tokenize [] "k(f(a;b);)".toList =
      .ok [⟨.word, "k(f(a;b);)".toList, 1, 1⟩, ⟨.endOfText, [], 1, 11⟩] := by
    decide +kernel
  obtain ⟨words, expansions⟩ := callWords_split.2 lexed
  obtain ⟨met, refused⟩ := expansions source LoopBinder.consume ⟨⟨[starred], by decide⟩, {}⟩
  refine ⟨callWords_split.1 _ separate (by decide),
    words ⟨.word, "k(f(a;b);)".toList, 1, 1⟩ (by simp) rfl, ?_, ?_⟩
  · have split : splitCall? "k(f(a;b);)".toList = some (['k'], some "f(a;b);".toList) := by
      decide +kernel
    have found : Dictionary.find? ⟨[starred], by decide⟩ ['k'] = some starred := by decide +kernel
    let body : List Token :=
      [⟨.symbol, ['*'], 1, 1⟩, ⟨.word, "f(a;b)".toList, 1, 2⟩, ⟨.endOfText, [], 1, 8⟩]
    have made (place : Location) :
        bodyTokens [] starred (argumentList "f(a;b);".toList) place = .ok body :=
      bodyTokens_eq_ok_iff.mpr ⟨"*f(a;b)".toList, by decide +kernel, by decide +kernel⟩
    have asked (place : Location) : request source 0 [] place ⟨[starred], by decide⟩
        ⟨.word, "k(f(a;b);)".toList, 1, 1⟩ = .ok (.expand ['k'] body) := by
      simp only [request, split, found]
      exact congrArg (Except.map _) (made place)
    have stepped : Reader.step source LoopBinder.consume .ok
        (.start [⟨.word, "k(f(a;b);)".toList, 1, 1⟩, ⟨.endOfText, [], 1, 11⟩]
          ⟨[starred], by decide⟩ {}) =
        going ⟨[⟨[['k']], some (source.place none ⟨.word, "k(f(a;b);)".toList, 1, 1⟩), body⟩,
          ⟨[], none, [⟨.endOfText, [], 1, 11⟩]⟩], ⟨⟨[starred], by decide⟩, {}⟩⟩ := by
      simp only [Reader.step, Reader.start, List.length_nil, asked]
    exact met _ (reaches_step stepped) _ List.mem_cons_self ⟨.word, "f(a;b)".toList, 1, 2⟩
      (by simp [body]) rfl
  · exact refused (failure?_eq_some_iff.mp (by decide +kernel)) rfl

end TapeLang
