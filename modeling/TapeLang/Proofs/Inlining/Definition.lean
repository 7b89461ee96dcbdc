import TapeLang.Proofs.Expansion.Lockstep
import TapeLang.Proofs.Inlining.Sigils

/-! Functions declared as macros. With a macro sigil in place of its function sigil a
declaration makes a macro that stands for the same texts. -/
namespace TapeLang

open Text (SigilFree asMacros)

namespace Substitution

variable {bindings : List Binding} {text : Text}

theorem isPrefixOf_of_standsAt {param : Text} (stands : standsAt param text = true) :
    param <+: text :=
  List.isPrefixOf_iff_prefix.mp (Bool.and_eq_true_iff.mp stands).1

/-- A parameter that holds a sigil stands nowhere in a text without sigils. -/
theorem prefer_asMacros (free : SigilFree text) (chosen : Option Binding) (b : Binding) :
    prefer text chosen (asMacros b.1, b.2) = prefer text chosen b := by
  by_cases sigil : '§' ∈ b.1
  · have notHere : ¬ standsAt b.1 text = true := fun stands =>
      free.not_mem (by decide) ((isPrefixOf_of_standsAt stands).subset sigil)
    have notThere : ¬ standsAt (asMacros b.1) text = true := fun stands =>
      free.not_mem (c := '$') (by decide) ((isPrefixOf_of_standsAt stands).subset
        (List.mem_map_of_mem sigil))
    simp only [prefer, if_neg notThere, if_neg notHere]
  · rw [Text.asMacros_of_not_mem sigil]

theorem match?_asMacros (free : SigilFree text) :
    match? (bindings.map (Prod.map asMacros id)) text = match? bindings text := by
  have same : (fun chosen b => prefer text chosen (Prod.map asMacros id b)) = prefer text := by
    funext chosen b
    exact prefer_asMacros free chosen b
  rw [match?, List.foldl_map, same, match?]

theorem substituteFrom_asMacros (free : SigilFree text) (skip : Nat) (before : Option Char) :
    substituteFrom (bindings.map (Prod.map asMacros id)) skip before text =
      substituteFrom bindings skip before text := by
  induction text generalizing skip before with
  | nil =>
    cases skip with
    | zero => rw [substituteFrom, substituteFrom, match?_asMacros free]
    | succ => rw [substituteFrom, substituteFrom]
  | cons c rest ih =>
    have later : SigilFree rest := free.subset (List.subset_cons_self _ _)
    cases skip with
    | zero =>
      rw [substituteFrom, substituteFrom, match?_asMacros free]
      simp only [ih later]
    | succ => rw [substituteFrom, substituteFrom, ih later]

end Substitution

/-- Parameters are replaced alike, whether sigils in them are replaced or not. -/
theorem substitute_asMacros {body : Text} (free : SigilFree body) (params args : List Text) :
    substitute ((params.map asMacros).zip args) body = substitute (params.zip args) body := by
  rw [List.zip_map_left]
  exact Substitution.substituteFrom_asMacros free 0 none

/-- Every character of a text with substitutions is one of the text or of an argument. -/
theorem Substitution.mem_substituteFrom {bindings : List Binding} {text : Text} {skip : Nat}
    {before : Option Char} {c : Char} (member : c ∈ substituteFrom bindings skip before text) :
    c ∈ text ∨ ∃ b ∈ bindings, c ∈ b.2 := by
  have chosen {before : Option Char} {text : Text} {b : Binding}
      (found : (if isBoundary before then match? bindings text else none) = some b) :
      b ∈ bindings := by
    split at found
    · exact (match?_eq_some found).1
    · cases found
  fun_induction substituteFrom bindings skip before text with
  | case1 before boundary =>
    right
    cases found : match? bindings [] with
    | none => simp [found] at member
    | some b => exact ⟨b, (match?_eq_some found).1, by simpa [found] using member⟩
  | case2 => cases member
  | case3 => cases member
  | case4 skip before d rest ih => exact (ih member).imp_left (List.mem_cons_of_mem _)
  | case5 before d rest found ih =>
    rcases List.mem_cons.mp member with rfl | later
    · exact .inl List.mem_cons_self
    · exact (ih later).imp_left (List.mem_cons_of_mem _)
  | case6 before d rest param argument found _ ih =>
    rcases List.mem_append.mp member with inArgument | behind
    · exact .inr ⟨_, chosen found, inArgument⟩
    · rcases List.mem_cons.mp behind with rfl | later
      · exact .inl List.mem_cons_self
      · exact (ih later).imp_left (List.mem_cons_of_mem _)
  | case7 before d rest param argument found _ ih =>
    rcases List.mem_append.mp member with inArgument | later
    · exact .inr ⟨_, chosen found, inArgument⟩
    · exact (ih later).imp_left (List.mem_cons_of_mem _)

theorem Definition.instantiate_eq_ok_iff {d : Definition} {args : List Text} {text : Text} :
    d.instantiate args = .ok text ↔
      args.length = d.params.length ∧ substitute (d.params.zip args) d.body = text := by
  unfold instantiate
  by_cases arity : args.length = d.params.length
  · rw [if_pos arity]
    exact ⟨fun made => ⟨arity, Except.ok.inj made⟩, fun made => congrArg _ made.2⟩
  · rw [if_neg arity]
    exact ⟨fun made => (by cases made), fun made => absurd made.1 arity⟩

/-- A body without sigils stays one when arguments without sigils replace its parameters. -/
theorem Definition.sigilFree_of_instantiate {d : Definition} {args : List Text} {text : Text}
    (free : SigilFree d.body) (freeArgs : ∀ a ∈ args, SigilFree a)
    (made : d.instantiate args = .ok text) : SigilFree text := by
  obtain ⟨-, rfl⟩ := instantiate_eq_ok_iff.mp made
  intro c member
  rcases Substitution.mem_substituteFrom member with inBody | ⟨b, bound, inArgument⟩
  · exact free c inBody
  · exact freeArgs b.2 (List.of_mem_zip bound).2 c inArgument

theorem sigilFree_of_argumentList {word name : Text} {raw : Option Text} (free : SigilFree word)
    (split : splitCall? word = some (name, raw)) :
    ∀ a ∈ argumentList (raw.getD []), SigilFree a := by
  intro a listed
  cases raw with
  | none => simp [argumentList, Text.isBlankText] at listed
  | some raw =>
    have inside : raw ⊆ word := by
      unfold splitCall? at split
      dsimp only at split
      split at split
      · cases split
      · split at split
        · cases split
        · rename_i rest found
          split at split
          · cases split
            intro c member
            apply List.dropWhile_subset Text.isWord
            rw [found]
            exact List.mem_cons_of_mem _ ((List.dropLast_sublist _).subset member)
          · cases split
        · cases split
    exact free.subset fun c member => inside (mem_argumentList listed member)

/-- A definition and what it is declared as with a macro sigil in place of a function sigil. -/
structure Definition.Defers (d e : Definition) : Prop where
  name : e.name = d.name
  kind : e.kind = d.kind.asMacro
  arity : e.params.length = d.params.length
  instantiate : ∀ args, e.instantiate args = d.instantiate args
  free : SigilFree d.body

/-- A macro or procedure without sigils is not affected. -/
theorem Definition.Defers.refl {d : Definition} (expanded : d.kind ≠ .functionForm)
    (free : SigilFree d.body) : d.Defers d :=
  ⟨rfl, (DefinitionKind.asMacro_of_ne expanded).symm, rfl, fun _ => rfl, free⟩

theorem splitHead?_asMacros (head : Text) :
    splitHead? (asMacros head) =
      (splitHead? head).map fun parts => (parts.1, parts.2.map asMacros) := by
  have opens (c : Char) : macroSigil c = '(' ↔ c = '(' :=
    macroSigil_eq_iff (by decide) (by decide)
  have closes (c : Char) : macroSigil c = ')' ↔ c = ')' :=
    macroSigil_eq_iff (by decide) (by decide)
  unfold splitHead?
  dsimp only
  rw [Text.stripStart_asMacros]
  generalize Text.stripStart head = start
  have named : asMacros (start.takeWhile Text.isWord) = start.takeWhile Text.isWord :=
    Text.asMacros_of_isWord (List.all_eq_true.mp List.all_takeWhile)
  rw [Text.takeWhile_asMacros (by decide +kernel), Text.dropWhile_asMacros (by decide +kernel),
    Text.stripStart_asMacros, named]
  generalize start.takeWhile Text.isWord = name
  generalize Text.stripStart (start.dropWhile Text.isWord) = rest
  by_cases unnamed : (!(name.head?.any Text.isNameStart)) = true
  · rw [if_pos unnamed, if_pos unnamed]
    rfl
  · rw [if_neg unnamed, if_neg unnamed]
    cases rest with
    | nil => rfl
    | cons c inside =>
      rw [show asMacros (c :: inside) = macroSigil c :: asMacros inside from rfl]
      by_cases list : c = '('
      · subst list
        have taken := Text.takeWhile_asMacros (p := fun c => c != '(' && c != ')')
          (by decide) inside
        have dropped := Text.dropWhile_asMacros (p := fun c => c != '(' && c != ')')
          (by decide) inside
        rw [show macroSigil '(' = '(' from rfl]
        simp only [taken, dropped]
        cases inside.dropWhile fun c => c != '(' && c != ')' with
        | nil => rfl
        | cons d after =>
          rw [show asMacros (d :: after) = macroSigil d :: asMacros after from rfl]
          by_cases closing : d = ')'
          · subst closing
            rw [show macroSigil ')' = ')' from rfl]
            simp only [Text.isBlankText_asMacros]
            by_cases blank : Text.isBlankText after
            · rw [if_pos blank, if_pos blank]
              rfl
            · rw [if_neg blank, if_neg blank]
              rfl
          · have other := mt (closes d).mp closing
            simp [closing, other]
      · have other := mt (opens c).mp list
        simp [list, other]

theorem splitParameters_asMacros (raw : Option Text) :
    splitParameters (raw.map asMacros) = (splitParameters raw).map asMacros := by
  cases raw with
  | none => rfl
  | some text =>
    cases text with
    | nil => rfl
    | cons c rest =>
      have stripped : Text.strip ∘ asMacros = asMacros ∘ Text.strip :=
        funext fun piece => Text.strip_asMacros piece
      rw [Option.map_some, show splitParameters (some (asMacros (c :: rest))) =
        (Text.pieces ';' (asMacros (c :: rest))).map Text.strip from rfl,
        Text.pieces_asMacros (by decide) (by decide), List.map_map, stripped, ← List.map_map]
      rfl

/-- A declaration that can be read with a macro sigil can be read with its function sigil, and
makes a definition that defers to the macro. -/
theorem exists_readDeclaration {kind : DefinitionKind} {value : Text} {place' : Location}
    {e : Definition} (read : readDeclaration kind.asMacro (asMacros value) place' = .ok e)
    (free : ∀ body ∈ (Text.cut '=' value).2, SigilFree body) (place : Location) :
    ∃ d, readDeclaration kind value place = .ok d ∧ d.Defers e := by
  unfold readDeclaration at read ⊢
  dsimp only at read ⊢
  rw [Text.cut_asMacros (by decide) (by decide)] at read
  cases parts : Text.cut '=' value with
  | mk head tail =>
    rw [parts] at read free
    cases tail with
    | none => cases read
    | some body =>
      have bodyFree : SigilFree (Text.strip body) :=
        (free body rfl).subset fun c member => Text.mem_of_mem_strip member
      dsimp only [Option.map_some] at read ⊢
      rw [splitHead?_asMacros] at read
      cases split : splitHead? head with
      | none => rw [split] at read; cases read
      | some named =>
        obtain ⟨name, raw⟩ := named
        rw [split] at read
        dsimp only [Option.map_some] at read ⊢
        rw [splitParameters_asMacros, (free body rfl).asMacros] at read
        have blank : ((splitParameters raw).map asMacros).any List.isEmpty =
            (splitParameters raw).any List.isEmpty := by
          have same : List.isEmpty ∘ asMacros = List.isEmpty :=
            funext fun param => List.isEmpty_map
          rw [List.any_map, same]
        rw [blank] at read
        by_cases unnamed : (splitParameters raw).any List.isEmpty = true
        · rw [if_pos unnamed] at read
          cases read
        · rw [if_neg unnamed] at read ⊢
          by_cases distinct : ((splitParameters raw).map asMacros).Nodup
          · rw [if_neg (by simpa using distinct)] at read
            have apart : (splitParameters raw).Nodup :=
              List.Pairwise.of_map asMacros (fun a b differ same => differ (congrArg asMacros same))
                distinct
            rw [if_neg (by simpa using apart)]
            cases read
            refine ⟨_, rfl, rfl, rfl, List.length_map _, fun args => ?_, bodyFree⟩
            unfold Definition.instantiate Definition.arityFault
            dsimp only
            rw [List.length_map, substitute_asMacros bodyFree]
          · rw [if_pos (by simpa using distinct)] at read
            cases read

end TapeLang
