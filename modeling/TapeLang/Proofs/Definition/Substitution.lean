import Mathlib.Data.List.Nodup
import Mathlib.Data.List.SplitBy
import TapeLang.Definition

/-! Substitution by whole words. A text is a row of runs, of word characters and of others in turn;
where the parameters are words, substitution replaces the runs that are parameters, all at once. So
a parameter can be renamed, in the head and in the body, to a word that stands in neither. -/
namespace TapeLang

namespace Text

/-- A text of word characters, one at least. -/
structure IsWordRun (t : Text) : Prop where
  ne_nil : t ≠ []
  word : ∀ c ∈ t, isWord c = true

instance (t : Text) : Decidable (IsWordRun t) :=
  decidable_of_iff (t ≠ [] ∧ t.all isWord = true)
    ⟨fun h => ⟨h.1, List.all_eq_true.mp h.2⟩, fun h => ⟨h.ne_nil, List.all_eq_true.mpr h.word⟩⟩

/-- The maximal runs of word characters and of other characters, in their order. -/
def runs (t : Text) : List Text := t.splitBy fun a b => isWord a == isWord b

/-- The text with every run that is bound replaced, and everything else as it is. -/
def replaceRuns (bindings : List Binding) (t : Text) : Text :=
  t.runs.flatMap fun run => (bindings.lookup run).getD run

/-- Characters of one class that are followed by none or by one of the other class. -/
structure IsRun (isWordRun : Bool) (run rest : Text) : Prop where
  ne_nil : run ≠ []
  inside : ∀ c ∈ run, isWord c = isWordRun
  ends : ∀ c ∈ rest.head?, isWord c = !isWordRun

theorem runs_append {kind : Bool} {run rest : Text} (split : IsRun kind run rest) :
    runs (run ++ rest) = run :: runs rest := by
  have last : ∀ c ∈ run.getLast?, ∀ d ∈ rest.head?, (isWord c == isWord d) = false := by
    intro c final d first
    rw [split.inside c (List.mem_of_getLast? final), split.ends d first]
    cases kind <;> rfl
  have chain : run.IsChain fun a b => (isWord a == isWord b) = true := by
    apply List.Pairwise.isChain
    apply List.pairwise_of_forall_mem_list
    intro a inA b inB
    rw [split.inside a inA, split.inside b inB]
    exact beq_self_eq_true kind
  rw [runs, List.splitBy_append last, List.splitBy_of_isChain split.ne_nil chain]
  rfl

/-- A text is empty, or a run and a text behind it. -/
theorem runs_induction {P : Text → Prop} (nil : P [])
    (run : ∀ {kind run rest}, IsRun kind run rest → P rest → P (run ++ rest)) (t : Text) : P t := by
  generalize size : t.length = n
  induction n using Nat.strongRecOn generalizing t with
  | _ n ih =>
    cases t with
    | nil => exact nil
    | cons c rest =>
      have split : IsRun (isWord c) (c :: rest.takeWhile (isWord · == isWord c))
          (rest.dropWhile (isWord · == isWord c)) := by
        refine ⟨List.cons_ne_nil _ _, ?_, ?_⟩
        · intro d member
          rcases List.mem_cons.mp member with rfl | later
          · rfl
          · simpa using List.all_eq_true.mp List.all_takeWhile d later
        · intro d first
          have differs := List.head?_dropWhile_not (isWord · == isWord c) rest
          rw [Option.mem_def.mp first] at differs
          cases same : isWord d <;> cases same' : isWord c <;> simp_all
      have shorter := (List.dropWhile_sublist (isWord · == isWord c) (l := rest)).length_le
      have whole : c :: rest = (c :: rest.takeWhile (isWord · == isWord c)) ++
          rest.dropWhile (isWord · == isWord c) := by
        rw [List.cons_append, List.takeWhile_append_dropWhile]
      rw [whole]
      apply run split
      apply ih _ _ _ rfl
      rw [← size, List.length_cons]
      omega

theorem replaceRuns_append {kind : Bool} {run rest : Text} (split : IsRun kind run rest)
    (bindings : List Binding) :
    replaceRuns bindings (run ++ rest) =
      (bindings.lookup run).getD run ++ replaceRuns bindings rest := by
  rw [replaceRuns, runs_append split, List.flatMap_cons, replaceRuns]

end Text

namespace Substitution

open Text (IsRun IsWordRun replaceRuns)

variable {bindings : List Binding} {run rest : Text}

theorem substituteFrom_append_skipped (before : Option Char) (skipped rest : Text) :
    substituteFrom bindings skipped.length before (skipped ++ rest) =
      substituteFrom bindings 0 (skipped.getLast?.or before) rest := by
  induction skipped generalizing before with
  | nil => rfl
  | cons c skipped ih =>
    rw [List.length_cons, List.cons_append, substituteFrom, ih]
    cases skipped with
    | nil => rfl
    | cons d skipped => simp [List.getLast?_cons]

/-- Where no binding applies at any character of a text, it stays as it is. -/
theorem substituteFrom_append_kept {before : Option Char} {kept rest : Text}
    (stays : ∀ front c back, kept = front ++ c :: back →
      isBoundary (front.getLast?.or before) = true → match? bindings (c :: (back ++ rest)) = none) :
    substituteFrom bindings 0 before (kept ++ rest) =
      kept ++ substituteFrom bindings 0 (kept.getLast?.or before) rest := by
  induction kept generalizing before with
  | nil => rfl
  | cons c kept ih =>
    have here : (if isBoundary before then match? bindings (c :: (kept ++ rest)) else none) =
        none := by
      split
      · rename_i boundary
        exact stays [] c kept rfl boundary
      · rfl
    rw [List.cons_append, substituteFrom, here]
    dsimp only
    rw [ih]
    · cases kept with
      | nil => rfl
      | cons d kept => simp [List.getLast?_cons]
    · intro front d back same boundary
      apply stays (c :: front) d back (by rw [same, List.cons_append])
      cases front with
      | nil => exact boundary
      | cons e front => simpa [List.getLast?_cons] using boundary

theorem foldl_prefer_of_absent {text : Text} (absent : ∀ b ∈ bindings, standsAt b.1 text = false)
    (chosen : Option Binding) : bindings.foldl (prefer text) chosen = chosen := by
  induction bindings with
  | nil => rfl
  | cons b others ih =>
    have unchanged : prefer text chosen b = chosen := by
      rw [prefer.eq_def, absent b List.mem_cons_self]
      rfl
    rw [List.foldl_cons, unchanged]
    exact ih fun c member => absent c (List.mem_cons_of_mem b member)

theorem match?_eq_none {text : Text} (absent : ∀ b ∈ bindings, standsAt b.1 text = false) :
    match? bindings text = none :=
  foldl_prefer_of_absent absent none

/-- Where one word stands at the head of a text, the binding of this word applies. -/
theorem match?_eq_lookup {text word : Text}
    (stands : ∀ b ∈ bindings, standsAt b.1 text = (b.1 == word))
    (distinct : (bindings.map Prod.fst).Nodup) :
    match? bindings text = (bindings.lookup word).map (word, ·) := by
  induction bindings with
  | nil => rfl
  | cons b others ih =>
    have first := stands b List.mem_cons_self
    have behind := fun c member => stands c (List.mem_cons_of_mem b member)
    rw [List.map_cons, List.nodup_cons] at distinct
    rw [match?, List.foldl_cons, prefer, first]
    cases same : b.1 == word with
    | false =>
      rw [List.lookup_cons, Bool.beq_comm, same]
      exact ih behind distinct.2
    | true =>
      obtain rfl := beq_iff_eq.mp same
      have absent : ∀ c ∈ others, standsAt c.1 text = false := by
        intro c member
        rw [behind c member]
        exact beq_false_of_ne fun same => distinct.1 (same ▸ List.mem_map_of_mem member)
      rw [List.lookup_cons, same]
      exact foldl_prefer_of_absent absent (some b)

variable (words : ∀ b ∈ bindings, IsWordRun b.1)
include words

theorem standsAt_of_not_isWord {c : Char} (other : Text.isWord c = false) (text : Text) :
    ∀ b ∈ bindings, standsAt b.1 (c :: text) = false := by
  intro b member
  obtain ⟨d, param, same⟩ := List.exists_cons_of_ne_nil (words b member).ne_nil
  have word := (words b member).word d (same ▸ List.mem_cons_self)
  have differs : (d == c) = false := by
    apply beq_false_of_ne
    rintro rfl
    cases word.symm.trans other
  rw [standsAt, same, List.isPrefixOf_cons_cons, differs]
  rfl

/-- Of all words, a run of word characters alone stands at the head of it. -/
theorem standsAt_run (split : IsRun true run rest) :
    ∀ b ∈ bindings, standsAt b.1 (run ++ rest) = (b.1 == run) := by
  intro b member
  have word := (words b member).word
  generalize b.1 = param at word
  apply Bool.eq_iff_iff.mpr
  rw [standsAt, Bool.and_eq_true, List.isPrefixOf_iff_prefix, beq_iff_eq]
  constructor
  · rintro ⟨begins, boundary⟩
    rcases List.prefix_or_prefix_of_prefix begins (List.prefix_append run rest) with
      ⟨more, same⟩ | ⟨more, same⟩
    · cases more with
      | nil => rw [← same, List.append_nil]
      | cons c more =>
        rw [← same, List.append_assoc, List.drop_left] at boundary
        have inside := split.inside c (by simp [← same])
        simp [isBoundary, inside] at boundary
    · cases more with
      | nil => rw [← same, List.append_nil]
      | cons c more =>
        rw [← same, List.prefix_append_right_inj] at begins
        obtain ⟨behind, continues⟩ := begins
        have ended := split.ends c (by rw [← continues]; rfl)
        rw [word c (by simp [← same])] at ended
        cases ended
  · rintro rfl
    refine ⟨List.prefix_append param rest, ?_⟩
    rw [List.drop_left, isBoundary.eq_def]
    split
    · rfl
    · rename_i c first
      rw [split.ends c first]
      rfl

/-- A run of other characters is no parameter. -/
theorem lookup_other_run (split : IsRun false run rest) : bindings.lookup run = none := by
  obtain ⟨c, others, same⟩ := List.exists_cons_of_ne_nil split.ne_nil
  apply List.lookup_eq_none_iff.mpr
  intro b member
  apply bne_iff_ne.mpr
  rintro rfl
  have word := (words b member).word c (same ▸ List.mem_cons_self)
  cases word.symm.trans (split.inside c (same ▸ List.mem_cons_self))

theorem substituteFrom_other_run (split : IsRun false run rest) (before : Option Char) :
    substituteFrom bindings 0 before (run ++ rest) =
      run ++ substituteFrom bindings 0 (run.getLast?.or before) rest := by
  apply substituteFrom_append_kept
  intro front c back same _
  have other := split.inside c (by simp [same])
  exact match?_eq_none (standsAt_of_not_isWord words other _)

theorem substituteFrom_word_run (distinct : (bindings.map Prod.fst).Nodup)
    (split : IsRun true run rest) {before : Option Char} (boundary : isBoundary before = true) :
    substituteFrom bindings 0 before (run ++ rest) =
      (bindings.lookup run).getD run ++
        substituteFrom bindings 0 (run.getLast?.or before) rest := by
  have applies := match?_eq_lookup (standsAt_run words split) distinct
  cases bound : bindings.lookup run with
  | none =>
    rw [bound] at applies
    apply substituteFrom_append_kept
    intro front c back same later
    cases front with
    | nil =>
      rw [same] at applies
      exact applies
    | cons d front =>
      -- behind a word character nothing can begin
      have inside : ∀ e ∈ (d :: front).getLast?, Text.isWord e = true := fun e last =>
        split.inside e (same ▸ List.mem_append_left _ (List.mem_of_getLast? last))
      rw [List.getLast?_eq_some_getLast (List.cons_ne_nil d front)] at inside later
      simp [isBoundary, inside _ rfl] at later
  | some argument =>
    obtain ⟨c, others, same⟩ := List.exists_cons_of_ne_nil split.ne_nil
    rw [bound, same] at applies
    rw [same, List.cons_append, substituteFrom, if_pos boundary, ← List.cons_append, applies]
    dsimp only [Option.map_some]
    rw [if_neg (by simp), List.length_cons, Nat.add_sub_cancel, substituteFrom_append_skipped,
      Option.getD_some]
    cases others with
    | nil => rfl
    | cons d others => simp [List.getLast?_cons]

/-- Behind a boundary, substitution of words replaces runs. -/
theorem substituteFrom_eq_replaceRuns (distinct : (bindings.map Prod.fst).Nodup) (text : Text)
    {before : Option Char}
    (boundary : (∃ c ∈ text.head?, Text.isWord c = true) → isBoundary before = true) :
    substituteFrom bindings 0 before text = replaceRuns bindings text := by
  induction text using Text.runs_induction generalizing before with
  | nil =>
    have none_stands : ∀ b ∈ bindings, standsAt b.1 [] = false := by
      intro b member
      obtain ⟨c, param, same⟩ := List.exists_cons_of_ne_nil (words b member).ne_nil
      rw [standsAt, same]
      rfl
    rw [substituteFrom, match?_eq_none none_stands]
    split <;> rfl
  | @run kind run rest split ih =>
    obtain ⟨c, others, same⟩ := List.exists_cons_of_ne_nil split.ne_nil
    rw [Text.replaceRuns_append split]
    cases kind with
    | true =>
      have word := split.inside c (same ▸ List.mem_cons_self)
      rw [substituteFrom_word_run words distinct split
        (boundary ⟨c, by rw [same]; rfl, word⟩), ih]
      rintro ⟨d, first, word⟩
      rw [split.ends d first] at word
      cases word
    | false =>
      rw [substituteFrom_other_run words split, lookup_other_run words split, Option.getD_none, ih]
      intro _
      rw [List.getLast?_eq_some_getLast split.ne_nil, Option.some_or, isBoundary,
        split.inside _ (List.getLast_mem split.ne_nil)]
      rfl

end Substitution

/-- Substitution of words replaces, all at once, the runs that are parameters. -/
theorem substitute_eq_replaceRuns {bindings : List Binding}
    (words : ∀ b ∈ bindings, Text.IsWordRun b.1) (distinct : (bindings.map Prod.fst).Nodup)
    (body : Text) : substitute bindings body = Text.replaceRuns bindings body :=
  Substitution.substituteFrom_eq_replaceRuns words distinct body fun _ => rfl

namespace Text

/-- What stands inside of two texts in a row stands inside of one of them, or has the characters at
the seam. -/
theorem infix_append_cases {m a b : Text} (inside : m <:+: a ++ b) :
    m <:+: a ∨ m <:+: b ∨ ∃ c ∈ a.getLast?, ∃ d ∈ b.head?, c ∈ m ∧ d ∈ m := by
  obtain ⟨front, back, same⟩ := inside
  rcases List.append_eq_append_iff.mp same with ⟨rest, rfl, rfl⟩ | ⟨rest, crosses, rfl⟩
  · exact .inl ⟨front, rest, rfl⟩
  · rcases List.append_eq_append_iff.mp crosses with ⟨first, rfl, rfl⟩ | ⟨between, rfl, rfl⟩
    · cases first with
      | nil => exact .inr (.inl ⟨[], back, rfl⟩)
      | cons c first =>
        cases rest with
        | nil => exact .inl ⟨front, [], by simp⟩
        | cons d rest =>
          refine .inr (.inr ⟨_, List.mem_getLast?_append_of_mem_getLast?
            (List.getLast?_eq_some_getLast (List.cons_ne_nil c first)), d, rfl, ?_, by simp⟩)
          exact List.mem_append_left _ (List.getLast_mem _)
    · exact .inr (.inl ⟨between, back, rfl⟩)

variable {bindings : List Binding} (words : ∀ b ∈ bindings, IsWordRun b.1)
include words

/-- Replacing words does not touch what begins with another character. -/
theorem head?_replaceRuns {t : Text} (other : ∀ c ∈ t.head?, isWord c = false) :
    (replaceRuns bindings t).head? = t.head? := by
  induction t using runs_induction with
  | nil => rfl
  | @run kind run rest split _ =>
    obtain ⟨c, others, rfl⟩ := List.exists_cons_of_ne_nil split.ne_nil
    obtain rfl : kind = false := (split.inside c List.mem_cons_self).symm.trans (other c rfl)
    rw [replaceRuns_append split, Substitution.lookup_other_run words split]
    rfl

/-- A word that stands inside of a text with arguments for parameters stands inside of the text or
of an argument: no argument runs into what is beside it. -/
theorem infix_of_infix_replaceRuns {m t : Text} (isWordRun : IsWordRun m)
    (inside : m <:+: replaceRuns bindings t) : m <:+: t ∨ ∃ b ∈ bindings, m <:+: b.2 := by
  induction t using runs_induction with
  | nil => exact .inl inside
  | @run kind run rest split ih =>
    rw [replaceRuns_append split] at inside
    rcases infix_append_cases inside with inRun | inRest | ⟨c, last, d, first, left, right⟩
    · cases bound : bindings.lookup run with
      | none =>
        rw [bound] at inRun
        exact .inl (inRun.trans (List.prefix_append run rest).isInfix)
      | some argument =>
        rw [bound] at inRun
        obtain ⟨front, back, rfl, -⟩ := List.lookup_eq_some_iff.mp bound
        exact .inr ⟨(run, argument), by simp, inRun⟩
    · exact (ih inRest).imp_left fun inText =>
        inText.trans (List.suffix_append run rest).isInfix
    · -- at the seam one character is not of a word
      exfalso
      cases kind with
      | true =>
        have outside : ∀ d ∈ rest.head?, isWord d = false := fun d first => split.ends d first
        rw [head?_replaceRuns words outside] at first
        cases (outside d first).symm.trans (isWordRun.word d right)
      | false =>
        rw [Substitution.lookup_other_run words split] at last
        cases (split.inside c (List.mem_of_getLast? last)).symm.trans (isWordRun.word c left)

end Text

/-- A word, or the one that it is renamed to. -/
def Text.renamed (param fresh run : Text) : Text := if run = param then fresh else run

namespace Text

variable {param fresh : Text}

theorem getD_lookup_renamed (run : Text) :
    (List.lookup run [(param, fresh)]).getD run = renamed param fresh run := by
  by_cases same : run = param
  · simp [renamed, same]
  · rw [renamed, if_neg same, List.lookup_cons, beq_false_of_ne same]
    rfl

theorem IsRun.renamed (isWordParam : IsWordRun param) (isWordFresh : IsWordRun fresh) {kind : Bool}
    {run rest rest' : Text} (split : IsRun kind run rest)
    (ends : rest'.head?.map isWord = rest.head?.map isWord) :
    IsRun kind (renamed param fresh run) rest' := by
  have ends' : ∀ c ∈ rest'.head?, isWord c = !kind := by
    intro c first
    rw [Option.mem_def.mp first] at ends
    obtain ⟨d, first', same⟩ := Option.map_eq_some_iff.mp ends.symm
    rw [← same, split.ends d first']
  by_cases same : run = param
  · subst same
    obtain ⟨c, others, cons⟩ := List.exists_cons_of_ne_nil split.ne_nil
    have member : c ∈ run := cons ▸ List.mem_cons_self
    have isWordKind := (split.inside c member).symm.trans (isWordParam.word c member)
    rw [Text.renamed, if_pos rfl]
    exact ⟨isWordFresh.ne_nil, fun c member => (isWordFresh.word c member).trans isWordKind.symm,
      ends'⟩
  · rw [Text.renamed, if_neg same]
    exact ⟨split.ne_nil, split.inside, ends'⟩

/-- Renaming a word renames it among the runs, and leaves their kinds as they are. -/
theorem runs_renamed (isWordParam : IsWordRun param) (isWordFresh : IsWordRun fresh) (t : Text) :
    runs (replaceRuns [(param, fresh)] t) = (runs t).map (renamed param fresh) ∧
      (replaceRuns [(param, fresh)] t).head?.map isWord = t.head?.map isWord := by
  induction t using runs_induction with
  | nil => exact ⟨rfl, rfl⟩
  | @run kind run rest split ih =>
    have split' := split.renamed isWordParam isWordFresh ih.2
    have first {run rest : Text} (split : IsRun kind run rest) :
        (run ++ rest).head?.map isWord = some kind := by
      obtain ⟨c, others, rfl⟩ := List.exists_cons_of_ne_nil split.ne_nil
      exact congrArg some (split.inside c List.mem_cons_self)
    rw [replaceRuns_append split, getD_lookup_renamed, runs_append split', runs_append split, ih.1,
      first split, first split']
    exact ⟨rfl, rfl⟩

/-- A renamed word is bound to what the word was bound to, if the new name is not bound. -/
theorem lookup_renamed {params args : List Text} (unbound : fresh ∉ params) {run : Text}
    (other : run ≠ fresh) :
    ((params.map (renamed param fresh)).zip args).lookup (renamed param fresh run) =
      (params.zip args).lookup run := by
  induction params generalizing args with
  | nil => rfl
  | cons p params ih =>
    obtain ⟨first, later⟩ := List.ne_and_not_mem_of_not_mem_cons unbound
    cases args with
    | nil => rfl
    | cons a args =>
      have same : (renamed param fresh run == renamed param fresh p) = (run == p) := by
        unfold renamed
        grind
      rw [List.map_cons, List.zip_cons_cons, List.zip_cons_cons, List.lookup_cons, List.lookup_cons,
        same, ih later]

theorem replaceRuns_renamed (isWordParam : IsWordRun param) (isWordFresh : IsWordRun fresh)
    {params args : List Text} {t : Text} (member : param ∈ params)
    (arity : args.length = params.length) (unbound : fresh ∉ params) (absent : fresh ∉ t.runs) :
    replaceRuns ((params.map (renamed param fresh)).zip args) (replaceRuns [(param, fresh)] t) =
      replaceRuns (params.zip args) t := by
  rw [replaceRuns, (runs_renamed isWordParam isWordFresh t).1, List.flatMap_map, replaceRuns]
  apply List.flatMap_congr
  intro run inText
  have other : run ≠ fresh := fun same => absent (same ▸ inText)
  rw [lookup_renamed unbound other]
  cases bound : (params.zip args).lookup run with
  | some argument => rfl
  | none =>
    have unchanged : run ≠ param := by
      rintro rfl
      obtain ⟨b, bindsRun, same⟩ := List.mem_map.mp
        ((List.map_fst_zip arity.ge).symm ▸ member : run ∈ (params.zip args).map Prod.fst)
      have differs := List.lookup_eq_none_iff.mp bound b bindsRun
      rw [same, bne_self_eq_false] at differs
      cases differs
    rw [renamed, if_neg unchanged]

end Text

/-- The definition with a parameter renamed, in its head and in its body. -/
def Definition.rename (d : Definition) (param fresh : Text) : Definition :=
  { d with
    params := d.params.map (Text.renamed param fresh)
    body := Text.replaceRuns [(param, fresh)] d.body }

namespace Definition

variable {d : Definition}

theorem instantiate_of_words (words : ∀ p ∈ d.params, Text.IsWordRun p)
    (distinct : d.params.Nodup) {args : List Text} (arity : args.length = d.params.length) :
    d.instantiate args = .ok (Text.replaceRuns (d.params.zip args) d.body) := by
  have bound : (d.params.zip args).map Prod.fst = d.params := List.map_fst_zip arity.ge
  rw [instantiate, if_pos arity, substitute_eq_replaceRuns]
  · exact fun b member => words b.1 (List.of_mem_zip member).1
  · rwa [bound]

/-- Where the parameters are distinct words, a body stands for its text with every run that is a
parameter replaced by the argument as it is, and with everything else kept; and it stands for
the same texts, or refuses the same arguments, with any parameter renamed to a new word. -/
theorem instantiate_runs (words : ∀ p ∈ d.params, Text.IsWordRun p) (distinct : d.params.Nodup) :
    (∀ args, args.length = d.params.length →
      d.instantiate args = .ok (Text.replaceRuns (d.params.zip args) d.body)) ∧
    ∀ param ∈ d.params, ∀ fresh, Text.IsWordRun fresh → fresh ∉ d.params → fresh ∉ d.body.runs →
      ∀ args, (d.rename param fresh).instantiate args = d.instantiate args := by
  refine ⟨fun args arity => instantiate_of_words words distinct arity, ?_⟩
  intro param member fresh isWordFresh unbound absent args
  have arityFault : (d.rename param fresh).arityFault args = d.arityFault args := by
    rw [Definition.arityFault, rename, List.length_map, Definition.arityFault]
  by_cases arity : args.length = d.params.length
  · have words' : ∀ p ∈ (d.rename param fresh).params, Text.IsWordRun p := by
      intro p renamed
      obtain ⟨q, listed, rfl⟩ := List.mem_map.mp renamed
      by_cases same : q = param
      · rwa [Text.renamed, if_pos same]
      · rw [Text.renamed, if_neg same]
        exact words q listed
    have distinct' : (d.rename param fresh).params.Nodup := by
      refine List.Nodup.map_on ?_ distinct
      intro p inParams q inParams' same
      have first : p ≠ fresh := fun same => unbound (same ▸ inParams)
      have second : q ≠ fresh := fun same => unbound (same ▸ inParams')
      unfold Text.renamed at same
      grind
    rw [instantiate_of_words words distinct arity,
      instantiate_of_words words' distinct' (arity.trans (List.length_map _).symm)]
    exact congrArg Except.ok
      (Text.replaceRuns_renamed (words param member) isWordFresh member arity unbound absent)
  · have arity' : ¬args.length = (d.rename param fresh).params.length := by
      rwa [rename, List.length_map]
    rw [instantiate.eq_def, if_neg arity', arityFault, instantiate, if_neg arity]

/-- Parameters that begin one another, in a body where they also stand inside longer words. -/
def stutter : Definition where
  kind := .macroForm
  name := "stutter".toList
  params := ["x".toList, "xx".toList, "x_1".toList]
  body := "x xx x_1x (xx)x;x-\\x x_1".toList

/-- What the arguments name and refer to is not looked at again. -/
theorem instantiate_runs_stutter :
    (∀ p ∈ stutter.params, Text.IsWordRun p) ∧ stutter.params.Nodup ∧
      stutter.instantiate ["xx".toList, "\\1".toList, "\\g<x>".toList] =
        .ok "xx \\1 x_1x (\\1)xx;xx-\\xx \\g<x>".toList ∧
      (stutter.rename "x".toList "y".toList).body = "y xx x_1x (xx)y;y-\\y x_1".toList ∧
      (stutter.rename "x".toList "y".toList).instantiate
          ["xx".toList, "\\1".toList, "\\g<x>".toList] =
        stutter.instantiate ["xx".toList, "\\1".toList, "\\g<x>".toList] := by
  have words : ∀ p ∈ stutter.params, Text.IsWordRun p := by decide +kernel
  have distinct : stutter.params.Nodup := by decide +kernel
  obtain ⟨replaces, renames⟩ := instantiate_runs words distinct
  refine ⟨words, distinct, ?_, by decide +kernel, ?_⟩
  · refine (replaces ["xx".toList, "\\1".toList, "\\g<x>".toList] rfl).trans (congrArg Except.ok ?_)
    decide +kernel
  · apply renames <;> decide +kernel

end Definition

end TapeLang
