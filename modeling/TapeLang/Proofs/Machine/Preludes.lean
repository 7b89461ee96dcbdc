import TapeLang.Machine.Run
import TapeLang.Proofs.Expansion.Stepwise
import TapeLang.Proofs.Extension.Registration
import TapeLang.Proofs.Program
import TapeLang.Proofs.Token.Positions

/-! Preludes as they are registered and as they are loaded. The first looks at the kinds of the
tokens alone, the second reads the declarations. So what is registered loads unless a declaration
cannot be read or a name is declared twice; and if it loads, every run and every check starts from
the declarations of its text. -/
namespace TapeLang

/-- The definition that a token declares, as it is read where the token stands. -/
def Source.declared? (source : Source) (t : Token) : Option (Except SourceError Definition) :=
  match t.kind with
  | .declaration kind => some (readDeclaration kind t.value (source.locate t))
  | .symbol | .word | .endOfText => none

/-- The declarations of a prelude in order, each as it is read. -/
def Prelude.declarations (p : Prelude) : List (Except SourceError Definition) :=
  match tokenize (file p.name) p.text with
  -- the limit of expansion plays no part in what a token declares
  | .ok tokens => tokens.filterMap (Source.ofText (file p.name) p.text 0).declared?
  | .error _ => []

namespace Dictionary

/-- Enters definitions in turn, up to the first that was not read or whose name is in use. -/
def enter (dictionary : Dictionary) (read : List (Except SourceError Definition)) :
    Except SourceError Dictionary :=
  read.foldlM (fun dictionary d => d >>= dictionary.declare) dictionary

variable {dictionary after : Dictionary} {read : List (Except SourceError Definition)}

/-- What is entered is read, and stands behind the rest. -/
theorem exists_of_enter (entered : dictionary.enter read = .ok after) :
    ∃ ds, read = ds.map .ok ∧ after.toList = dictionary.toList ++ ds := by
  induction read generalizing dictionary with
  | nil =>
    cases entered
    exact ⟨[], rfl, (List.append_nil _).symm⟩
  | cons first rest ih =>
    obtain ⟨between, one, others⟩ := foldlM_cons_eq_ok_iff.mp entered
    obtain ⟨d, rfl, declared⟩ := bind_eq_ok_iff.mp one
    obtain ⟨ds, rfl, added⟩ := ih others
    exact ⟨d :: ds, rfl, by rw [added, toList_declare declared]; simp⟩

theorem exists_enter {ds : List Definition}
    (nodup : ((dictionary.toList ++ ds).map (·.name)).Nodup) :
    ∃ after, dictionary.enter (ds.map .ok) = .ok after := by
  induction ds generalizing dictionary with
  | nil => exact ⟨dictionary, rfl⟩
  | cons d ds ih =>
    have absent : dictionary.find? d.name = none := by
      rw [find?_eq_none_iff]
      rw [List.map_append, List.map_cons, List.nodup_append] at nodup
      exact fun member => nodup.2.2 _ member _ List.mem_cons_self rfl
    obtain ⟨between, declared⟩ := exists_declare_of_absent absent
    rw [← List.singleton_append, ← List.append_assoc, ← toList_declare declared] at nodup
    obtain ⟨after, entered⟩ := ih nodup
    exact ⟨after, foldlM_cons_eq_ok_iff.mpr ⟨between, declared, entered⟩⟩

/-- Definitions can be entered into a new dictionary if all are read, and no two have one name. -/
theorem enter_empty_iff :
    (∃ after, enter {} read = .ok after) ↔
      ∃ ds : List Definition, read = ds.map .ok ∧ (ds.map (·.name)).Nodup := by
  constructor
  · rintro ⟨after, entered⟩
    obtain ⟨ds, rfl, added⟩ := exists_of_enter entered
    exact ⟨ds, rfl, by simpa [added] using after.nodup⟩
  · rintro ⟨ds, rfl, nodup⟩
    exact exists_enter nodup

end Dictionary

namespace Expansion

variable {σ : Type} {source : Source} {consume : σ → Item → Except SourceError σ}
variable {budget : Nat} {front : List Token} {last : Token}

/-- Where all tokens declare, the consumer is not fed. The induction is on the tokens, over any
dictionary. -/
theorem run_expandWithin_declaring (declares : ∀ t ∈ front, ∃ kind, t.kind = .declaration kind)
    (ends : last.kind = .endOfText) (dictionary : Dictionary) (s : σ) :
    match dictionary.enter (front.filterMap source.declared?) with
    | .ok after =>
      (expandWithin source consume budget [] none (front ++ [last])).run ⟨dictionary, s⟩ =
        .ok () ⟨after, s⟩
    | .error e => ∃ left,
      (expandWithin source consume budget [] none (front ++ [last])).run ⟨dictionary, s⟩ =
        .error e left := by
  induction front generalizing dictionary with
  | nil =>
    rw [List.nil_append, expandWithin_endOfText ends]
    rfl
  | cons t rest ih =>
    obtain ⟨⟨kind, here⟩, others⟩ := List.forall_mem_cons.mp declares
    have declared : source.declared? t =
        some (readDeclaration kind t.value (source.place none t)) := by
      rw [Source.declared?, here]
      rfl
    rw [List.cons_append, expandWithin_cons (by simp [here]), List.filterMap_cons, declared]
    have one := run_declare kind t.value (source.place none t) (⟨dictionary, s⟩ : Progress σ)
    simp only [readToken, here, Dictionary.enter, List.foldlM_cons]
    cases made : readDeclaration kind t.value (source.place none t) >>= dictionary.declare with
    | error e =>
      rw [made] at one
      exact ⟨_, run_bind_of_error one _⟩
    | ok between =>
      rw [made] at one
      rw [run_bind_of_ok one]
      exact ih others between

end Expansion

/-- A source whose tokens all declare is read as a program without instructions. -/
theorem Source.run_parse_declaring (source : Source) {front : List Token} {last : Token}
    (declares : ∀ t ∈ front, ∃ kind, t.kind = .declaration kind) (ends : last.kind = .endOfText)
    (dictionary : Dictionary) :
    match dictionary.enter (front.filterMap source.declared?) with
    | .ok after => (source.parse (front ++ [last])).run dictionary = .ok ⟨#[], after⟩ after
    | .error e => ∃ left, (source.parse (front ++ [last])).run dictionary = .error e left := by
  have expanded := @Expansion.run_expandWithin_declaring _ source LoopBinder.consume
    source.limit.toNat front last declares ends dictionary {}
  rw [run_parse, run_consumeAll, expand]
  cases entered : dictionary.enter (front.filterMap source.declared?) with
  | ok after =>
    rw [entered] at expanded
    rw [expanded]
    rfl
  | error e =>
    rw [entered] at expanded
    obtain ⟨left, failed⟩ := expanded
    rw [failed]
    exact ⟨_, rfl⟩

namespace Prelude

variable {p : Prelude} {extension text : Text}

theorem eq_of_accepted (accepted : checkPrelude extension text = .ok p) :
    p = ⟨extension, text⟩ ∧ isAccepted extension text = true := by
  rcases checkPrelude_cases extension text with ⟨declares, taken⟩ | ⟨-, e, fails⟩
  · exact ⟨(Except.ok.inj (taken.symm.trans accepted)).symm, declares⟩
  · cases fails.symm.trans accepted

/-- The tokens of a prelude that was accepted declare, up to the end of its text. -/
theorem exists_tokens (accepted : checkPrelude extension text = .ok p) :
    ∃ front last, tokenize (file p.name) p.text = .ok (front ++ [last]) ∧
      last.kind = .endOfText ∧ ∀ t ∈ front, ∃ kind, t.kind = .declaration kind := by
  obtain ⟨rfl, declares⟩ := eq_of_accepted accepted
  unfold isAccepted at declares
  cases lexed : tokenize (file extension) text with
  | error e => rw [lexed] at declares; cases declares
  | ok tokens =>
    rw [lexed] at declares
    obtain ⟨front, last, rfl, ends, unended⟩ := exists_concat_of_tokenize lexed
    refine ⟨front, last, rfl, ends, fun t member => ?_⟩
    have declaring := List.all_eq_true.mp declares t (List.mem_append_left _ member)
    have other := unended t member
    cases kind : t.kind with
    | declaration form => exact ⟨form, rfl⟩
    | endOfText => exact absurd kind other
    | symbol | word =>
      rw [kind] at declaring
      cases declaring

/-- The declarations of a prelude that was accepted are entered when it is loaded. -/
theorem load_eq_enter (accepted : checkPrelude extension text = .ok p) (limit : Int)
    (dictionary : Dictionary) : p.load limit dictionary = dictionary.enter p.declarations := by
  obtain ⟨front, last, lexed, ends, declares⟩ := exists_tokens accepted
  have listed : p.declarations =
      front.filterMap (Source.ofText (file p.name) p.text limit).declared? := by
    have none : (Source.ofText (file p.name) p.text 0).declared? last = none := by
      rw [Source.declared?, ends]
    rw [declarations, lexed]
    dsimp only
    rw [List.filterMap_append, List.filterMap_cons_none none, List.filterMap_nil, List.append_nil]
    rfl
  have parsed := (Source.ofText (file p.name) p.text limit).run_parse_declaring declares ends
    dictionary
  rw [← listed] at parsed
  unfold load
  dsimp only [bind, Except.bind]
  rw [lexed]
  dsimp only
  cases entered : dictionary.enter p.declarations with
  | ok after =>
    rw [entered] at parsed
    rw [parsed]
    rfl
  | error e =>
    rw [entered] at parsed
    obtain ⟨left, failed⟩ := parsed
    rw [failed]
    rfl

end Prelude

/-- A machine begins with a table of definitions, and so does each of its runs and checks, whatever
was done before. -/
structure Interpreter.StartsFrom (i : Interpreter) (table : List Definition) : Prop where
  base : i.base.toList = table
  start : ∀ input, (i.start input).definitions = i.base
  reset : ∀ m, (i.reset m).definitions = i.base
  run : ∀ fuel m, (i.run fuel).run m = (i.run fuel).run (i.reset m)
  check : i.check = i.tokens >>= fun tokens => outcome ((i.source.check tokens).run i.base)

theorem Interpreter.startsFrom (i : Interpreter) : i.StartsFrom i.base.toList where
  base := rfl
  start _ := rfl
  reset _ := rfl
  run fuel m := by
    unfold Interpreter.run
    rw [EStateM.run_bind, EStateM.run_modify, EStateM.run_bind, EStateM.run_modify]
    rfl
  check := by
    unfold Interpreter.check
    refine congrArg (i.tokens >>= ·) (funext fun tokens => ?_)
    cases (i.source.check tokens).run i.base <;> rfl

namespace Setup

variable {s : Setup} {p : Prelude} {extension text : Text}

theorem freshTable_eq_enter (accepted : checkPrelude extension text = .ok p)
    (only : s.services.preludes = [p]) :
    s.freshTable = Dictionary.enter {} (Prelude.declarations ⟨extension, text⟩) := by
  obtain ⟨same, -⟩ := Prelude.eq_of_accepted accepted
  rw [freshTable, only, List.foldlM_cons, ← same, ← Prelude.load_eq_enter accepted s.expansionLimit]
  cases p.load s.expansionLimit {} <;> rfl

/-- A prelude that was accepted, on its own, loads exactly if all its declarations can be read and
no two have one name. Then every run and every check starts from just these. Otherwise loading
fails at the first that cannot be entered. -/
theorem load_prelude (accepted : checkPrelude extension text = .ok p)
    (only : s.services.preludes = [p]) (positive : 1 ≤ s.tapeSize) :
    let declared := Prelude.declarations ⟨extension, text⟩
    ((∃ i, s.load = .ok i) ↔
      ∃ ds : List Definition, declared = ds.map .ok ∧ (ds.map (·.name)).Nodup) ∧
    (∀ i, s.load = .ok i → ∃ ds, declared = ds.map .ok ∧ i.StartsFrom ds) ∧
    ∀ e, s.load = .error e → ∃ fault, e = .prelude fault ∧
      Dictionary.enter {} declared = .error fault := by
  intro declared
  have table : s.freshTable = Dictionary.enter {} declared := freshTable_eq_enter accepted only
  obtain ⟨blank, made⟩ : ∃ blank, Tape.ofSize? s.tapeSize = some blank := ⟨_, dif_pos positive⟩
  refine ⟨?_, ?_, ?_⟩
  · rw [← Dictionary.enter_empty_iff, ← table]
    constructor
    · rintro ⟨i, loaded⟩
      exact ⟨i.base, (load_eq_ok_iff.mp loaded).2.2⟩
    · rintro ⟨base, entered⟩
      exact ⟨⟨s, blank, base⟩, load_eq_ok_iff.mpr ⟨rfl, made, entered⟩⟩
  · intro i loaded
    have entered := (load_eq_ok_iff.mp loaded).2.2
    rw [table] at entered
    obtain ⟨ds, read, added⟩ := Dictionary.exists_of_enter entered
    rw [List.nil_append] at added
    exact ⟨ds, read, added ▸ i.startsFrom⟩
  · intro e failed
    unfold load at failed
    rw [made, table] at failed
    dsimp only at failed
    cases entered : Dictionary.enter {} declared with
    | ok base => rw [entered] at failed; cases failed
    | error fault =>
      rw [entered] at failed
      cases failed
      exact ⟨fault, rfl, rfl⟩

/-- A machine with one prelude, in the name of an extension. -/
def withPrelude (text : Text) : Setup :=
  { file := [], services := { preludes := [⟨"e".toList, text⟩] } }

/-- Two declarations, with a comment. -/
def twoForms : Text := "$a = +\n@b(n) = n n # twice".toList

theorem load_prelude_twoForms : ∃ i ds,
    checkPrelude "e".toList twoForms = .ok ⟨"e".toList, twoForms⟩ ∧
    (withPrelude twoForms).load = .ok i ∧
    Prelude.declarations ⟨"e".toList, twoForms⟩ = ds.map .ok ∧
    ds.map (·.name) = [['a'], ['b']] ∧ i.StartsFrom ds := by
  have accepted : checkPrelude "e".toList twoForms = .ok ⟨"e".toList, twoForms⟩ := by
    decide +kernel
  have declared : Prelude.declarations ⟨"e".toList, twoForms⟩ =
      [⟨.macroForm, ['a'], [], ['+'], some ⟨"<prelude:e>".toList, 1, 1, "$a = +".toList⟩⟩,
       ⟨.procedureForm, ['b'], [['n']], "n n".toList,
        some ⟨"<prelude:e>".toList, 2, 1, "@b(n) = n n # twice".toList⟩⟩].map .ok := by
    decide +kernel
  obtain ⟨loads, starts, -⟩ := @load_prelude (withPrelude twoForms) _ _ _ accepted rfl (by decide)
  obtain ⟨i, loaded⟩ := loads.mpr ⟨_, declared, by decide +kernel⟩
  obtain ⟨ds, read, begins⟩ := starts i loaded
  refine ⟨i, ds, accepted, loaded, read, ?_, begins⟩
  have same := List.map_injective_iff.mpr (fun _ _ => Except.ok.inj) (declared.symm.trans read)
  rw [← same]
  decide +kernel

/-- Two preludes that are accepted keep a machine from being made: a declaration without a body, and
a name that is declared twice. -/
theorem load_prelude_fails :
    (checkPrelude "e".toList "$a".toList = .ok ⟨"e".toList, "$a".toList⟩ ∧
      ¬ ∃ i, (withPrelude "$a".toList).load = .ok i) ∧
    checkPrelude "e".toList "$a = +\n$a = -".toList = .ok ⟨"e".toList, "$a = +\n$a = -".toList⟩ ∧
      ¬ ∃ i, (withPrelude "$a = +\n$a = -".toList).load = .ok i := by
  have fails {text : Text} (failed : (withPrelude text).load.toOption.isNone = true) :
      ¬ ∃ i, (withPrelude text).load = .ok i := by
    rintro ⟨i, loaded⟩
    rw [loaded] at failed
    cases failed
  exact ⟨⟨by decide +kernel, fails (by decide +kernel)⟩, by decide +kernel, fails (by decide +kernel)⟩

end Setup
end TapeLang
