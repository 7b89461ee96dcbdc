import Mathlib.Algebra.GroupWithZero.Nat
import TapeLang.Proofs.Program.LoopCount

/-! What a check counts. The bodies are visited depth first, the calls of each from the last
one, and no deeper than the limit. A body that is first met at the limit is counted there and
its calls are left alone, so a body behind it can be missed although a shorter chain reaches
the caller. The answer is the documented one exactly when what is missed holds no loop. -/
namespace TapeLang

/-- The loops of calls added up, from the first one to the first that does not compile. -/
def Dictionary.tally (dictionary : Dictionary) (limit : Int) (start : Nat) (calls : List Call) :
    Except SourceError Nat :=
  calls.foldlM (fun total c => (dictionary.body limit c).map (total + ·.loops)) start

/-- The calls that a check examines, the latest first, each with the levels left below it. -/
def Program.examined (p : Program) (limit : Int) : List (Call × Nat) :=
  DepthFirst.visit (fun c => (p.definitions.callees limit c).reverse) limit.toNat
    p.callees.reverse []

/-- The loops of the body of a call, none if it does not compile. -/
def Dictionary.loopsOf (dictionary : Dictionary) (limit : Int) (c : Call) : Nat :=
  match dictionary.body limit c with
  | .error _ => 0
  | .ok p => p.loops

/-- The documented answer: the loops of the program and of the bodies that chains of calls reach
within the limit, provided that all of them compile. -/
def Program.reachedLoops (p : Program) (limit : Int) : Option Nat :=
  if ∀ c ∈ p.within limit, (p.definitions.body limit c).isOk then
    some (p.loops + ((p.within limit).map (p.definitions.loopsOf limit)).sum)
  else none

/-- Whether the calls within reach leave the definitions as they are when they are compiled. -/
def Program.IsQuiet (p : Program) (limit : Int) : Prop :=
  ∀ c ∈ p.within limit, ∀ q left,
    p.definitions.compile limit c = .ok q left → left = p.definitions

/-- The count of a function body. -/
def Definition.ownLoops (d : Definition) (args : List Text) (limit : Int) :
    Declaring (Nat × List (Definition × List Text)) :=
  match d.bodySource args limit with
  | .error e => throw e
  | .ok (source, tokens) => source.ownLoops tokens

namespace LoopCheck

variable {dictionary : Dictionary} {limit : Int}

theorem tally_cons (start : Nat) (c : Call) (calls : List Call) :
    dictionary.tally limit start (c :: calls) =
      match dictionary.body limit c with
      | .error e => .error e
      | .ok p => dictionary.tally limit (start + p.loops) calls := by
  rw [Dictionary.tally, List.foldlM_cons]
  cases dictionary.body limit c <;> rfl

theorem tally_append (start : Nat) (first second : List Call) :
    dictionary.tally limit start (first ++ second) =
      match dictionary.tally limit start first with
      | .error e => .error e
      | .ok total => dictionary.tally limit total second := by
  rw [Dictionary.tally, List.foldlM_append]
  unfold Dictionary.tally
  cases first.foldlM (fun total c => (dictionary.body limit c).map (total + ·.loops)) start <;> rfl

theorem run_definition_ownLoops {d : Definition} (found : dictionary.find? d.name = some d)
    (args : List Text) (limit : Int) :
    match dictionary.compile limit (d.callWith args) with
    | .error e after => (d.ownLoops args limit).run dictionary = .error e after
    | .ok p after => ∃ calls, (d.ownLoops args limit).run dictionary = .ok (p.loops, calls) after ∧
        (calls.map fun c => c.1.callWith c.2) = p.callees.reverse ∧
        ∀ c ∈ calls, after.find? c.1.name = some c.1 := by
  rw [Dictionary.compile_callWith found, Definition.compile, Definition.ownLoops]
  cases d.bodySource args limit with
  | error e => rfl
  | ok body => exact Source.run_ownLoops _ _ dictionary

section

variable {descend : List (Definition × List Text) → Tally → Declaring Tally}
variable {d : Definition} {args : List Text} {tally : Tally}

theorem countCalls_cons_known (known : tally.seen.contains (d.callWith args) = true)
    (rest : List (Definition × List Text)) :
    countCalls limit (some descend) ((d, args) :: rest) tally =
      countCalls limit (some descend) rest tally := by
  have present : tally.seen.contains ⟨d.name, args⟩ = true := known
  rw [countCalls, present]
  rfl

theorem countCalls_cons_fresh (fresh : tally.seen.contains (d.callWith args) = false)
    (rest : List (Definition × List Text)) :
    countCalls limit (some descend) ((d, args) :: rest) tally =
      d.ownLoops args limit >>= fun counted =>
        descend counted.2 ⟨tally.loops + counted.1, tally.seen.insert (d.callWith args) ()⟩ >>=
          countCalls limit (some descend) rest := by
  have absent : tally.seen.contains ⟨d.name, args⟩ = false := fresh
  rw [countCalls, absent, Definition.ownLoops]
  cases d.bodySource args limit with
  | error e => rfl
  | ok body => rfl

end

/-- Whether the table of a check holds what was visited. -/
def Holds (table : CallTable Unit) (seen : List (Call × Nat)) : Prop :=
  ∀ c, table.contains c = true ↔ c ∈ seen.map Prod.fst

theorem Holds.insert {table : CallTable Unit} {seen : List (Call × Nat)}
    (holds : Holds table seen) (c : Call) (r : Nat) :
    Holds (table.insert c ()) ((c, r) :: seen) := by
  intro d
  rw [CallTable.contains_insert, Bool.or_eq_true, holds d]
  simp

/-- Counting ends with a total on the dictionary that it started on, or with an error. -/
def EndsAs (dictionary : Dictionary) (after : List (Call × Nat))
    (ended : EStateM.Result SourceError Dictionary Tally) : Except SourceError Nat → Prop
  | .error e => ∃ left, ended = .error e left
  | .ok total => ∃ table, Holds table after ∧ ended = .ok ⟨total, table⟩ dictionary

/-- Whether the calls that paths of less than `budget` steps reach leave the dictionary as it
is when they are compiled. -/
def Quiet (dictionary : Dictionary) (limit : Int) (next : Call → List Call) (budget : Nat)
    (nodes : List Call) : Prop :=
  ∀ n < budget, ∀ c ∈ DepthFirst.layer next nodes n, ∀ p left,
    dictionary.compile limit c = .ok p left → left = dictionary

/-- Counting follows the visit: it adds up the loops of the fresh visits in their order and fails
at the first that does not compile. -/
theorem run_countWithin {budget : Nat} {nodes : List Call} {seen after : List (Call × Nat)}
    (visits : DepthFirst.Visits (fun c => (dictionary.callees limit c).reverse) budget nodes seen
      after)
    (quiet : Quiet dictionary limit (fun c => (dictionary.callees limit c).reverse) budget nodes)
    {calls : List (Definition × List Text)}
    (known : ∀ c ∈ calls, dictionary.find? c.1.name = some c.1)
    (same : (calls.map fun c => c.1.callWith c.2) = nodes) (tally : Tally)
    (holds : Holds tally.seen seen) :
    ∃ new, after = new ++ seen ∧
      EndsAs dictionary after ((countWithin limit budget calls tally).run dictionary)
        (dictionary.tally limit tally.loops (new.map Prod.fst).reverse) := by
  induction visits generalizing calls tally with
  | bound =>
    refine ⟨[], rfl, tally.seen, holds, ?_⟩
    cases calls <;> rfl
  | nil =>
    cases calls with
    | cons => cases same
    | nil => exact ⟨[], rfl, tally.seen, holds, rfl⟩
  | known old _ ih =>
    cases calls with
    | nil => cases same
    | cons c calls =>
      obtain ⟨d, args⟩ := c
      cases same
      rw [countWithin, countCalls_cons_known ((holds _).mpr old)]
      refine ih (fun n inside c inLayer => quiet n inside c ?_)
        (fun c member => known c (List.mem_cons_of_mem _ member)) rfl tally holds
      exact DepthFirst.layer_subset (List.subset_cons_self _ _) n inLayer
  | @fresh budget a rest seen between after fresh down others ihDown ihRest =>
    cases calls with
    | nil => cases same
    | cons c calls =>
      obtain ⟨d, args⟩ := c
      cases same
      have absent : tally.seen.contains (d.callWith args) = false := by
        rw [← Bool.not_eq_true, holds]
        exact fresh
      have own := run_definition_ownLoops (known (d, args) (by simp)) args limit
      rw [countWithin, countCalls_cons_fresh absent]
      obtain ⟨second, rfl⟩ := others.suffix
      cases compiled : dictionary.compile limit (d.callWith args) with
      | error e left =>
        rw [compiled] at own
        obtain ⟨first, rfl⟩ := down.suffix
        refine ⟨second ++ first ++ [(d.callWith args, budget)], by simp, ?_⟩
        have failed : dictionary.body limit (d.callWith args) = .error e := by
          rw [Dictionary.body, compiled]
          rfl
        simp only [List.map_append, List.reverse_append, List.map_cons, List.map_nil,
          List.reverse_singleton, List.singleton_append, tally_cons, failed]
        exact ⟨left, run_bind_of_error own _⟩
      | ok p left =>
        rw [compiled] at own
        obtain rfl := quiet 0 (by omega) _ List.mem_cons_self p left compiled
        obtain ⟨inner, counted, named, found⟩ := own
        have passed : left.body limit (d.callWith args) = .ok p := by
          rw [Dictionary.body, compiled]
          rfl
        have follow : (left.callees limit (d.callWith args)).reverse = p.callees.reverse := by
          rw [Dictionary.callees, passed]
        obtain ⟨first, rfl, ended⟩ := ihDown
          (fun n inside c inLayer => quiet (n + 1) (by omega) c
            (DepthFirst.layer_next List.mem_cons_self n inLayer))
          found (named.trans follow.symm)
          ⟨tally.loops + p.loops, tally.seen.insert (d.callWith args) ()⟩
          (holds.insert (d.callWith args) budget)
        refine ⟨second ++ first ++ [(d.callWith args, budget)], by simp, ?_⟩
        simp only [List.map_append, List.reverse_append, List.map_cons, List.map_nil,
          List.reverse_singleton, List.singleton_append, tally_cons, passed, tally_append]
        rw [run_bind_of_ok counted]
        cases total : left.tally limit (tally.loops + p.loops) (first.map Prod.fst).reverse with
        | error e =>
          simp only [total] at ended
          obtain ⟨stopped, failed⟩ := ended
          exact ⟨stopped, run_bind_of_error failed _⟩
        | ok n =>
          simp only [total] at ended
          obtain ⟨table, holdsTable, ran⟩ := ended
          obtain ⟨new, added, endedRest⟩ := ihRest
            (fun n inside c inLayer => quiet n inside c
              (DepthFirst.layer_subset (List.subset_cons_self _ _) n inLayer))
            (fun c member => known c (List.mem_cons_of_mem _ member)) rfl ⟨n, table⟩ holdsTable
          obtain rfl := List.append_cancel_right added
          rw [run_bind_of_ok ran]
          exact endedRest

theorem toOption_tally (start : Nat) (calls : List Call) :
    (dictionary.tally limit start calls).toOption =
      if ∀ c ∈ calls, (dictionary.body limit c).isOk then
        some (start + (calls.map (dictionary.loopsOf limit)).sum)
      else none := by
  induction calls generalizing start with
  | nil => rfl
  | cons c calls ih =>
    rw [tally_cons]
    cases compiled : dictionary.body limit c with
    | error e =>
      have refused : ¬ ∀ b ∈ c :: calls, (dictionary.body limit b).isOk := by
        intro all
        have passes := all c List.mem_cons_self
        rw [compiled] at passes
        cases passes
      rw [if_neg refused]
      rfl
    | ok p =>
      dsimp only
      rw [ih]
      have own : dictionary.loopsOf limit c = p.loops := by rw [Dictionary.loopsOf, compiled]
      simp [compiled, own, Except.isOk, Except.toBool, Nat.add_assoc]

/-- A total over fewer calls is the total over all of them exactly when the calls left out have
no loops. -/
theorem sum_eq_iff {f : Call → Nat} {fewer all : List Call} (distinct : fewer.Nodup)
    (distinctAll : all.Nodup) (subset : fewer ⊆ all) :
    (fewer.map f).sum = (all.map f).sum ↔ ∀ c ∈ all, c ∉ fewer → f c = 0 := by
  have split : List.Perm all (fewer ++ all.filter (· ∉ fewer)) := by
    have distinctBoth : (fewer ++ all.filter (· ∉ fewer)).Nodup := by
      apply List.nodup_append.mpr
      refine ⟨distinct, distinctAll.filter _, ?_⟩
      rintro c listed _ other rfl
      simp [listed] at other
    apply (List.perm_ext_iff_of_nodup distinctAll distinctBoth).mpr
    intro c
    by_cases listed : c ∈ fewer
    · simp [listed, subset listed]
    · simp [listed]
  rw [(split.map f).sum_nat, List.map_append, List.sum_append]
  have zero : (fewer.map f).sum = (fewer.map f).sum + ((all.filter (· ∉ fewer)).map f).sum ↔
      ((all.filter (· ∉ fewer)).map f).sum = 0 := by omega
  rw [zero, List.sum_eq_zero_iff_forall_eq_nat]
  simp only [List.forall_mem_map, List.mem_filter, decide_eq_true_eq, and_imp]

/-- Totals over fewer and over all calls agree exactly when one of the fewer fails, or all calls
left out compile and have no loops. -/
theorem tally_eq_iff (dictionary : Dictionary) (limit : Int) (start : Nat)
    {fewer all : List Call} (distinct : fewer.Nodup) (distinctAll : all.Nodup)
    (subset : fewer ⊆ all) :
    (dictionary.tally limit start fewer).toOption =
        (if ∀ c ∈ all, (dictionary.body limit c).isOk then
          some (start + (all.map (dictionary.loopsOf limit)).sum) else none) ↔
      (∃ c ∈ fewer, (dictionary.body limit c).isOk = false) ∨
        ∀ c ∈ all, c ∉ fewer →
          (dictionary.body limit c).isOk ∧ dictionary.loopsOf limit c = 0 := by
  rw [toOption_tally]
  by_cases compiles : ∀ c ∈ fewer, (dictionary.body limit c).isOk
  · have noFailure : ¬ ∃ c ∈ fewer, (dictionary.body limit c).isOk = false := by
      rintro ⟨c, listed, failed⟩
      rw [compiles c listed] at failed
      cases failed
    rw [if_pos compiles]
    by_cases compilesAll : ∀ c ∈ all, (dictionary.body limit c).isOk
    · rw [if_pos compilesAll, Option.some.injEq, Nat.add_left_cancel_iff,
        sum_eq_iff distinct distinctAll subset]
      constructor
      · exact fun empty => .inr fun c listed missed => ⟨compilesAll c listed, empty c listed missed⟩
      · rintro (failure | harmless) c listed missed
        · exact absurd failure noFailure
        · exact (harmless c listed missed).2
    · rw [if_neg compilesAll]
      refine ⟨nofun, ?_⟩
      rintro (failure | harmless)
      · exact absurd failure noFailure
      · apply compilesAll.elim
        intro c listed
        by_cases examined : c ∈ fewer
        · exact compiles c examined
        · exact (harmless c listed examined).1
  · have failure : ∃ c ∈ fewer, (dictionary.body limit c).isOk = false := by
      simpa using compiles
    have refused : ¬ ∀ c ∈ all, (dictionary.body limit c).isOk :=
      fun all => compiles fun c listed => all c (subset listed)
    rw [if_neg compiles, if_neg refused]
    exact ⟨fun _ => .inl failure, fun _ => rfl⟩

end LoopCheck

namespace Program

variable {p : Program} {limit : Int}

theorem visits_examined (p : Program) (limit : Int) :
    DepthFirst.Visits (fun c => (p.definitions.callees limit c).reverse) limit.toNat
      p.callees.reverse [] (p.examined limit) :=
  DepthFirst.visits_visit _ _ _

theorem nodup_within (p : Program) (limit : Int) : (p.within limit).Nodup := List.nodup_dedup _

theorem nodup_examined (p : Program) (limit : Int) : ((p.examined limit).map Prod.fst).Nodup :=
  (p.visits_examined limit).nodup List.nodup_nil

theorem examined_subset_within (p : Program) (limit : Int) :
    (p.examined limit).map Prod.fst ⊆ p.within limit := by
  intro c member
  obtain ⟨⟨c, r⟩, visited, rfl⟩ := List.mem_map.mp member
  rcases (p.visits_examined limit).mem_layer visited with none_before | ⟨n, levels, inLayer⟩
  · cases none_before
  · exact mem_within.mpr ⟨n, by omega, DepthFirst.mem_layer_reverse.mp inLayer⟩

/-- A check examines all calls within reach exactly when none of them is missed behind a call that
was first met at the limit. -/
theorem within_subset_examined_iff :
    p.within limit ⊆ (p.examined limit).map Prod.fst ↔
      ∀ c, (c, 0) ∈ p.examined limit → ∀ b ∈ p.definitions.callees limit c,
        b ∈ p.within limit → b ∈ (p.examined limit).map Prod.fst := by
  have complete := (p.visits_examined limit).complete_iff
  simp only [DepthFirst.mem_layer_reverse, List.mem_reverse, ← mem_within] at complete
  rw [← complete]
  constructor
  · exact fun subset n inside c inLayer => subset (mem_within.mpr ⟨n, inside, inLayer⟩)
  · intro layers c reached
    obtain ⟨n, inside, inLayer⟩ := mem_within.mp reached
    exact layers n inside c inLayer

end Program

namespace Source

variable {source : Source} {tokens : List Token} {before after : Dictionary} {p : Program}

/-- A check of a program adds up its loops and those of the bodies that it examines, in the order
of the visit. -/
theorem run_check (parsed : (source.parse tokens).run before = .ok p after)
    (quiet : p.IsQuiet source.limit) :
    outcome ((source.check tokens).run before) =
      p.definitions.tally source.limit p.loops
        ((p.examined source.limit).map Prod.fst).reverse := by
  have own := run_ownLoops source tokens before
  rw [parsed] at own
  obtain ⟨calls, counted, named, known⟩ := own
  obtain rfl := definitions_eq parsed
  rw [check, run_bind_of_ok counted]
  have quietVisit : LoopCheck.Quiet p.definitions source.limit
      (fun c => (p.definitions.callees source.limit c).reverse) source.limit.toNat
      p.callees.reverse := by
    intro n inside c inLayer q left compiled
    exact quiet c (Program.mem_within.mpr ⟨n, inside, DepthFirst.mem_layer_reverse.mp inLayer⟩)
      q left compiled
  obtain ⟨new, visited, ended⟩ := LoopCheck.run_countWithin
    (DepthFirst.visits_visit source.limit.toNat p.callees.reverse []) quietVisit known named
    ⟨p.loops, {}⟩ (fun c => by simp [CallTable.contains, CallTable.find?_empty])
  rw [List.append_nil] at visited
  subst visited
  rw [Program.examined]
  cases total : p.definitions.tally source.limit p.loops ((DepthFirst.visit (fun c =>
    (p.definitions.callees source.limit c).reverse) source.limit.toNat p.callees.reverse []).map
      Prod.fst).reverse with
  | error e =>
    rw [total] at ended
    obtain ⟨left, failed⟩ := ended
    rw [run_bind_of_error failed]
    rfl
  | ok n =>
    rw [total] at ended
    obtain ⟨table, -, ran⟩ := ended
    rw [run_bind_of_ok ran]
    rfl

/-- What a check covers, for a program whose bodies declare nothing. It adds up the loops of the
program and of the calls that it examines, which are distinct and within reach. It examines all
calls within reach exactly when none is missed behind a call that was first met at the limit, and
its answer is the documented one exactly when a body that it examines does not compile or all that
it misses compile and hold no loop. -/
theorem check_eq_reachedLoops_iff (parsed : (source.parse tokens).run before = .ok p after)
    (quiet : p.IsQuiet source.limit) :
    ∃ examined, examined = (p.examined source.limit).map Prod.fst ∧ examined.Nodup ∧
      examined ⊆ p.within source.limit ∧
      outcome ((source.check tokens).run before) =
        p.definitions.tally source.limit p.loops examined.reverse ∧
      (p.within source.limit ⊆ examined ↔ ∀ c, (c, 0) ∈ p.examined source.limit →
        ∀ b ∈ p.definitions.callees source.limit c, b ∈ p.within source.limit → b ∈ examined) ∧
      ((outcome ((source.check tokens).run before)).toOption = p.reachedLoops source.limit ↔
        (∃ c ∈ examined, (p.definitions.body source.limit c).isOk = false) ∨
        ∀ c ∈ p.within source.limit, c ∉ examined →
          (p.definitions.body source.limit c).isOk ∧
            p.definitions.loopsOf source.limit c = 0) := by
  have distinct := p.nodup_examined source.limit
  have reached := p.examined_subset_within source.limit
  refine ⟨_, rfl, distinct, reached, run_check parsed quiet,
    Program.within_subset_examined_iff, ?_⟩
  have answer := LoopCheck.tally_eq_iff p.definitions source.limit p.loops
    (List.nodup_reverse.mpr distinct) (p.nodup_within source.limit)
    (fun c listed => reached (List.mem_reverse.mp listed))
  simp only [List.mem_reverse] at answer
  rw [run_check parsed quiet]
  exact answer

end Source

namespace LoopCheck

instance (p : Program) (limit : Int) : Decidable (p.IsQuiet limit) :=
  decidable_of_iff
    ((p.within limit).all fun c => match p.definitions.compile limit c with
      | .ok _ left => decide (left = p.definitions)
      | .error .. => true) <| by
    rw [List.all_eq_true]
    apply forall₂_congr
    intro c _
    cases p.definitions.compile limit c with
    | ok q left =>
      rw [decide_eq_true_iff]
      exact ⟨by rintro same _ _ ⟨⟩; exact same, fun kept => kept q left rfl⟩
    | error e left => exact ⟨fun _ => nofun, fun _ => rfl⟩

/-- Declarations by which a loop is three calls away from a call of `h` and two from one of `g`,
with some calls behind them. -/
def behindTwoChains (calls : String) : Text := "§k = [-]\n§g = k\n§h = g\n".toList ++ calls.toList

/-- The program of a text whose bodies declare nothing, with its answers: that of a check and the
documented one. -/
theorem exists_answers {text : Text} {limit : Int} {checked : Option Nat} {reached : Option Nat}
    (evaluated : ((tokenize [] text).toOption.bind fun tokens =>
      (outcome (((Source.ofText [] text limit).parse tokens).run {})).toOption.map fun p =>
        (decide (p.IsQuiet limit),
          (outcome (((Source.ofText [] text limit).check tokens).run {})).toOption,
          p.reachedLoops limit)) = some (true, checked, reached)) :
    ∃ tokens p after, ((Source.ofText [] text limit).parse tokens).run {} = .ok p after ∧
      p.IsQuiet limit ∧
      (outcome (((Source.ofText [] text limit).check tokens).run {})).toOption = checked ∧
      p.reachedLoops limit = reached := by
  cases lexed : tokenize [] text with
  | error e => rw [lexed] at evaluated; cases evaluated
  | ok tokens =>
    rw [lexed] at evaluated
    cases parsed : ((Source.ofText [] text limit).parse tokens).run {} with
    | error e after => simp [parsed, outcome, Except.toOption] at evaluated
    | ok p after =>
      simp only [Except.toOption, Option.bind_some, parsed, outcome, Option.map_some,
        Option.some.injEq, Prod.mk.injEq, decide_eq_true_eq] at evaluated
      exact ⟨tokens, p, after, parsed, evaluated⟩

/-- Within two calls the loop is reached from `g`. Called behind `g`, `h` is examined first and
takes `g` to the limit, so the loop is missed; in the other order it is counted. -/
theorem check_misses_shorter_chain :
    (∃ tokens p after, ((Source.ofText [] (behindTwoChains "g h") 2).parse tokens).run {} =
        .ok p after ∧ p.IsQuiet 2 ∧
      (outcome (((Source.ofText [] (behindTwoChains "g h") 2).check tokens).run {})).toOption =
        some 0 ∧ p.reachedLoops 2 = some 1) ∧
    (∃ tokens p after, ((Source.ofText [] (behindTwoChains "h g") 2).parse tokens).run {} =
        .ok p after ∧ p.IsQuiet 2 ∧
      (outcome (((Source.ofText [] (behindTwoChains "h g") 2).check tokens).run {})).toOption =
        some 1 ∧ p.reachedLoops 2 = some 1) :=
  ⟨exists_answers (by decide +kernel), exists_answers (by decide +kernel)⟩

/-- One call further down the answer is the documented one, so nothing that counts is missed. -/
theorem check_reaches_longer_chain :
    ∃ tokens p after examined,
      ((Source.ofText [] (behindTwoChains "g h") 3).parse tokens).run {} = .ok p after ∧
      p.IsQuiet 3 ∧ examined ⊆ p.within 3 ∧
      outcome (((Source.ofText [] (behindTwoChains "g h") 3).check tokens).run {}) =
        p.definitions.tally 3 p.loops examined.reverse ∧
      ((∃ c ∈ examined, (p.definitions.body 3 c).isOk = false) ∨
        ∀ c ∈ p.within 3, c ∉ examined →
          (p.definitions.body 3 c).isOk ∧ p.definitions.loopsOf 3 c = 0) := by
  have answers : ∃ tokens p after,
      ((Source.ofText [] (behindTwoChains "g h") 3).parse tokens).run {} = .ok p after ∧
        p.IsQuiet 3 ∧
        (outcome (((Source.ofText [] (behindTwoChains "g h") 3).check tokens).run {})).toOption =
          some 1 ∧ p.reachedLoops 3 = some 1 := exists_answers (by decide +kernel)
  obtain ⟨tokens, p, after, parsed, quiet, checked, reached⟩ := answers
  obtain ⟨examined, -, -, subset, added, -, answer⟩ :=
    Source.check_eq_reachedLoops_iff parsed quiet
  exact ⟨tokens, p, after, examined, parsed, quiet, subset, added,
    answer.mp (checked.trans reached.symm)⟩

end LoopCheck
end TapeLang
