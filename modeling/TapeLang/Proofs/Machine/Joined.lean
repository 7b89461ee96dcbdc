import TapeLang.Proofs.Expansion.Involved
import TapeLang.Proofs.Machine.Compiled
import TapeLang.Proofs.Machine.Tracking
import TapeLang.Proofs.Program.Joined

/-! Texts that are evaluated in turn and texts that are evaluated at once. In the joined text every
declaration of the second one is there while the first one runs; but what the first one calls was
read without it, and is compiled to the same instructions with it. -/
namespace TapeLang

namespace Dictionary

/-- Definitions of which another dictionary has more, places aside, with none of them under the
name of an instruction. -/
def Precedes (now later : Dictionary) : Prop :=
  ∃ more : Dictionary, more.Extends now ∧ more.Alike later ∧ ∀ command : Command,
    now.find? command.name.toList = none → more.find? command.name.toList = none

variable {now later : Dictionary} {limit : Int} {c : Call} {p : Program}

theorem Precedes.of_alike (alike : now.Alike later) : now.Precedes later :=
  ⟨now, .refl now, alike, fun _ absent => absent⟩

theorem Precedes.find? (precedes : now.Precedes later) {name : Text} {d : Definition}
    (found : now.find? name = some d) : ∃ e, later.find? name = some e ∧ d.Alike e := by
  obtain ⟨more, extended, alike, -⟩ := precedes
  exact alike.exists_find? (find?_extends extended found)

theorem compile_elsewhere (compiled : now.compile limit c = .ok p now) (alike : now.Alike later) :
    ∃ q, later.compile limit c = .ok q later ∧ q.instructions = p.instructions := by
  cases found : now.find? c.name with
  | none => rw [compile, found] at compiled; cases compiled
  | some d =>
    obtain ⟨e, found', same⟩ := alike.exists_find? found
    have bodies := Definition.compile_alike same c.args limit alike
    rw [compile, found] at compiled
    dsimp only at compiled
    rw [compiled] at bodies
    generalize result : (e.compile c.args limit).run later = ended at bodies
    cases bodies with
    | @ok _ q _ left code alike' =>
      have compiled' : later.compile limit c = .ok q left := by
        rw [compile, found']
        exact result
      -- it declares as much as the other one, which is nothing
      have size : left.toList.length ≤ later.toList.length := by
        have one := congrArg List.length (alike_iff.mp alike)
        have other := congrArg List.length (alike_iff.mp alike')
        simp only [List.length_map] at one other
        omega
      have unchanged : left = later := (compile_extends compiled').eq_of_length_le size
      exact ⟨q, unchanged ▸ compiled', code⟩

/-- A body that declares nothing is compiled to the same instructions where more is declared. -/
theorem Precedes.compile (precedes : now.Precedes later)
    (compiled : now.compile limit c = .ok p now) :
    ∃ q, later.compile limit c = .ok q later ∧ q.instructions = p.instructions := by
  obtain ⟨more, extended, alike, unnamed⟩ := precedes
  obtain ⟨q, again, same⟩ := compile_again compiled extended fun word member => by
    obtain ⟨command, rfl⟩ := isName_of_mem_instructionWords compiled member
    exact unnamed command
  obtain ⟨r, elsewhere, same'⟩ := compile_elsewhere again alike
  exact ⟨r, elsewhere, same'.trans same⟩

end Dictionary

namespace Tables

/-- The bodies that are kept of calls that are looked at make such calls only. -/
def CallsWithin (t : Tables) (Called : Call → Prop) : Prop :=
  ∀ c p, Called c → t.compiled.find? c = some p → ∀ callee ∈ p.callees, Called callee

theorem CallsWithin.insert {t : Tables} {Called : Call → Prop} (within : t.CallsWithin Called)
    {p : Program} (callees : ∀ callee ∈ p.callees, Called callee) (c : Call)
    (definitions : Dictionary) :
    CallsWithin ⟨definitions, t.compiled.insert c p⟩ Called := by
  intro d body called found
  dsimp only at found
  rw [CallTable.find?_insert] at found
  split at found
  · cases found
    exact callees
  · exact within d body called found

/-- Tables that keep bodies of the same instructions for the same calls. -/
structure Abreast (Called : Call → Prop) (now later : Dictionary) (s t : Tables) : Prop where
  now : s.definitions = now
  later : t.definitions = later
  kept : ∀ c, (t.compiled.find? c).map (·.instructions) =
    (s.compiled.find? c).map (·.instructions)
  within : s.CallsWithin Called

end Tables

/-- How a machine that has read a program is compared with one that has read more at once. -/
def readAhead (Called : Call → Prop) (p r : Program) (offset extra : Nat) : Tracking where
  Called := Called
  Tabled := Tables.Abreast Called p.definitions r.definitions
  offset := offset
  part := p.instructions
  whole := r.instructions
  extra := extra

section

variable {final : Dictionary} {texts : List Text} {p q r : Program} {offset extra : Nat}

theorem keepsBodies_readAhead (free : ∀ c, Involved final texts c → c.SigilFree final)
    (extended : final.Extends p.definitions) (precedes : p.definitions.Precedes r.definitions)
    (limit : Int) :
    (readAhead (Involved final texts) p r offset extra).KeepsBodies limit limit := by
  rintro ⟨_, compiled⟩ ⟨_, compiled'⟩ c body s' ⟨rfl, rfl, kept, within⟩ called gives
  dsimp only at kept
  have same := kept c
  cases gives with
  | kept known =>
    rw [show compiled.find? c = some body from known] at same
    obtain ⟨other, known', code⟩ := Option.map_eq_some_iff.mp same
    exact ⟨within c body called known, other, _, .kept known', code, rfl, rfl, kept, within⟩
  | compiled unknown found form made =>
    obtain ⟨rfl, callees⟩ := Dictionary.involved_of_compile free made extended called
    rw [show compiled.find? c = none from unknown] at same
    have unknown' : compiled'.find? c = none := Option.map_eq_none_iff.mp same
    obtain ⟨other, made', code⟩ := precedes.compile made
    obtain ⟨e, found', alike⟩ := precedes.find? found
    have form' := (Definition.isLikeness_alike.kind alike).trans form
    refine ⟨callees, other, _, .compiled unknown' found' form' made', code, rfl, rfl, ?_,
      within.insert callees c _⟩
    intro d
    dsimp only
    rw [CallTable.find?_insert, CallTable.find?_insert]
    split
    · exact congrArg some code
    · exact kept d

/-- A program that was read where the last definitions were yet to come, and that calls what texts
involve by these. -/
structure Program.ReadFrom (p : Program) (texts : List Text) (final : Dictionary) : Prop where
  parsed : ∃ (source : Source) (tokens : List Token) (before : Dictionary),
    (source.parse tokens).run before = .ok p p.definitions
  callees : ∀ c ∈ p.callees, Involved final texts c
  extended : final.Extends p.definitions

theorem Program.ReadFrom.isBound (read : p.ReadFrom texts final) : p.IsBound := by
  obtain ⟨source, tokens, before, parsed⟩ := read.parsed
  exact Source.isBound_of_parse parsed

/-- The place of a program in a longer one is a window of its code. -/
theorem Program.IsBound.window {first rest : List Operation} (bound : p.IsBound)
    (bound' : r.IsBound) (operations : r.operations = first ++ p.operations ++ rest) :
    Window first.length p.instructions r.instructions := by
  have binds' : Binds r.operations (LoopBinder.partner? ⟨r.instructions, []⟩) [] := bound'
  rw [operations] at binds'
  intro k instruction found
  have op : p.operations[k]? = some instruction.op := by simp [Program.operations, found]
  have low := lt_length_of_found op
  have op' : r.operations[first.length + k]? = some instruction.op := by
    rw [operations, getElem?_append_within low, op]
  have partner := Binds.partner_append bound binds' low
  simp only [LoopBinder.partner?, found] at partner
  cases found' : r.instructions[first.length + k]? with
  | none => simp [Program.operations, found'] at op'
  | some other =>
    rw [found'] at partner
    simp only [Program.operations, List.getElem?_map, Array.getElem?_toList, found',
      Option.map_some, Option.some.injEq] at op'
    exact ⟨other, rfl, op', partner⟩

namespace Interpreter

variable {i : Interpreter} {m n u : Machine} {Called : Call → Prop}

theorem readFrom_of_parse {source : Source} {tokens : List Token} {before : Dictionary}
    {file text : Text} (free : ∀ c, Involved final texts c → c.SigilFree final)
    (member : text ∈ texts) (lexed : tokenize file text = .ok tokens)
    (parsed : (source.parse tokens).run before = .ok p p.definitions)
    (extended : final.Extends p.definitions) : p.ReadFrom texts final :=
  ⟨⟨source, tokens, before, parsed⟩,
    Source.involved_of_parse free member lexed parsed extended, extended⟩

theorem valid_readAhead (bare : i.IsBare)
    (free : ∀ c, Involved final texts c → c.SigilFree final) (read : p.ReadFrom texts final)
    (precedes : p.definitions.Precedes r.definitions)
    (window : Window offset p.instructions r.instructions) (extra : Nat) :
    (readAhead (Involved final texts) p r offset extra).Valid i i where
  bare := bare
  bare' := bare
  sink := rfl
  room := Int.le_refl _
  window := window
  safe := by
    obtain ⟨source, tokens, before, parsed⟩ := read.parsed
    exact ⟨p.definitions, Source.codeSafe parsed⟩
  calls := read.callees
  bodies := keepsBodies_readAhead free read.extended precedes _

theorem tracks_entering (within : m.tables.CallsWithin Called) (size : r.size = p.size + extra) :
    (readAhead Called p r 0 extra).Tracks (m.entering p) (m.entering r) where
  world := ⟨.refl _, rfl, rfl, by
    simp [Machine.world, Machine.entering, Machine.opened, Machine.holding, Counters.enlarged,
      readAhead, size, Nat.add_assoc]⟩
  frames := .outermost ⟨rfl, rfl, rfl, Nat.zero_le _⟩
  tables := ⟨rfl, rfl, fun _ => rfl, within⟩

/-- Where the one machine reads the second text, the other one goes on. -/
theorem tracks_passed (passed : (readAhead Called p r 0 q.size).Passed u n) :
    (readAhead Called q r p.size 0).Tracks (u.entering q) n where
  world := ⟨passed.world.tape, passed.world.input, passed.world.output, passed.world.counters⟩
  frames := by
    obtain ⟨g, stack, whole, cursor⟩ := passed.frame
    rw [stack]
    exact .outermost ⟨rfl, whole, cursor.trans (Nat.zero_add _), Nat.zero_le _⟩
  tables := ⟨rfl, passed.tables.later, passed.tables.kept, passed.tables.within⟩

/-- A program whose calls hold no sigils declares nothing while it is executed. -/
theorem definitions_of_execute (bare : i.IsBare)
    (free : ∀ c, Involved final texts c → c.SigilFree final) (read : p.ReadFrom texts final)
    (within : m.tables.CallsWithin (Involved final texts)) {fuel : Nat} {ending : Ending}
    (ran : (i.execute fuel).run (m.entering p) = .ok ending u) :
    u.definitions = p.definitions := by
  have valid := valid_readAhead bare free read (.of_alike (.refl _)) (.refl _) 0
  obtain ⟨_, -, -, tables⟩ :=
    valid.execute (Nat.le_of_eq (Nat.zero_add _).symm) (tracks_entering within rfl) ran
  exact tables.now

/-- What is kept of the calls that texts involve is what they involve too. -/
theorem Cached.callsWithin (cached : i.Cached m)
    (free : ∀ c, Involved final texts c → c.SigilFree final)
    (extended : final.Extends m.definitions) : m.tables.CallsWithin (Involved final texts) := by
  intro c body called found
  obtain ⟨before, compiled, grown⟩ := cached c body found
  have behind := extended.trans (grown.trans (Dictionary.compile_extends compiled))
  exact (Dictionary.involved_of_compile free compiled behind called).2

/-- A machine that executes the operations of two programs does what executing the one and then
the other does. -/
theorem execute_join (bare : i.IsBare)
    (free : ∀ c, Involved final texts c → c.SigilFree final) (read : p.ReadFrom texts final)
    (read' : q.ReadFrom texts final)
    (bound : r.IsBound) (operations : r.operations = p.operations ++ q.operations)
    (precedes : p.definitions.Precedes r.definitions)
    (precedes' : q.definitions.Precedes r.definitions)
    (within : m.tables.CallsWithin (Involved final texts)) {fuel fuel' : Nat} {v : Machine}
    (executed : (i.execute fuel).run (m.entering p) = .ok .finished u)
    (executed' : (i.execute fuel').run (u.entering q) = .ok .finished v) :
    ∃ w, (i.execute (fuel + fuel')).run (m.entering r) = .ok .finished w ∧ w.world = v.world ∧
      v.definitions = q.definitions ∧ w.definitions = r.definitions := by
  have size : r.size = p.size + q.size := by
    simpa [Program.operations, Program.size] using congrArg List.length operations
  have front : Window 0 p.instructions r.instructions :=
    read.isBound.window bound
      (show r.operations = [] ++ p.operations ++ q.operations from operations)
  have back : Window p.size q.instructions r.instructions := by
    have window := read'.isBound.window bound
      (show r.operations = p.operations ++ q.operations ++ [] by rw [operations, List.append_nil])
    simpa [Program.operations, Program.size] using window
  have valid := valid_readAhead bare free read precedes front q.size
  obtain ⟨l, n, less, turns, passed⟩ := valid.passes (tracks_entering within size) executed
  have valid' := valid_readAhead bare free read' precedes' back 0
  obtain ⟨w, ran, world, tables⟩ :=
    valid'.execute (Nat.le_of_eq size) (tracks_passed passed) executed'
  have joined : (i.execute (l + fuel')).run (m.entering r) = .ok .finished w := by
    rw [turns.run_execute, ran]
  refine ⟨w, ?_, ?_, tables.now, tables.later⟩
  · obtain ⟨rest, rfl⟩ := Nat.exists_eq_add_of_lt less
    rw [show l + rest + 1 + fuel' = l + fuel' + (rest + 1) by omega,
      run_execute_add (halts_of_finished joined), joined]
  · have sized : u.tape.size = (m.entering p).tape.size := bare.tapeSize_execute executed
    have sized' : v.tape.size = (u.entering q).tape.size := bare.tapeSize_execute executed'
    have sizedAll : w.tape.size = (m.entering r).tape.size := bare.tapeSize_execute joined
    exact world.eq_of_size (sizedAll.trans (sized'.trans sized).symm)

/-- Two texts that are evaluated in turn can be evaluated at once, with a line end between them,
and leave the same output, input and tape, the same counters and the same definitions, but for the
places of these. -/
theorem evaluate_join (bare : i.IsBare) {history : List Request} {input : List Int}
    {fuel fuel' : Nat} {file file' first second : Text} {v : Machine}
    (ran : (i.evaluate fuel file first).run (i.after history (i.start input)) =
      .ok (p, .finished) u)
    (ran' : (i.evaluate fuel' file' second).run u = .ok (q, .finished) v)
    (free : ∀ c, Involved v.definitions [first, second] c → c.SigilFree v.definitions)
    (unnamed : ∀ command : Command, u.definitions.find? command.name.toList = none →
      v.definitions.find? command.name.toList = none) (file'' : Text) :
    ∃ r w, (i.evaluate (fuel + fuel') file'' (first ++ '\n' :: second)).run
        (i.after history (i.start input)) = .ok (r, .finished) w ∧
      w.output = v.output ∧ w.input = v.input ∧ w.tape = v.tape ∧ w.counters = v.counters ∧
      v.definitions.Alike w.definitions := by
  have cached := i.cached_after history input
  generalize i.after history (i.start input) = m at ran cached ⊢
  obtain ⟨read, executed⟩ := bare.evaluate_eq_ok_iff.mp ran
  obtain ⟨read', executed'⟩ := bare.evaluate_eq_ok_iff.mp ran'
  obtain ⟨tokens, lexed, parsed⟩ := exists_parse_of_readText read
  obtain ⟨more, lexed', parsed'⟩ := exists_parse_of_readText read'
  -- the last definitions hold all others in front
  have grown : p.definitions.Extends m.definitions := (Source.grows_parse _ _ _).of_ok parsed
  have grown' : q.definitions.Extends u.definitions := (Source.grows_parse _ _ _).of_ok parsed'
  have kept : u.definitions.Extends p.definitions :=
    ((i.grows_execute fuel _).of_ok executed).definitions
  have kept' : v.definitions.Extends q.definitions :=
    ((i.grows_execute fuel' _).of_ok executed').definitions
  have behind : v.definitions.Extends p.definitions := kept'.trans (grown'.trans kept)
  have front := readFrom_of_parse free (by simp) lexed parsed behind
  have back := readFrom_of_parse free (by simp) lexed' parsed' kept'
  have within := cached.callsWithin free (behind.trans grown)
  have unchanged : u.definitions = p.definitions :=
    definitions_of_execute bare free front within executed
  -- the joined text reads as both programs
  obtain ⟨heads, last, joined, rfl, ends, unended, lexed'', spelled⟩ :=
    exists_tokenize_join lexed lexed' file''
  rw [unchanged] at parsed'
  obtain ⟨r, left, parsed'', operations, alike⟩ := Source.exists_parse_join
    parsed parsed' ends unended spelled (i.sourceOf file'' (first ++ '\n' :: second)) rfl rfl
  obtain rfl := Source.definitions_eq parsed''
  have precedes : p.definitions.Precedes r.definitions := by
    refine ⟨q.definitions, unchanged ▸ grown', alike, fun command absent => ?_⟩
    rw [← unchanged] at absent
    have absent' := unnamed command absent
    cases found : q.definitions.find? command.name.toList with
    | none => rfl
    | some d => cases (Dictionary.find?_extends kept' found).symm.trans absent'
  obtain ⟨w, ran'', world, same, same'⟩ :=
    execute_join bare free front back (Source.isBound_of_parse parsed'') operations precedes
      (.of_alike alike) within executed executed'
  have read'' : i.readText file'' (first ++ '\n' :: second) m.definitions = .ok r := by
    rw [readText_of_tokenize lexed'', parsed'']
    rfl
  refine ⟨r, w, bare.evaluate_eq_ok_iff.mpr ⟨read'', ran''⟩, congrArg World.output world,
    congrArg World.input world, congrArg World.tape world, congrArg World.counters world, ?_⟩
  rw [same, same']
  exact alike

/-- A text that calls what was declared before it, and what it declares itself. -/
def firstEntry : Text := "§add(n) = n\nadd(+) show".toList

/-- A text that calls what the first one declares, and a macro of its own. -/
def secondEntry : Text := "$twice(n) = add(n) add(n)\n[-] twice(+) show".toList

/-- The machine on which the entries are evaluated. -/
def beforeEntries : Machine :=
  scratch.after [.evaluate 9 [] "§show = .".toList] (scratch.start [])

/-- The two entries write one and two, and so they do at once. -/
theorem evaluate_join_entries : ∃ p u q v r w,
    (scratch.evaluate 30 [] firstEntry).run beforeEntries = .ok (p, .finished) u ∧
    (scratch.evaluate 30 [] secondEntry).run u = .ok (q, .finished) v ∧ v.output = #[1, 2] ∧
    (scratch.evaluate 60 [] (firstEntry ++ '\n' :: secondEntry)).run beforeEntries =
      .ok (r, .finished) w ∧ w.output = #[1, 2] ∧ w.tape = v.tape ∧ w.counters = v.counters := by
  let one := (scratch.evaluate 30 [] firstEntry).run beforeEntries
  let two := (scratch.evaluate 30 [] secondEntry).run (endState one)
  have ends : (outcome one).toOption.map (·.2) = some .finished ∧
      (outcome two).toOption.map (·.2) = some .finished ∧ (endState two).output = #[1, 2] := by
    decide +kernel
  have quiet : ∀ d ∈ (endState two).definitions.toList,
      Text.SigilFree d.body ∧ Command.ofText? d.name = none := by
    decide +kernel
  have plain : ∀ text ∈ [firstEntry, secondEntry],
      ∀ t ∈ (tokenize [] text).toOption.getD [], t.kind = .word → Text.SigilFree t.value := by
    decide +kernel
  obtain ⟨ended, ended', output⟩ := ends
  cases ran : one with
  | error fault u => rw [ran] at ended; cases ended
  | ok answer u =>
    cases ran' : two with
    | error fault v => rw [ran'] at ended'; cases ended'
    | ok answer' v =>
      obtain ⟨p, ending⟩ := answer
      obtain ⟨q, ending'⟩ := answer'
      rw [ran] at ended
      rw [ran'] at ended' quiet output
      cases ended
      cases ended'
      have ran₂ : (scratch.evaluate 30 [] secondEntry).run u = .ok (q, .finished) v := by
        rw [← ran', show u = endState one by rw [ran]; rfl]
      have declared {name : Text} {d : Definition} (found : v.definitions.find? name = some d) :
          d ∈ v.definitions.toList := List.mem_of_find?_eq_some found
      have free (c : Call) (involved : Involved v.definitions [firstEntry, secondEntry] c) :
          c.SigilFree v.definitions := by
        apply involved.sigilFree
        · intro name d found
          exact (quiet d (declared found)).1
        · intro text member file tokens lexed
          have words := plain text member
          rw [Lexer.tokenize_elsewhere lexed []] at words
          exact words
      have unnamed (command : Command) (_ : u.definitions.find? command.name.toList = none) :
          v.definitions.find? command.name.toList = none := by
        cases found : v.definitions.find? command.name.toList with
        | none => rfl
        | some d =>
          have apart := (quiet d (declared found)).2
          rw [Dictionary.name_of_find? found, Command.ofText?_name] at apart
          cases apart
      obtain ⟨r, w, joined, written, -, tape, counters, -⟩ :=
        evaluate_join ⟨fun _ => rfl, rfl⟩ ran ran₂ free unnamed []
      exact ⟨p, u, q, v, r, w, ran, ran₂, output, joined, written.trans output, tape, counters⟩

end Interpreter
end
end TapeLang
