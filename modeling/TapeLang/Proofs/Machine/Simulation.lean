import TapeLang.Proofs.Machine.Turn

/-! The machine runs structured programs. A structured run is followed turn by turn, through
loops and calls, to the place where it ends or fails. A machine that halts has followed a
structured run, by induction on the number of turns. -/
namespace TapeLang.Interpreter

open Machine (At SameTables)

/-- So many turns. -/
inductive Turns (i : Interpreter) : Nat → Machine → Machine → Prop where
  | nil {m} : Turns i 0 m m
  | cons {n m m' m''} : i.Turn m m' → Turns i n m' m'' → Turns i (n + 1) m m''

variable {i : Interpreter} {dictionary : Dictionary} {m m' m'' : Machine} {n k : Nat}

theorem Turns.trans (first : i.Turns n m m') (second : i.Turns k m' m'') :
    i.Turns (n + k) m m'' := by
  induction first with
  | nil =>
    rw [Nat.zero_add]
    exact second
  | @cons n _ _ _ turn _ ih =>
    rw [Nat.add_right_comm]
    exact .cons turn (ih second)

theorem run_execute_succ {frame : Frame} {rest : List Frame} (stack : m.stack = frame :: rest)
    (fuel : Nat) :
    (i.execute (fuel + 1)).run m = (i.turn frame rest >>= fun _ => i.execute fuel).run m := by
  rw [execute, EStateM.run_bind, EStateM.run_get]
  dsimp only
  rw [stack, turn]
  dsimp only
  cases frame.code[frame.cursor]? <;> rfl

theorem Turns.run_execute (turns : i.Turns n m m') (fuel : Nat) :
    (i.execute (n + fuel)).run m = (i.execute fuel).run m' := by
  induction turns with
  | nil => rw [Nat.zero_add]
  | @cons n _ _ _ turn _ ih =>
    obtain ⟨frame, rest, stack, turned⟩ := turn
    rw [Nat.add_right_comm, run_execute_succ stack, run_bind_of_ok turned, ih]

theorem Fails.run_execute {fault : Fault} (fails : i.Fails m fault m') (fuel : Nat) :
    (i.execute (fuel + 1)).run m = .error fault m' := by
  obtain ⟨frame, rest, stack, failed⟩ := fails
  rw [run_execute_succ stack, run_bind_of_error failed]

theorem run_execute_empty (empty : m.stack = []) (fuel : Nat) :
    (i.execute (fuel + 1)).run m = .ok .finished m := by
  rw [execute, EStateM.run_bind, EStateM.run_get]
  dsimp only
  rw [empty]
  rfl

/-- The definitions are those of a dictionary, and the calls compiled so far are what compiling
them gives. -/
structure Settled (i : Interpreter) (dictionary : Dictionary) (m : Machine) : Prop where
  definitions : m.definitions = dictionary
  compiled : ∀ c p, m.compiled.find? c = some p →
    dictionary.compile i.setup.expansionLimit c = .ok p dictionary

theorem Settled.congr (settled : i.Settled dictionary m) (same : SameTables m m') :
    i.Settled dictionary m' := by
  refine ⟨same.1.trans settled.definitions, ?_⟩
  intro c p found
  rw [same.2] at found
  exact settled.compiled c p found

/-- A body of a settled machine that declares nothing is what compiling its call gives. -/
theorem Settled.bodyOf (settled : i.Settled dictionary m) {target : Text} {args : List Text}
    {p : Program} {u : Machine} (ran : (i.bodyOf target args).run m = .ok p u) (kept : u.definitions = dictionary) :
    dictionary.compile i.setup.expansionLimit ⟨target, args⟩ = .ok p dictionary ∧
      i.Settled dictionary u := by
  rcases bodyOf_cases ran with ⟨known, rfl⟩ | ⟨-, left, compiled, rfl⟩
  · exact ⟨settled.compiled _ p known, settled⟩
  · cases kept
    rw [settled.definitions] at compiled
    refine ⟨compiled, rfl, ?_⟩
    intro c q inserted
    rw [CallTable.find?_insert] at inserted
    split at inserted
    · rename_i one
      cases inserted
      rw [one]
      exact compiled
    · exact settled.compiled c q inserted

/-- From here on no turn changes the definitions. -/
structure Steady (i : Interpreter) (dictionary : Dictionary) (m : Machine) : Prop where
  quiet : ∀ n m', i.Turns n m m' → m'.definitions = dictionary
  settled : i.Settled dictionary m

namespace Steady

theorem turn (steady : i.Steady dictionary m) (turn : i.Turn m m') (same : SameTables m m') :
    i.Steady dictionary m' := by
  constructor
  · intro n m'' turns
    exact steady.quiet (n + 1) m'' (.cons turn turns)
  · exact steady.settled.congr same

/-- The body of a call is what compiling it gives, whether it was compiled before or not. -/
theorem body (steady : i.Steady dictionary m) {target : Text} {d : Definition}
    (found : dictionary.find? target = some d) (form : d.kind = .functionForm)
    (args : List Text) :
    (∃ e u, dictionary.body i.setup.expansionLimit ⟨target, args⟩ = .error e ∧
      (i.bodyOf target args).run m = .error (.source e) u ∧ u.world = m.world) ∨
    ∃ p u, dictionary.body i.setup.expansionLimit ⟨target, args⟩ = .ok p ∧
      (i.bodyOf target args).run m = .ok p u ∧ u.world = m.world ∧
      ∀ m', i.Turn m m' → SameTables u m' → i.Steady dictionary m' ∧
        dictionary.compile i.setup.expansionLimit ⟨target, args⟩ = .ok p dictionary := by
  have definitions := steady.settled.definitions
  cases ran : (i.bodyOf target args).run m with
  | error fault u =>
    left
    have refused := run_bodyOf (i := i) (definitions ▸ found) form args
    rw [ran, definitions] at refused
    cases known : m.compiled.find? ⟨target, args⟩ with
    | some p => rw [known] at refused; cases refused
    | none =>
      rw [known] at refused
      dsimp only at refused
      cases compiled : dictionary.compile i.setup.expansionLimit ⟨target, args⟩ with
      | ok p left => rw [compiled] at refused; cases refused
      | error e left =>
        rw [compiled] at refused
        cases refused
        refine ⟨e, _, ?_, rfl, rfl⟩
        rw [Dictionary.body, compiled]
        rfl
  | ok p u =>
    right
    refine ⟨p, u, ?_, rfl, ?_, ?_⟩
    · rw [Dictionary.body]
      rcases bodyOf_cases ran with ⟨known, -⟩ | ⟨-, left, compiled, -⟩
      · rw [steady.settled.compiled _ p known]
        rfl
      · rw [definitions] at compiled
        rw [compiled]
        rfl
    · rcases bodyOf_cases ran with ⟨-, rfl⟩ | ⟨-, left, -, rfl⟩ <;> rfl
    · intro m' turn same
      have kept := same.1.symm.trans (steady.quiet 1 m' (.cons turn .nil))
      obtain ⟨compiled, settled⟩ := steady.settled.bodyOf ran kept
      refine ⟨⟨?_, settled.congr same⟩, compiled⟩
      intro n m'' turns
      exact steady.quiet (n + 1) m'' (.cons turn turns)

end Steady

/-- What a machine above other frames does that follows a structured run. -/
def Follows (i : Interpreter) (dictionary : Dictionary) (m : Machine) (code : Array Instruction)
    (stop : Nat) (rest : List Frame) : RunResult → Prop
  | .ok () u => ∃ n m', i.Turns n m m' ∧ At m' code stop rest u ∧ i.Steady dictionary m'
  | .error fault u => ∃ n m' m'', i.Turns n m m' ∧ i.Fails m' fault m'' ∧ m''.world = u

theorem Follows.of_turns {code : Array Instruction} {stop : Nat} {rest : List Frame}
    {result : RunResult} (turns : i.Turns n m m')
    (follows : i.Follows dictionary m' code stop rest result) :
    i.Follows dictionary m code stop rest result := by
  cases result with
  | ok u w =>
    obtain ⟨k, m'', later, there⟩ := follows
    exact ⟨_, m'', turns.trans later, there⟩
  | error fault w =>
    obtain ⟨k, last, failed, later, fails⟩ := follows
    exact ⟨_, last, failed, turns.trans later, fails⟩

theorem Follows.of_turn {code : Array Instruction} {stop : Nat} {rest : List Frame}
    {result : RunResult} (turn : i.Turn m m')
    (follows : i.Follows dictionary m' code stop rest result) :
    i.Follows dictionary m code stop rest result :=
  follows.of_turns (.cons turn .nil)

/-- The calls of a list of instructions name functions of a dictionary. -/
def CallsFunctions (dictionary : Dictionary) (code : Array Instruction) : Prop :=
  ∀ (j : Nat) (instruction : Instruction) (target : Text) (args : List Text),
    code[j]? = some instruction → instruction.op = .call target args →
    ∃ d, dictionary.find? target = some d ∧ d.kind = .functionForm

theorem callsFunctions_of_parse {source : Source} {tokens : List Token} {before : Dictionary}
    {p : Program} (parsed : (source.parse tokens).run before = .ok p dictionary) :
    CallsFunctions dictionary p.instructions := by
  intro j instruction target args found op
  have listed : .call target args ∈ p.instructions.toList.map (·.op) :=
    List.mem_map.mpr ⟨instruction, (Array.mem_of_getElem? found).val, op⟩
  obtain ⟨d, named, form, -⟩ := Source.resolves parsed target args listed
  exact ⟨d, named, form⟩

/-- The program of a call is laid out by its block and calls functions. -/
theorem code_of_compile {limit : Int} {c : Call} {p : Program}
    (compiled : dictionary.compile limit c = .ok p dictionary) :
    Laid p.instructions 0 p.block p.instructions.size ∧
      CallsFunctions dictionary p.instructions := by
  obtain ⟨source, tokens, parsed⟩ := Dictionary.exists_parse compiled
  exact ⟨Source.laid_block parsed, callsFunctions_of_parse parsed⟩

/-- The machine follows every structured run. -/
theorem follows_of_runs (bare : i.IsBare) {depth : Nat} {block : List Statement} {w : World}
    {result : RunResult} (runs : Runs i dictionary depth block w result)
    {code : Array Instruction} {first stop : Nat} {rest : List Frame}
    (here : At m code first rest w) (laid : Laid code first block stop)
    (calls : CallsFunctions dictionary code) (steady : i.Steady dictionary m)
    (frames : depth = rest.length + 1) :
    i.Follows dictionary m code stop rest result := by
  induction runs generalizing m code first stop rest with
  | nil =>
    cases laid
    exact ⟨0, m, .nil, here, steady⟩
  | act acted _ ih =>
    cases laid with
    | act found op restLaid =>
      obtain ⟨m', turn, there, same⟩ := bare.turn_act here found op acted
      exact (ih there restLaid calls (steady.turn turn same) frames).of_turn turn
  | actFails acted =>
    cases laid with
    | act found op restLaid =>
      obtain ⟨m', fails, left⟩ := bare.fails_act here found op acted
      exact ⟨0, m, m', .nil, fails, left⟩
  | skip zero _ ih =>
    cases laid with
    | loop found op bound _ _ _ _ restLaid =>
      obtain ⟨m', turn, same, there⟩ := bare.turn_jump here found op bound
      rw [if_pos zero] at there
      exact (ih there restLaid calls (steady.turn turn same) frames).of_turn turn
  | bodyFails nonzero _ ih =>
    cases laid with
    | loop found op bound bodyLaid =>
      obtain ⟨m', turn, same, there⟩ := bare.turn_jump here found op bound
      rw [if_neg nonzero] at there
      obtain ⟨n, last, left, turns, fails, world⟩ :=
        ih there bodyLaid calls (steady.turn turn same) frames
      exact ⟨n + 1, last, left, .cons turn turns, fails, world⟩
  | leave nonzero _ zero _ ihBody ihRest =>
    cases laid with
    | loop found op bound bodyLaid closing opClosing boundClosing restLaid =>
      obtain ⟨m₁, turn, same, there⟩ := bare.turn_jump here found op bound
      rw [if_neg nonzero] at there
      obtain ⟨n, m₂, turns, atEnd, steadyEnd⟩ :=
        ihBody there bodyLaid calls (steady.turn turn same) frames
      obtain ⟨m₃, back, sameBack, behind⟩ := bare.turn_back atEnd closing opClosing boundClosing
      rw [if_pos zero] at behind
      have follows := ihRest behind restLaid calls (steadyEnd.turn back sameBack) frames
      exact ((follows.of_turn back).of_turns turns).of_turn turn
  | again nonzero _ nonzeroEnd _ ihBody ihAgain =>
    have whole := laid
    cases laid with
    | loop found op bound bodyLaid closing opClosing boundClosing restLaid =>
      obtain ⟨m₁, turn, same, there⟩ := bare.turn_jump here found op bound
      rw [if_neg nonzero] at there
      obtain ⟨n, m₂, turns, atEnd, steadyEnd⟩ :=
        ihBody there bodyLaid calls (steady.turn turn same) frames
      obtain ⟨m₃, back, sameBack, front⟩ := bare.turn_back atEnd closing opClosing boundClosing
      rw [if_neg nonzeroEnd] at front
      have follows := ihAgain front whole calls (steadyEnd.turn back sameBack) frames
      exact ((follows.of_turn back).of_turns turns).of_turn turn
  | tooDeep full =>
    cases laid with
    | call found op _ =>
      obtain ⟨m', fails, left⟩ := bare.fails_call here found op (frames ▸ full)
      exact ⟨0, m, m', .nil, fails, left⟩
  | refused room refused =>
    cases laid with
    | call found op _ =>
      obtain ⟨d, named, form⟩ := calls _ _ _ _ found op
      rcases steady.body named form _ with ⟨e, u, refused', ran, same⟩ | ⟨p, u, compiled, _⟩
      · cases refused.symm.trans refused'
        have fails := bare.fails_body here found op (frames ▸ room) ran
        exact ⟨0, m, u, .nil, fails, same.trans here.world⟩
      · cases refused.symm.trans compiled
  | calleeFails room compiled _ ih =>
    cases laid with
    | call found op _ =>
      obtain ⟨d, named, form⟩ := calls _ _ _ _ found op
      rcases steady.body named form _ with ⟨e, u, refused, _⟩ | ⟨p, u, compiled', ran, same, next⟩
      · cases compiled.symm.trans refused
      · cases compiled.symm.trans compiled'
        obtain ⟨m', caller, turn, tables, -, -, inside⟩ :=
          bare.turn_call here found op (frames ▸ room) ran (same.trans here.world)
        obtain ⟨steady', body⟩ := next m' turn tables
        obtain ⟨laid, callsInside⟩ := code_of_compile body
        obtain ⟨n, last, left, turns, fails, world⟩ :=
          ih inside laid callsInside steady' (by simp [frames])
        exact ⟨n + 1, last, left, .cons turn turns, fails, world⟩
  | call room compiled _ _ ihBody ihRest =>
    cases laid with
    | call found op restLaid =>
      obtain ⟨d, named, form⟩ := calls _ _ _ _ found op
      rcases steady.body named form _ with ⟨e, u, refused, _⟩ | ⟨p, u, compiled', ran, same, next⟩
      · cases compiled.symm.trans refused
      · cases compiled.symm.trans compiled'
        obtain ⟨m', caller, turn, tables, callerCode, callerCursor, inside⟩ :=
          bare.turn_call here found op (frames ▸ room) ran (same.trans here.world)
        obtain ⟨steady', body⟩ := next m' turn tables
        obtain ⟨laid, callsInside⟩ := code_of_compile body
        obtain ⟨n, m₂, turns, atEnd, steadyEnd⟩ :=
          ihBody inside laid callsInside steady' (by simp [frames])
        obtain ⟨m₃, back, sameBack, stack, left⟩ := turn_return atEnd (by simp)
        have there : At m₃ code (_ + 1) rest _ := ⟨⟨caller, stack, callerCode, callerCursor⟩, left⟩
        have follows := ihRest there restLaid calls (steadyEnd.turn back sameBack) frames
        exact ((follows.of_turn back).of_turns turns).of_turn turn

/-- The fuel is enough for the machine to end or to fail. -/
def Halts (i : Interpreter) (fuel : Nat) (m : Machine) : Prop :=
  ∀ m', (i.execute fuel).run m ≠ .ok .outOfFuel m'

theorem Halts.of_turns (turns : i.Turns k m m') (halts : i.Halts n m) :
    ∃ left, n = k + left ∧ i.Halts left m' := by
  induction turns generalizing n with
  | nil => exact ⟨n, by omega, halts⟩
  | @cons k m m₁ _ turn _ ih =>
    cases n with
    | zero => exact absurd rfl (halts m)
    | succ n =>
      have next : i.Halts n m₁ := by
        intro m₂
        rw [← Turns.run_execute (.cons turn .nil) n, Nat.add_comm]
        exact halts m₂
      obtain ⟨left, rfl, rest⟩ := ih next
      exact ⟨left, by omega, rest⟩

/-- A machine that halts follows a structured run. -/
theorem exists_runs_of_halts (bare : i.IsBare) {block : List Statement} {w : World}
    {code : Array Instruction} {first stop : Nat} {rest : List Frame}
    (here : At m code first rest w) (laid : Laid code first block stop)
    (calls : CallsFunctions dictionary code) (steady : i.Steady dictionary m)
    (halts : i.Halts n m) : ∃ result, Runs i dictionary (rest.length + 1) block w result := by
  -- every statement takes a turn, after which less fuel is left
  induction n using Nat.strongRecOn generalizing m block w code first stop rest with
  | _ n ih =>
    have whole := laid
    cases laid with
    | nil => exact ⟨_, .nil⟩
    | @act _ _ _ _ action found op restLaid =>
      cases acted : w.act i.setup.refuses action with
      | error fault u => exact ⟨_, .actFails acted⟩
      | ok ended u =>
        obtain ⟨m₁, turn, there, same⟩ := bare.turn_act here found op acted
        obtain ⟨left, fuel, halts₁⟩ := halts.of_turns (.cons turn .nil)
        obtain ⟨result, runs⟩ :=
          ih left (by omega) there restLaid calls (steady.turn turn same) halts₁
        exact ⟨result, .act acted runs⟩
    | loop found op bound bodyLaid closing opClosing boundClosing restLaid =>
      obtain ⟨m₁, turn, same, there⟩ := bare.turn_jump here found op bound
      obtain ⟨left, fuel, halts₁⟩ := halts.of_turns (.cons turn .nil)
      have steady₁ := steady.turn turn same
      by_cases zero : w.tape.get = 0
      · rw [if_pos zero] at there
        obtain ⟨result, runs⟩ := ih left (by omega) there restLaid calls steady₁ halts₁
        exact ⟨result, .skip zero runs⟩
      · rw [if_neg zero] at there
        obtain ⟨result, body⟩ := ih left (by omega) there bodyLaid calls steady₁ halts₁
        cases result with
        | error fault u => exact ⟨_, .bodyFails zero body⟩
        | ok ended u =>
          obtain ⟨k, m₂, turns, atEnd, steady₂⟩ :=
            follows_of_runs bare body there bodyLaid calls steady₁ rfl
          obtain ⟨m₃, back, sameBack, next⟩ :=
            bare.turn_back atEnd closing opClosing boundClosing
          obtain ⟨left₃, fuel₃, halts₃⟩ := halts₁.of_turns (turns.trans (.cons back .nil))
          have steady₃ := steady₂.turn back sameBack
          by_cases zeroEnd : u.tape.get = 0
          · rw [if_pos zeroEnd] at next
            obtain ⟨result, runs⟩ := ih left₃ (by omega) next restLaid calls steady₃ halts₃
            exact ⟨result, .leave zero body zeroEnd runs⟩
          · rw [if_neg zeroEnd] at next
            obtain ⟨result, runs⟩ := ih left₃ (by omega) next whole calls steady₃ halts₃
            exact ⟨result, .again zero body zeroEnd runs⟩
    | @call _ _ _ _ target args found op restLaid =>
      by_cases full : i.setup.callLimit ≤ (rest.length + 1 : Nat)
      · exact ⟨_, .tooDeep full⟩
      · obtain ⟨d, named, form⟩ := calls _ _ _ _ found op
        rcases steady.body named form args with
          ⟨e, u, refused, -⟩ | ⟨p, u, compiled, ran, same, next⟩
        · exact ⟨_, .refused full refused⟩
        · obtain ⟨m₁, caller, turn, tables, callerCode, callerCursor, inside⟩ :=
            bare.turn_call here found op full ran (same.trans here.world)
          obtain ⟨steady₁, compiled₁⟩ := next m₁ turn tables
          obtain ⟨bodyLaid, callsInside⟩ := code_of_compile compiled₁
          obtain ⟨left, fuel, halts₁⟩ := halts.of_turns (.cons turn .nil)
          obtain ⟨result, body⟩ := ih left (by omega) inside bodyLaid callsInside steady₁ halts₁
          cases result with
          | error fault u => exact ⟨_, .calleeFails full compiled body⟩
          | ok ended u =>
            obtain ⟨k, m₂, turns, atEnd, steady₂⟩ :=
              follows_of_runs bare body inside bodyLaid callsInside steady₁ rfl
            obtain ⟨m₃, back, sameBack, stack, world⟩ := turn_return atEnd (by simp)
            obtain ⟨left₃, fuel₃, halts₃⟩ := halts₁.of_turns (turns.trans (.cons back .nil))
            have there : At m₃ code (_ + 1) rest u :=
              ⟨⟨caller, stack, callerCode, callerCursor⟩, world⟩
            obtain ⟨result, runs⟩ :=
              ih left₃ (by omega) there restLaid calls (steady₂.turn back sameBack) halts₃
            exact ⟨result, .call full compiled body runs⟩

end TapeLang.Interpreter
