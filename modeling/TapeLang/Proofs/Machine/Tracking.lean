import TapeLang.Proofs.Machine.Safety

/-! A machine with more room follows another one turn by turn, as long as their calls give the same
bodies. Its tape may be larger and its limits higher, and the program of the other machine may
stand anywhere in its own. -/
namespace TapeLang

namespace Tape

/-- The same tape, of the same size or a larger one. -/
structure Within (t u : Tape) : Prop where
  visited : u.visited = t.visited
  pointer : u.pointer = t.pointer
  size : t.size ≤ u.size

namespace Within

variable {t u t' : Tape}

theorem refl (t : Tape) : t.Within t := ⟨rfl, rfl, Nat.le_refl _⟩

theorem eq_of_size (within : t.Within u) (size : u.size = t.size) : u = t := by
  obtain ⟨visited, pointer, -⟩ := within
  cases t
  cases u
  cases size
  cases visited
  cases pointer
  rfl

theorem cell (within : t.Within u) (index : Nat) : u.cell index = t.cell index := by
  rw [Tape.cell, within.visited, Tape.cell]

theorem get (within : t.Within u) : u.get = t.get := by
  rw [get_eq_cell, get_eq_cell, within.pointer, within.cell]

theorem peak (within : t.Within u) : u.peak = t.peak := by
  rw [Tape.peak, within.visited, Tape.peak]

theorem dump (within : t.Within u) : u.dump = t.dump := by
  have lines : u.cellLine = t.cellLine := by
    funext index
    rw [cellLine, within.cell, cellLine]
  rw [Tape.dump, within.visited, lines, Tape.dump]

/-- A move that stays on the smaller tape stays on the larger one. -/
theorem move (within : t.Within u) {offset : Int} (moved : t.move offset = .ok t') :
    ∃ u', u.move offset = .ok u' ∧ t'.Within u' := by
  obtain ⟨visited, pointer, size⟩ := within
  unfold Tape.move at moved ⊢
  dsimp only at moved ⊢
  split at moved
  case isTrue inside =>
    cases moved
    rw [← pointer] at inside
    rw [dif_pos ⟨inside.1, by omega⟩]
    exact ⟨_, rfl, by simp only [visited, pointer], by simp only [pointer], size⟩
  case isFalse => cases moved

theorem set (within : t.Within u) {value : Int} (written : t.set value = .ok t') :
    ∃ u', u.set value = .ok u' ∧ t'.Within u' := by
  obtain ⟨visited, pointer, size⟩ := within
  unfold Tape.set at written ⊢
  split at written
  case isTrue byte =>
    cases written
    rw [if_pos byte]
    exact ⟨_, rfl, by simp only [visited, pointer], pointer, size⟩
  case isFalse => cases written

theorem add (within : t.Within u) {delta : Int} (written : t.add delta = .ok t') :
    ∃ u', u.add delta = .ok u' ∧ t'.Within u' := by
  unfold Tape.add at written ⊢
  rw [within.get]
  exact within.set written

end Within
end Tape

/-- The same counters, with so much more read of programs. -/
def Counters.enlarged (c : Counters) (extra : Nat) : Counters :=
  { c with programSize := c.programSize + extra }

namespace World

/-- The same world with at least as large a tape, in which so much more was read of programs. -/
structure Within (extra : Nat) (w v : World) : Prop where
  tape : w.tape.Within v.tape
  input : v.input = w.input
  output : v.output = w.output
  counters : v.counters = w.counters.enlarged extra

namespace Within

variable {extra : Nat} {w v u : World}

theorem eq_of_size (within : w.Within 0 v) (size : v.tape.size = w.tape.size) : v = w := by
  obtain ⟨tape, input, output, counters⟩ := within
  have same := tape.eq_of_size size
  cases v
  cases w
  dsimp only at same input output counters
  rw [same, input, output, counters]
  rfl

theorem counted (within : w.Within extra v) {f : Counters → Counters}
    (apart : ∀ c, f (c.enlarged extra) = (f c).enlarged extra) :
    World.Within extra { w with counters := f w.counters } { v with counters := f v.counters } :=
  ⟨within.tape, within.input, within.output, by rw [within.counters]; exact apart _⟩

theorem read (within : w.Within extra v) : w.read.Within extra v.read :=
  within.counted (f := fun c => { c with reads := c.reads + 1 }) fun _ => rfl

theorem step (within : w.Within extra v) : w.step.Within extra v.step :=
  within.counted (f := fun c => { c with steps := c.steps + 1 }) fun _ => rfl

theorem takeTape (within : w.Within extra v) {f : Counters → Counters}
    (apart : ∀ c, f (c.enlarged extra) = (f c).enlarged extra)
    {worked worked' : Except TapeFault Tape} (taken : w.takeTape f worked = .ok () u)
    (follows : ∀ t, worked = .ok t → ∃ t', worked' = .ok t' ∧ t.Within t') :
    ∃ u', v.takeTape f worked' = .ok () u' ∧ u.Within extra u' := by
  cases worked with
  | error => cases taken
  | ok t =>
    cases taken
    obtain ⟨t', rfl, tape⟩ := follows t rfl
    have counted := within.counted apart
    exact ⟨_, rfl, tape, counted.input, counted.output, counted.counters⟩

/-- What an action does where there is less room, it does where there is more. -/
theorem act (within : w.Within extra v) {refuses : Array UInt8 → UInt8 → Option Text}
    {action : Action} (acted : w.act refuses action = .ok () u) :
    ∃ u', v.act refuses action = .ok () u' ∧ u.Within extra u' := by
  let written (c : Counters) : Counters := { c with writes := c.writes + 1 }
  let moved (c : Counters) : Counters := { c with moves := c.moves + 1 }
  cases action with
  | increment | decrement =>
    rw [World.act] at acted ⊢
    exact within.takeTape (f := written) (fun _ => rfl) acted fun _ => within.tape.add
  | left | right =>
    rw [World.act] at acted ⊢
    exact within.takeTape (f := moved) (fun _ => rfl) acted fun _ => within.tape.move
  | output =>
    simp only [World.act, within.output, within.tape.get] at acted ⊢
    cases refused : refuses w.output w.tape.get with
    | some message => rw [refused] at acted; cases acted
    | none =>
      rw [refused] at acted
      cases acted
      exact ⟨_, rfl, within.tape, within.input, rfl, within.read.counters⟩
  | input =>
    simp only [World.act, within.input] at acted ⊢
    cases given : w.input with
    | nil => rw [given] at acted; cases acted
    | cons value rest =>
      rw [given] at acted
      dsimp only at acted ⊢
      by_cases negative : value < 0
      · rw [if_pos negative] at acted
        cases acted
      · rw [if_neg negative] at acted ⊢
        have used : ({ w with input := rest } : World).Within extra { v with input := rest } :=
          ⟨within.tape, rfl, within.output, within.counters⟩
        exact used.takeTape (f := written) (fun _ => rfl) acted fun _ => within.tape.set

end Within

theorem size_takeTape {v u : World} {f : Counters → Counters}
    {worked : Except TapeFault Tape} {size : Nat} (sized : ∀ t, worked = .ok t → t.size = size)
    (taken : v.takeTape f worked = .ok () u) : u.tape.size = size := by
  cases worked with
  | error => cases taken
  | ok t =>
    cases taken
    exact sized t rfl

theorem size_act {refuses : Array UInt8 → UInt8 → Option Text} {w u : World}
    {action : Action} (acted : w.act refuses action = .ok () u) :
    u.tape.size = w.tape.size := by
  cases action with
  | increment | decrement =>
    rw [act] at acted
    exact size_takeTape (fun _ => Tape.size_set) acted
  | left | right =>
    rw [act] at acted
    exact size_takeTape (fun _ => Tape.size_move) acted
  | output =>
    rw [act] at acted
    split at acted <;> cases acted
    rfl
  | input =>
    rw [act] at acted
    split at acted
    · cases acted
    · split at acted
      · cases acted
      · exact size_takeTape (fun _ => Tape.size_set) acted

end World

/-- What a machine knows of calls. -/
structure Tables where
  definitions : Dictionary
  compiled : CallTable Program

namespace Machine

def tables (m : Machine) : Tables := ⟨m.definitions, m.compiled⟩

def setTables (m : Machine) (t : Tables) : Machine :=
  { m with definitions := t.definitions, compiled := t.compiled }

end Machine

/-- Tables give a body of a call: the one that is kept, or one that is compiled and kept. -/
inductive Tables.Gives (limit : Int) (t : Tables) (c : Call) (p : Program) : Tables → Prop where
  | kept : t.compiled.find? c = some p → Gives limit t c p t
  | compiled {d left} :
      t.compiled.find? c = none → t.definitions.find? c.name = some d → d.kind = .functionForm →
      t.definitions.compile limit c = .ok p left →
      Gives limit t c p ⟨left, t.compiled.insert c p⟩

namespace Interpreter

variable {i : Interpreter} {m m' u : Machine}

/-- The body of a call is the one that the tables give. -/
theorem run_bodyOf_eq_ok_iff {target : Text} {args : List Text} {p : Program} :
    (i.bodyOf target args).run m = .ok p u ↔
      ∃ t, m.tables.Gives i.setup.expansionLimit ⟨target, args⟩ p t ∧ u = m.setTables t := by
  constructor
  · intro ran
    rcases bodyOf_cases ran with ⟨known, rfl⟩ | ⟨unknown, left, compiled, rfl⟩
    · exact ⟨_, .kept known, rfl⟩
    · cases found : (m.definitions.find? target).filter (·.kind = .functionForm) with
      | none =>
        rw [bodyOf, EStateM.run_bind, EStateM.run_get] at ran
        dsimp only at ran
        rw [unknown] at ran
        dsimp only at ran
        rw [found] at ran
        cases ran
      | some d =>
        obtain ⟨named, form⟩ := Option.filter_eq_some_iff.mp found
        exact ⟨_, .compiled unknown named (by simpa using form) compiled, rfl⟩
  · rintro ⟨t, gives, rfl⟩
    cases gives with
    | kept known =>
      rw [bodyOf, EStateM.run_bind, EStateM.run_get]
      dsimp only
      rw [show m.compiled.find? ⟨target, args⟩ = some p from known]
      rfl
    | compiled unknown named form compiled =>
      rw [run_bodyOf named form, show m.compiled.find? ⟨target, args⟩ = none from unknown]
      dsimp only
      rw [show m.definitions.compile i.setup.expansionLimit ⟨target, args⟩ = _ from compiled]
      rfl

theorem Stepped.tapeSize {cursor : Nat} {instruction : Instruction} {effect : Effect}
    (stepped : i.Stepped m cursor instruction effect u) : u.tape.size = m.tape.size := by
  cases stepped with
  | act _ acted => exact World.size_act acted
  | jump | back => rfl
  | call _ _ ran =>
    obtain ⟨t, -, rfl⟩ := run_bodyOf_eq_ok_iff.mp ran
    rfl

/-- The tape keeps its size. -/
theorem IsBare.tapeSize_turns (bare : i.IsBare) {k : Nat} (turns : i.Turns k m m') :
    m'.tape.size = m.tape.size := by
  induction turns with
  | nil => rfl
  | cons turn _ ih =>
    obtain ⟨frame, rest, -, ⟨-, rfl⟩ | ⟨instruction, effect, u, -, stepped, rfl⟩⟩ :=
      bare.turn_cases turn
    · exact ih
    · exact ih.trans stepped.tapeSize

end Interpreter

/-- A list of instructions stands in another one, behind so many instructions. -/
def Window (offset : Nat) (a b : Array Instruction) : Prop :=
  ∀ k instruction, a[k]? = some instruction → ∃ other, b[offset + k]? = some other ∧
    other.op = instruction.op ∧ other.partner = instruction.partner.map (offset + ·)

theorem Window.refl (code : Array Instruction) : Window 0 code code := by
  intro k instruction found
  refine ⟨instruction, by rwa [Nat.zero_add], rfl, ?_⟩
  cases instruction.partner <;> simp

/-- How a machine is compared with one that has more room: by the calls that are looked at and a
relation of what the two know of calls, by the place of the program of the one in that of the
other, and by how much more the other one has read. -/
structure Tracking where
  Called : Call → Prop
  Tabled : Tables → Tables → Prop
  offset : Nat := 0
  part : Array Instruction
  whole : Array Instruction
  extra : Nat := 0

namespace Tracking

variable {x : Tracking} {i j : Interpreter} {m n m' : Machine}

/-- Frames at the same place of the same code, whose calls are looked at. -/
structure SameFrame (x : Tracking) (f g : Frame) : Prop where
  code : g.code = f.code
  cursor : g.cursor = f.cursor
  calls : ∀ c ∈ callsOf f.code, x.Called c

/-- Frames of which the one is at some place of its program, and the other at the same place of
that part of its own. -/
structure Outermost (x : Tracking) (f g : Frame) : Prop where
  part : f.code = x.part
  whole : g.code = x.whole
  cursor : g.cursor = x.offset + f.cursor
  inside : f.cursor ≤ x.part.size

inductive Stacks (x : Tracking) : List Frame → List Frame → Prop where
  | outermost {f g} : x.Outermost f g → Stacks x [f] [g]
  | called {f g rest rest'} : x.SameFrame f g → Stacks x rest rest' →
      Stacks x (f :: rest) (g :: rest')

/-- A machine that has done the same as another one. -/
structure Tracks (x : Tracking) (m n : Machine) : Prop where
  world : m.world.Within x.extra n.world
  frames : x.Stacks m.stack n.stack
  tables : x.Tabled m.tables n.tables

/-- The one machine is done, and the other stands behind that part of its program. -/
structure Passed (x : Tracking) (m n : Machine) : Prop where
  empty : m.stack = []
  world : m.world.Within x.extra n.world
  tables : x.Tabled m.tables n.tables
  frame : ∃ g, n.stack = [g] ∧ g.code = x.whole ∧ g.cursor = x.offset + x.part.size

/-- Where the tables of the one machine give the body of a call that is looked at, those of the
other give one of the same instructions. -/
def KeepsBodies (x : Tracking) (limit limit' : Int) : Prop :=
  ∀ s t c p s', x.Tabled s t → x.Called c → s.Gives limit c p s' →
    (∀ callee ∈ p.callees, x.Called callee) ∧
    ∃ q t', t.Gives limit' c q t' ∧ q.instructions = p.instructions ∧ x.Tabled s' t'

/-- What lets a machine follow another one. -/
structure Valid (x : Tracking) (i j : Interpreter) : Prop where
  bare : i.IsBare
  bare' : j.IsBare
  sink : j.setup.refuses = i.setup.refuses
  room : i.setup.callLimit ≤ j.setup.callLimit
  window : Window x.offset x.part x.whole
  safe : ∃ dictionary, CodeSafe dictionary x.part
  calls : ∀ c ∈ callsOf x.part, x.Called c
  bodies : x.KeepsBodies i.setup.expansionLimit j.setup.expansionLimit

theorem Stacks.length {s t : List Frame} (frames : x.Stacks s t) : t.length = s.length := by
  induction frames with
  | outermost => rfl
  | called _ _ ih => rw [List.length_cons, List.length_cons, ih]

theorem Stacks.entered {s t : List Frame} (frames : x.Stacks s t) {f g : Option Frame}
    (callees : Option.Rel x.SameFrame f g) : x.Stacks (f.toList ++ s) (g.toList ++ t) := by
  cases callees with
  | none => exact frames
  | some same => exact .called same frames

/-- An instruction that is carried out on the one machine is carried out on the other. -/
theorem Valid.step (valid : x.Valid i j) {cursor : Nat} {instruction other : Instruction}
    {effect : Interpreter.Effect} {u : Machine} (stepped : i.Stepped m cursor instruction effect u)
    (world : m.world.Within x.extra n.world) (tables : x.Tabled m.tables n.tables)
    (depth : n.stack.length = m.stack.length) (op : other.op = instruction.op) {shift : Nat}
    (partner : other.partner = instruction.partner.map (shift + ·))
    (looked : ∀ c, instruction.op.call? = some c → x.Called c) :
    ∃ effect' u', j.Stepped n (shift + cursor) other effect' u' ∧
      effect'.cursor = shift + effect.cursor ∧
      Option.Rel x.SameFrame effect.callee effect'.callee ∧
      u.world.Within x.extra u'.world ∧ x.Tabled u.tables u'.tables := by
  have goes : other.partner.getD (shift + cursor) = shift + instruction.partner.getD cursor := by
    rw [partner]
    cases instruction.partner <;> rfl
  have cell : n.tape.get = m.tape.get := world.tape.get
  cases stepped with
  | act isAct acted =>
    obtain ⟨w', acted', within⟩ := world.act acted
    rw [← valid.sink] at acted'
    exact ⟨_, _, .act (op.trans isAct) acted', rfl, .none, within, tables⟩
  | jump isJump =>
    refine ⟨_, _, .jump (op.trans isJump), ?_, .none, world.read, tables⟩
    rw [goes, cell]
    dsimp only
    split <;> rfl
  | back isBack =>
    refine ⟨_, _, .back (op.trans isBack), ?_, .none, world.read, tables⟩
    rw [goes, cell]
    dsimp only
    split <;> rfl
  | @call target args p v isCall room ran =>
    obtain ⟨t, gives, rfl⟩ := Interpreter.run_bodyOf_eq_ok_iff.mp ran
    have called : x.Called ⟨target, args⟩ := looked _ (by rw [isCall]; rfl)
    obtain ⟨calls, q, t', gives', code, tables'⟩ := valid.bodies _ _ _ _ _ tables called gives
    have ran' := Interpreter.run_bodyOf_eq_ok_iff.mpr ⟨t', gives', rfl⟩
    have free : ¬ j.setup.callLimit ≤ n.stack.length := by
      have := valid.room
      rw [depth]
      omega
    exact ⟨_, _, .call (op.trans isCall) free ran', rfl, .some ⟨code, rfl, calls⟩, world, tables'⟩

theorem call_mem_callsOf {code : Array Instruction} {k : Nat} {instruction : Instruction}
    (found : code[k]? = some instruction) {c : Call} (called : instruction.op.call? = some c) :
    c ∈ callsOf code :=
  List.mem_filterMap.mpr ⟨_, List.mem_map.mpr
    ⟨instruction, (Array.mem_of_getElem? found).val, rfl⟩, called⟩

/-- A turn of the one machine is a turn of the other, unless it leaves the outermost frame. -/
theorem Valid.turn (valid : x.Valid i j) (tracks : x.Tracks m n) (turn : i.Turn m m') :
    (∃ n', j.Turn n n' ∧ x.Tracks m' n') ∨ x.Passed m' n := by
  have depth := tracks.frames.length
  have frames := tracks.frames
  obtain ⟨f, rest, stack, turned⟩ := valid.bare.turn_cases turn
  rw [stack] at frames
  rcases turned with ⟨done, rfl⟩ | ⟨instruction, effect, u, found, stepped, rfl⟩
  · generalize stacked : n.stack = others at frames
    cases frames with
    | @outermost _ g frame =>
      right
      refine ⟨rfl, tracks.world, tracks.tables, g, stacked, frame.whole, ?_⟩
      have past := Array.getElem?_eq_none_iff.mp done
      rw [frame.part] at past
      have := frame.cursor
      have := frame.inside
      omega
    | @called _ g _ others same frames =>
      left
      refine ⟨{ n with stack := others }, ⟨g, others, stacked, ?_⟩, tracks.world, frames,
        tracks.tables⟩
      rw [Interpreter.turn, same.code, same.cursor, done]
      rfl
  · left
    generalize stacked : n.stack = others at frames
    cases frames with
    | @outermost _ g frame =>
      obtain ⟨dictionary, safe⟩ := valid.safe
      rw [frame.part] at found
      obtain ⟨other, found', op, partner⟩ := valid.window _ _ found
      obtain ⟨effect', u', stepped', cursor, callees, world, tables⟩ :=
        valid.step stepped tracks.world tracks.tables depth op partner
          fun c called => valid.calls c (call_mem_callsOf found called)
      have inside := stepped.cursor_le safe found
      rw [← frame.cursor] at stepped' found'
      rw [← frame.whole] at found'
      refine ⟨_, valid.bare'.turn_of_step stacked found' stepped'.run, world.step, ?_, tables⟩
      refine Stacks.entered ?_ callees
      exact .outermost ⟨frame.part, frame.whole, cursor, inside⟩
    | @called _ g _ others same frames =>
      have unmoved : instruction.partner = instruction.partner.map (0 + ·) := by
        cases instruction.partner <;> simp
      obtain ⟨effect', u', stepped', cursor, callees, world, tables⟩ :=
        valid.step stepped tracks.world tracks.tables depth rfl unmoved
          fun c called => same.calls c (call_mem_callsOf found called)
      rw [Nat.zero_add] at stepped' cursor
      rw [← same.code] at found
      rw [← same.cursor] at stepped' found
      refine ⟨_, valid.bare'.turn_of_step stacked found stepped'.run, world.step, ?_, tables⟩
      refine Stacks.entered ?_ callees
      exact .called ⟨same.code, cursor, same.calls⟩ frames

/-- What the one machine does in some turns, the other does in as many; where the one leaves its
last frame, the other has yet to leave its own. -/
theorem Valid.turns (valid : x.Valid i j) {k : Nat} (tracks : x.Tracks m n)
    (turns : i.Turns k m m') :
    (∃ n', j.Turns k n n' ∧ x.Tracks m' n') ∨
      ∃ l n', k = l + 1 ∧ j.Turns l n n' ∧ x.Passed m' n' := by
  induction turns generalizing n with
  | nil => exact .inl ⟨n, .nil, tracks⟩
  | @cons k m m₁ m' turn rest ih =>
    rcases valid.turn tracks turn with ⟨n₁, turn', tracks₁⟩ | passed
    · rcases ih tracks₁ with ⟨n', turns, tracks'⟩ | ⟨l, n', rfl, turns, passed⟩
      · exact .inl ⟨n', .cons turn' turns, tracks'⟩
      · exact .inr ⟨l + 1, n', rfl, .cons turn' turns, passed⟩
    · cases rest with
      | nil => exact .inr ⟨0, n, rfl, .nil, passed⟩
      | cons next _ =>
        obtain ⟨f, rest, stack, -⟩ := next
        cases stack.symm.trans passed.empty

/-- Where that part is the last one, the other machine leaves its last frame too. -/
theorem Passed.leaves (passed : x.Passed m n)
    (last : x.whole.size ≤ x.offset + x.part.size) :
    ∃ n', j.Turn n n' ∧ n'.stack = [] ∧ n'.world = n.world ∧ n'.tables = n.tables := by
  obtain ⟨g, stack, whole, cursor⟩ := passed.frame
  refine ⟨{ n with stack := [] }, ⟨g, [], stack, ?_⟩, rfl, rfl, rfl⟩
  rw [Interpreter.turn, Array.getElem?_eq_none (by rw [whole, cursor]; exact last)]
  rfl

end Tracking

namespace Interpreter

variable {i : Interpreter} {m m' : Machine} {fuel k : Nat} {ending : Ending}

/-- An execution takes as many turns as it has fuel, or fewer ones up to an empty stack. -/
def Lasts (fuel k : Nat) (ending : Ending) (m : Machine) : Prop :=
  ending = .outOfFuel ∧ k = fuel ∨ ending = .finished ∧ k < fuel ∧ m.stack = []

theorem exists_turns_of_execute (ran : (i.execute fuel).run m = .ok ending m') :
    ∃ k, i.Turns k m m' ∧ Lasts fuel k ending m' := by
  induction fuel generalizing m with
  | zero =>
    cases ran
    exact ⟨0, .nil, .inl ⟨rfl, rfl⟩⟩
  | succ fuel ih =>
    cases stack : m.stack with
    | nil =>
      rw [run_execute_empty stack] at ran
      cases ran
      exact ⟨0, .nil, .inr ⟨rfl, Nat.zero_lt_succ _, stack⟩⟩
    | cons frame rest =>
      rw [run_execute_succ stack] at ran
      obtain ⟨_, u, turned, rest'⟩ := run_bind_eq_ok_iff.mp ran
      obtain ⟨k, turns, lasts⟩ := ih rest'
      refine ⟨k + 1, .cons ⟨frame, rest, stack, turned⟩ turns, ?_⟩
      rcases lasts with ⟨out, rfl⟩ | ⟨finished, less, empty⟩
      · exact .inl ⟨out, rfl⟩
      · exact .inr ⟨finished, Nat.succ_lt_succ less, empty⟩

theorem IsBare.tapeSize_execute (bare : i.IsBare)
    (ran : (i.execute fuel).run m = .ok ending m') : m'.tape.size = m.tape.size := by
  obtain ⟨k, turns, -⟩ := exists_turns_of_execute ran
  exact bare.tapeSize_turns turns

theorem Turns.execute (turns : i.Turns k m m') (lasts : Lasts fuel k ending m') :
    (i.execute fuel).run m = .ok ending m' := by
  rcases lasts with ⟨rfl, rfl⟩ | ⟨rfl, less, empty⟩
  · rw [← Nat.add_zero k, turns.run_execute]
    rfl
  · obtain ⟨more, rfl⟩ := Nat.exists_eq_add_of_lt less
    rw [Nat.add_assoc, turns.run_execute, run_execute_empty empty]

end Interpreter

namespace Tracking

variable {x : Tracking} {i j : Interpreter} {m n m' : Machine}

/-- Where an execution of the one machine is done, the other is behind that part. -/
theorem Valid.passes (valid : x.Valid i j) (tracks : x.Tracks m n) {fuel : Nat}
    (ran : (i.execute fuel).run m = .ok .finished m') :
    ∃ l n', l < fuel ∧ j.Turns l n n' ∧ x.Passed m' n' := by
  obtain ⟨k, turns, ⟨⟨⟩, -⟩ | ⟨-, less, empty⟩⟩ := Interpreter.exists_turns_of_execute ran
  rcases valid.turns tracks turns with ⟨n', -, tracks'⟩ | ⟨l, n', rfl, turns', passed⟩
  · have frames := tracks'.frames
    rw [empty] at frames
    cases frames
  · exact ⟨l, n', by omega, turns', passed⟩

/-- An execution of the one machine is one of the other, where that part is the last one. -/
theorem Valid.execute (valid : x.Valid i j) (last : x.whole.size ≤ x.offset + x.part.size)
    (tracks : x.Tracks m n) {fuel : Nat} {ending : Interpreter.Ending}
    (ran : (i.execute fuel).run m = .ok ending m') :
    ∃ n', (j.execute fuel).run n = .ok ending n' ∧ m'.world.Within x.extra n'.world ∧
      x.Tabled m'.tables n'.tables := by
  obtain ⟨k, turns, lasts⟩ := Interpreter.exists_turns_of_execute ran
  rcases valid.turns tracks turns with ⟨n', turns', tracks'⟩ | ⟨l, n₁, rfl, turns', passed⟩
  · refine ⟨n', turns'.execute ?_, tracks'.world, tracks'.tables⟩
    refine lasts.imp_right fun ⟨finished, less, empty⟩ => ⟨finished, less, ?_⟩
    have height := tracks'.frames.length
    rw [empty] at height
    exact List.eq_nil_of_length_eq_zero height
  · obtain ⟨n', turn, empty, world, tables⟩ := passed.leaves (j := j) last
    refine ⟨n', (turns'.trans (.cons turn .nil)).execute ?_, ?_, ?_⟩
    · exact lasts.imp_right fun ⟨finished, less, _⟩ => ⟨finished, less, empty⟩
    · rw [world]
      exact passed.world
    · rw [tables]
      exact passed.tables

end Tracking
end TapeLang
