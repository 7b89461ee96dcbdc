import TapeLang.Proofs.Machine.Session

/-! What calling handlers does to a machine: it changes the tape, and every handler that is called
is logged with what it sees. What handlers do depends on the tape alone. -/
namespace TapeLang

namespace Handler

variable {ν : Type}

/-- One call of a handler, logged as an entry. -/
def call (entry : Text → ν → LogEntry) (seen : ν) (h : Handler ν) (m : Machine) :
    Machine × Option Fault :=
  ({ m with tape := (h.react seen m.tape).1, log := m.log.push (entry h.label seen) },
    (h.react seen m.tape).2)

/-- What handlers that are called in turn make of a tape. -/
def reactInTurn (seen : ν) : List (Handler ν) → Tape → Tape × Option Fault :=
  callInTurn fun h tape => h.react seen tape

/-- The handlers that are called: all up to the first that raises. -/
def heard (seen : ν) : List (Handler ν) → Tape → List (Handler ν)
  | [], _ => []
  | h :: rest, tape =>
    match h.react seen tape with
    | (tape, none) => h :: heard seen rest tape
    | (_, some _) => [h]

theorem callInTurn_call (entry : Text → ν → LogEntry) (seen : ν) (handlers : List (Handler ν))
    (m : Machine) :
    callInTurn (call entry seen) handlers m =
      ({ m with
          tape := (reactInTurn seen handlers m.tape).1
          log := m.log ++ ((heard seen handlers m.tape).map fun h => entry h.label seen).toArray },
        (reactInTurn seen handlers m.tape).2) := by
  induction handlers generalizing m with
  | nil => simp [callInTurn, reactInTurn, heard]
  | cons h rest ih =>
    rcases reacted : h.react seen m.tape with ⟨tape, _ | fault⟩
    · have called := ih (call entry seen h m).1
      simp only [call, reacted] at called
      simp [callInTurn, call, reactInTurn, heard, reacted, called]
    · simp [callInTurn, call, reactInTurn, heard, reacted]

/-- Handlers of which none raises are all called. -/
theorem heard_of_calm {seen : ν} {handlers : List (Handler ν)} {tape : Tape}
    (calm : (reactInTurn seen handlers tape).2 = none) : heard seen handlers tape = handlers := by
  induction handlers generalizing tape with
  | nil => rfl
  | cons h rest ih =>
    rw [reactInTurn, callInTurn] at calm
    rw [heard]
    rcases reacted : h.react seen tape with ⟨next, _ | fault⟩
    · rw [reacted] at calm
      dsimp only
      rw [ih calm]
    · rw [reacted] at calm
      cases calm

theorem calm_of_silent {seen : ν} {handlers : List (Handler ν)}
    (silent : ∀ h ∈ handlers, ∀ tape, (h.react seen tape).2 = none) (tape : Tape) :
    (reactInTurn seen handlers tape).2 = none := by
  induction handlers generalizing tape with
  | nil => rfl
  | cons h rest ih =>
    have first := silent h List.mem_cons_self tape
    have others := ih fun g member => silent g (List.mem_cons_of_mem _ member)
    rw [reactInTurn, callInTurn]
    rcases reacted : h.react seen tape with ⟨next, raised⟩
    rw [reacted] at first
    obtain rfl : raised = none := first
    exact others next

end Handler

/-- A failure from outside of the program, as it is reported. -/
def Fault.reportedBy (report : Text → Fault) : Fault → Fault
  | .foreign message => report message
  | fault => fault

namespace Interpreter

variable {i : Interpreter} {m u : Machine} {ν : Type}

/-- How calling handlers in turn ends. -/
theorem run_handlers {η : Type} (call : η → Machine → Machine × Option Fault) (handlers : List η)
    (report : Text → Fault) (m : Machine) :
    (match callInTurn call handlers m with
      | (m, none) => set m
      | (m, some (.foreign message)) => do
        set m
        throw (report message)
      | (m, some fault) => do
        set m
        throw fault : Exec Unit).run m =
      match callInTurn call handlers m with
      | (u, none) => .ok () u
      | (u, some fault) => .error (fault.reportedBy report) u := by
  rcases callInTurn call handlers m with ⟨u, _ | _ | _ | _⟩ <;> rfl

/-- The machine behind handlers that were called with what they see. -/
def heard (entry : Text → ν → LogEntry) (seen : ν) (handlers : List (Handler ν)) (m : Machine) :
    Machine :=
  { m with
    tape := (Handler.reactInTurn seen handlers m.tape).1
    log := m.log ++
      ((Handler.heard seen handlers m.tape).map fun h => entry h.label seen).toArray }

theorem run_notify (notice : Notice) (m : Machine) :
    let handlers := i.setup.services.hooks.handlers notice.event
    (i.notify notice).run m =
      match (Handler.reactInTurn notice handlers m.tape).2 with
      | none => .ok () (heard .event notice handlers m)
      | some fault => .error (fault.reportedBy fun message => .runtime
          { fault := .hookFailed notice.event.name.toList message, rule := some "EXT".toList })
          (heard .event notice handlers m) := by
  intro handlers
  have called := Handler.callInTurn_call .event notice handlers m
  have ran := run_handlers (Handler.call .event notice) handlers (fun message => .runtime
    { fault := .hookFailed notice.event.name.toList message, rule := some "EXT".toList }) m
  rw [called] at ran
  rw [notify, EStateM.run_bind, EStateM.run_get]
  refine Eq.trans ?_ (ran.trans ?_)
  · rw [← called]
    rfl
  · cases (Handler.reactInTurn notice handlers m.tape).2 <;> rfl

theorem run_applyRules (instruction : Instruction) (m : Machine) :
    let context := contextOf m instruction
    let handlers := i.setup.services.hooks.applicable context.step context.kind
    (i.applyRules instruction).run m =
      match (Handler.reactInTurn context handlers m.tape).2 with
      | none => .ok () (heard .step context handlers m)
      | some fault => .error (fault.reportedBy fun message => .runtime
          { fault := .ruleFailed message, location := instruction.location
            rule := some "EXT".toList })
          (heard .step context handlers m) := by
  intro context handlers
  have called := Handler.callInTurn_call .step context handlers m
  have ran := run_handlers (Handler.call .step context) handlers (fun message => .runtime
    { fault := .ruleFailed message, location := instruction.location
      rule := some "EXT".toList }) m
  rw [called] at ran
  rw [applyRules, EStateM.run_bind, EStateM.run_get]
  refine Eq.trans ?_ (ran.trans ?_)
  · rw [← called]
    rfl
  · cases (Handler.reactInTurn context handlers m.tape).2 <;> rfl

/-- No handler raises when it is told of an event. -/
def Calm (i : Interpreter) (notice : Notice) (m : Machine) : Prop :=
  (Handler.reactInTurn notice (i.setup.services.hooks.handlers notice.event) m.tape).2 = none

/-- No rule that applies to a completed step raises. -/
def CalmRules (i : Interpreter) (instruction : Instruction) (m : Machine) : Prop :=
  let context := contextOf m instruction
  (Handler.reactInTurn context
    (i.setup.services.hooks.applicable context.step context.kind) m.tape).2 = none

/-- No handler of an event and no rule ever raises. -/
structure IsSilent (i : Interpreter) : Prop where
  events : ∀ event, ∀ h ∈ i.setup.services.hooks.handlers event, ∀ notice tape,
    (h.react notice tape).2 = none
  rules : ∀ rule ∈ i.setup.services.hooks.rules, ∀ context tape,
    (rule.handler.react context tape).2 = none

theorem IsSilent.calm (silent : i.IsSilent) (notice : Notice) (m : Machine) :
    i.Calm notice m :=
  Handler.calm_of_silent (fun h member tape => silent.events notice.event h member notice tape) _

theorem IsSilent.calmRules (silent : i.IsSilent) (instruction : Instruction) (m : Machine) :
    i.CalmRules instruction m := by
  apply Handler.calm_of_silent
  intro h member tape
  obtain ⟨rule, listed, rfl⟩ := List.mem_map.mp member
  exact silent.rules rule (List.mem_filter.mp listed).1 _ tape

/-- The entries that an event leaves in a log: one for each of its handlers, in order. -/
def notices (i : Interpreter) (notice : Notice) : List LogEntry :=
  (i.setup.services.hooks.handlers notice.event).map fun h => .event h.label notice

/-- The entries that a step leaves: one for each rule that applies to it, in order. -/
def ruleNotices (i : Interpreter) (context : StepNotice) : List LogEntry :=
  (i.setup.services.hooks.applicable context.step context.kind).map fun h => .step h.label context

/-- A machine was passed on with more in its log, and perhaps another tape. -/
def Noted (entries : List LogEntry) (m u : Machine) : Prop :=
  ∃ tape, u = { m with tape, log := m.log ++ entries.toArray }

theorem Noted.log {entries : List LogEntry} (noted : Noted entries m u) :
    u.log.toList = m.log.toList ++ entries := by
  obtain ⟨tape, rfl⟩ := noted
  simp

theorem noted_heard {entry : Text → ν → LogEntry} {seen : ν} {handlers : List (Handler ν)}
    (calm : (Handler.reactInTurn seen handlers m.tape).2 = none) :
    Noted (handlers.map fun h => entry h.label seen) m (heard entry seen handlers m) := by
  rw [heard, Handler.heard_of_calm calm]
  exact ⟨_, rfl⟩

/-- Where no handler raises, an event is noted. -/
theorem Calm.notify {notice : Notice} (calm : i.Calm notice m) :
    ∃ u, (i.notify notice).run m = .ok () u ∧ Noted (i.notices notice) m u := by
  refine ⟨_, ?_, noted_heard calm⟩
  rw [run_notify, calm]

theorem CalmRules.applyRules {instruction : Instruction} (calm : i.CalmRules instruction m) :
    ∃ u, (i.applyRules instruction).run m = .ok () u ∧
      Noted (i.ruleNotices (contextOf m instruction)) m u := by
  refine ⟨_, ?_, noted_heard calm⟩
  rw [run_applyRules, calm]

end Interpreter
end TapeLang
