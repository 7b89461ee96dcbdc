import TapeLang.Proofs.CCode.Emission

/-! How deep emission goes. Every level writes the bodies of the calls whose shortest chain of
nested calls has one length, and names the calls of the next. Emission is refused exactly where a
call has no chain within the limit. -/
namespace TapeLang.Emission

variable {calls fresh : List Call} {n after : Naming} {p q : Program} {c d : Call}
variable {limit : Int} {deeper : Bool} {e : SourceError}

/-- An instruction that cannot be named is a call, met where calls may not nest any deeper. -/
theorem meet_fails {i : Instruction} (names : n.names = tableOf calls) (distinct : calls.Nodup)
    (failed : n.meet limit deeper i = .error e) :
    e.fault.kind = .expansion ∧ deeper = false ∧ ∃ c, i.op.call? = some c ∧ c ∉ calls := by
  unfold Naming.meet at failed
  cases op : i.op with
  | command command => simp [op] at failed
  | call target args =>
    simp only [op, names, find?_tableOf distinct] at failed
    by_cases known : ⟨target, args⟩ ∈ calls
    · simp [known] at failed
    · cases deeper with
      | true => simp [known] at failed
      | false =>
        simp only [if_neg known, Bool.false_eq_true, if_false, Except.error.injEq] at failed
        subst failed
        exact ⟨rfl, rfl, _, rfl, known⟩

/-- A program that cannot be met calls something new, where calls may not nest any deeper. -/
theorem meetAll_fails (names : n.names = tableOf calls) (distinct : calls.Nodup)
    (failed : n.meetAll limit deeper p = .error e) :
    e.fault.kind = .expansion ∧ deeper = false ∧ ∃ c ∈ p.callees, c ∉ calls := by
  rw [Naming.meetAll] at failed
  rw [Program.callees, List.filterMap_map]
  generalize p.instructions.toList = code at failed
  induction code generalizing n calls with
  | nil => cases failed
  | cons i code ih =>
    cases one : n.meet limit deeper i with
    | error e' =>
      have same : e' = e := by
        rw [List.foldlM_cons, one] at failed
        exact Except.error.inj failed
      obtain ⟨kind, flat, c, called, new⟩ := meet_fails names distinct one
      exact ⟨same ▸ kind, flat, c, List.mem_filterMap.mpr ⟨i, List.mem_cons_self, called⟩, new⟩
    | ok next =>
      obtain ⟨first, step, stays, -, -⟩ := meet_meets names distinct one
      have rest : code.foldlM (Naming.meet limit deeper) next = .error e := by
        rw [List.foldlM_cons, one] at failed
        exact failed
      obtain ⟨kind, flat, c, called, new⟩ := ih step.names step.distinct rest
      obtain ⟨j, later, calls⟩ := List.mem_filterMap.mp called
      refine ⟨kind, flat, c, List.mem_filterMap.mpr ⟨j, List.mem_cons_of_mem _ later, calls⟩, ?_⟩
      exact fun member => new (List.mem_append_left _ member)

variable {σ ε : Type} {fault : SourceError → ε}
variable {compile : Text → List Text → EStateM ε σ Program} {s t : σ}

/-- Work compiles the calls that a program reaches to the programs that they run, each to one,
and stays in states of a kind. -/
structure Compilable (compile : Text → List Text → EStateM ε σ Program)
    (runs : Call → Program → Prop) (p : Program) (Keeps : σ → Prop) : Prop where
  unique : ∀ c q r, runs c q → runs c r → q = r
  compiles : ∀ n c s, p.Reaches runs n c → Keeps s →
    ∃ q t, runs c q ∧ (compile c.name c.args).run s = .ok q t ∧ Keeps t

variable {runs : Call → Program → Prop} {Keeps : σ → Prop} {progress : Progress}
variable {level waiting before : List Call} {j k : Nat}

/-- A level is written where every call in it is known or may be named. -/
theorem emitLevel_cases (fault : SourceError → ε) (limit : Int) (deeper : Bool)
    (compilable : Compilable compile runs p Keeps)
    (reached : ∀ c ∈ level, p.Reaches runs k c) (kept : Keeps s)
    (names : progress.naming.names = tableOf calls) (distinct : calls.Nodup) :
    (∃ after t fresh, (emitLevel fault compile limit deeper level progress).run s = .ok after t ∧
      Keeps t ∧ Meets progress.naming calls after.naming fresh ∧ (deeper = false → fresh = []) ∧
      (∀ c ∈ level, ∀ q, runs c q → q.callees ⊆ calls ++ fresh) ∧
      ∀ d ∈ fresh, p.Reaches runs (k + 1) d) ∨
    ∃ e t, (emitLevel fault compile limit deeper level progress).run s = .error (fault e) t ∧
      e.fault.kind = .expansion ∧ deeper = false ∧
      ∃ d, p.Reaches runs (k + 1) d ∧ d ∉ calls := by
  induction level generalizing s progress calls with
  | nil =>
    exact .inl ⟨progress, s, [], rfl, kept, .refl names distinct, fun _ => rfl, nofun, nofun⟩
  | cons c level ih =>
    have here := reached c List.mem_cons_self
    obtain ⟨q, u, ran, compiled, kept⟩ := compilable.compiles k c s here kept
    have called {d : Call} (member : d ∈ q.callees) : p.Reaches runs (k + 1) d :=
      .inner here ran member
    rw [emitLevel, run_bind_of_ok compiled]
    cases met : progress.naming.meetAll limit deeper q with
    | error e =>
      obtain ⟨kind, flat, d, inside, new⟩ := meetAll_fails names distinct met
      exact .inr ⟨e, u, rfl, kind, flat, d, called inside, new⟩
    | ok naming =>
      obtain ⟨first, meets, flat, named, fromBody⟩ := meetAll_meets names distinct met
      have rest (d : Call) (member : d ∈ level) := reached d (List.mem_cons_of_mem _ member)
      dsimp only
      have written : (Progress.mk naming (progress.functions ++
          [⟨naming.nameOf c.name c.args, block naming q⟩])).naming.names = _ := meets.names
      rcases ih rest kept written meets.distinct with
        ⟨after, t, others, emitted, kept, more, flatRest, closed, fromRest⟩ |
        ⟨e, t, refused, kind, flatRest, d, next, new⟩
      · refine .inl ⟨after, t, first ++ others, emitted, kept, ⟨?_, ?_, ?_⟩, ?_, ?_, ?_⟩
        · simpa using more.names
        · simpa using more.distinct
        · simp [more.next, meets.next]
        · intro flatter
          simp [flat flatter, flatRest flatter]
        · intro d member r body
          rcases List.mem_cons.mp member with rfl | later
          · rw [compilable.unique d r q body ran, ← List.append_assoc]
            exact List.subset_append_of_subset_left _ named
          · rw [← List.append_assoc]
            exact closed d later r body
        · intro d member
          rcases List.mem_append.mp member with new | new
          · exact called (fromBody new)
          · exact fromRest d new
      · exact .inr ⟨e, t, refused, kind, flatRest, d, next,
          fun member => new (List.mem_append_left _ member)⟩

/-- What is known at a level: the calls with a shorter chain than `k` are written, those with a
shortest chain of that length wait, and no other call has a name. -/
structure AtLevel (runs : Call → Program → Prop) (p : Program) (progress : Progress) (k : Nat)
    (before waiting : List Call) : Prop where
  names : progress.naming.names = tableOf (before ++ waiting)
  next : progress.naming.next = waiting.reverse
  distinct : (before ++ waiting).Nodup
  written : ∀ c, c ∈ before ↔ ∃ j < k, p.Reaches runs j c
  named : ∀ c, c ∈ before ++ waiting ↔ ∃ j ≤ k, p.Reaches runs j c

namespace AtLevel

theorem reached (level : AtLevel runs p progress k before waiting) (member : c ∈ waiting) :
    p.Reaches runs k c := by
  obtain ⟨j, within, reaches⟩ := (level.named c).mp (List.mem_append_right _ member)
  have fresh : c ∉ before := fun earlier =>
    (List.nodup_append.mp level.distinct).2.2 c earlier c member rfl
  have last : ¬ j < k := fun earlier => fresh ((level.written c).mpr ⟨j, earlier, reaches⟩)
  exact (show j = k by omega) ▸ reaches

/-- Where no call waits, every call that is reached is written. -/
theorem exists_shorter (level : AtLevel runs p progress k before []) (positive : 0 < k)
    (reaches : p.Reaches runs j c) : ∃ j < k, p.Reaches runs j c := by
  refine Program.Reaches.exists_shorter positive ?_ reaches
  intro d last
  have member := (level.named d).mpr ⟨k, Nat.le_refl k, last⟩
  exact (level.written d).mp (by simpa using member)

/-- Behind a level that was written, the calls that it named wait. -/
theorem next_level (level : AtLevel runs p progress k before waiting) (positive : 0 < k)
    {after : Progress}
    (meets : Meets { progress.naming with next := [] } (before ++ waiting) after.naming fresh)
    (closed : ∀ c ∈ waiting, ∀ q, runs c q → q.callees ⊆ before ++ waiting ++ fresh)
    (reached : ∀ d ∈ fresh, p.Reaches runs (k + 1) d) :
    AtLevel runs p after (k + 1) (before ++ waiting) fresh := by
  refine ⟨meets.names, by simp [meets.next], meets.distinct, ?_, ?_⟩
  · intro c
    simp only [Nat.lt_succ_iff]
    exact level.named c
  · intro c
    constructor
    · intro member
      rcases List.mem_append.mp member with earlier | new
      · obtain ⟨j, within, reaches⟩ := (level.named c).mp earlier
        exact ⟨j, by omega, reaches⟩
      · exact ⟨k + 1, Nat.le_refl _, reached c new⟩
    · rintro ⟨j, within, reaches⟩
      by_cases earlier : j ≤ k
      · exact List.mem_append_left _ ((level.named c).mpr ⟨j, earlier, reaches⟩)
      · obtain rfl : j = k + 1 := by omega
        cases reaches with
        | outermost called => omega
        | @inner _ a q _ outer ran called =>
          rcases List.mem_append.mp ((level.named a).mpr ⟨k, Nat.le_refl _, outer⟩) with
            done | waits
          · obtain ⟨j, shorter, outer⟩ := (level.written a).mp done
            exact List.mem_append_left _
              ((level.named c).mpr ⟨j + 1, by omega, .inner outer ran called⟩)
          · exact closed a waits q ran called

end AtLevel

/-- Emission ends well where every call has a chain within the limit, and is refused where one has
not. -/
theorem emitWithin_cases (fault : SourceError → ε) (limit : Int)
    (compilable : Compilable compile runs p Keeps) {budget : Nat}
    (kept : Keeps s) (level : AtLevel runs p progress k before waiting) (positive : 0 < k)
    (last : budget = 0 → waiting = []) :
    (∃ after t, (emitWithin fault compile limit budget progress).run s = .ok after t ∧
      ∀ n c, p.Reaches runs n c → ∃ j < k + budget, p.Reaches runs j c) ∨
    ∃ e t, (emitWithin fault compile limit budget progress).run s = .error (fault e) t ∧
      e.fault.kind = .expansion ∧
      ∃ n c, p.Reaches runs n c ∧ ∀ j, p.Reaches runs j c → k + budget ≤ j := by
  induction budget generalizing s progress k before waiting with
  | zero =>
    obtain rfl := last rfl
    exact .inl ⟨progress, s, rfl, fun _ _ reaches => level.exists_shorter positive reaches⟩
  | succ budget ih =>
    cases waiting with
    | nil =>
      refine .inl ⟨progress, s, ?_, ?_⟩
      · simp [emitWithin, level.next]
      · intro n c reaches
        obtain ⟨j, shorter, reaches⟩ := level.exists_shorter positive reaches
        exact ⟨j, by omega, reaches⟩
    | cons c waiting =>
      have some_level : progress.naming.next.isEmpty = false := by simp [level.next]
      have calls : progress.naming.next.reverse = c :: waiting := by simp [level.next]
      rw [emitWithin, if_neg (by simp [some_level]), calls]
      have reached (d : Call) (member : d ∈ c :: waiting) := level.reached member
      have names : ({ progress with naming := { progress.naming with next := [] } } :
          Progress).naming.names = _ := level.names
      rcases emitLevel_cases fault limit (0 < budget) compilable reached kept names
          level.distinct with
        ⟨after, t, fresh, emitted, kept, meets, flat, closed, new⟩ |
        ⟨e, t, refused, kind, flat, d, next, unknown⟩
      · have below := level.next_level positive meets closed new
        rw [run_bind_of_ok emitted]
        rcases ih kept below (by omega) (fun none => flat (by simp [none])) with
          ⟨final, u, rest, within⟩ | ⟨e, u, refused, kind, n, d, reaches, far⟩
        · refine .inl ⟨final, u, rest, ?_⟩
          intro n d reaches
          obtain ⟨j, shorter, reaches⟩ := within n d reaches
          exact ⟨j, by omega, reaches⟩
        · refine .inr ⟨e, u, refused, kind, n, d, reaches, ?_⟩
          intro j shorter
          have := far j shorter
          omega
      · obtain rfl : budget = 0 := by simpa using flat
        rw [run_bind_of_error refused]
        refine .inr ⟨e, t, rfl, kind, k + 1, d, next, ?_⟩
        intro j reaches
        by_contra shorter
        exact unknown ((level.named d).mpr ⟨j, by omega, reaches⟩)

/-- A program is written in C where every call that it reaches has a chain within the limit.
Otherwise the program is refused as nested too deep. -/
theorem run_toC_cases (fault : SourceError → ε) (limit : Int)
    (compilable : Compilable compile runs p Keeps) (kept : Keeps s) (tapeSize : Nat) :
    (∃ program t, (p.toC fault compile tapeSize limit).run s = .ok program t ∧
      ∀ n c, p.Reaches runs n c → ∃ j : Nat, j ≤ limit ∧ p.Reaches runs j c) ∨
    ∃ e t, (p.toC fault compile tapeSize limit).run s = .error (fault e) t ∧
      e.fault.kind = .expansion ∧
      ∃ n c, p.Reaches runs n c ∧ ∀ j : Nat, p.Reaches runs j c → limit < j := by
  rw [Program.toC]
  cases met : Naming.meetAll limit (0 < limit) {} p with
  | error e =>
    obtain ⟨kind, flat, c, called, -⟩ := meetAll_fails (show ({} : Naming).names = tableOf [] from
      rfl) List.nodup_nil met
    refine .inr ⟨e, s, rfl, kind, 1, c, .outermost called, ?_⟩
    intro j reaches
    have := reaches.pos
    have : ¬ 0 < limit := by simpa using flat
    omega
  | ok naming =>
    obtain ⟨fresh, meets, flat, named, called⟩ :=
      meetAll_meets (show ({} : Naming).names = tableOf [] from rfl) List.nodup_nil met
    have level : AtLevel runs p ⟨naming, []⟩ 1 [] fresh := by
      refine ⟨meets.names, by simp [meets.next], meets.distinct, ?_, ?_⟩
      · intro c
        constructor
        · intro member
          cases member
        · rintro ⟨j, none, reaches⟩
          have := reaches.pos
          omega
      · intro c
        constructor
        · intro member
          exact ⟨1, Nat.le_refl 1, .outermost (called member)⟩
        · rintro ⟨j, within, reaches⟩
          cases reaches with
          | outermost inside => exact named inside
          | inner outer =>
            have := outer.pos
            omega
    have last (none : limit.toNat = 0) : fresh = [] := flat (by simp; omega)
    dsimp only
    rcases emitWithin_cases fault limit compilable kept level Nat.one_pos last with
      ⟨after, t, emitted, within⟩ | ⟨e, t, refused, kind, n, c, reaches, far⟩
    · rw [run_bind_of_ok emitted]
      refine .inl ⟨_, t, rfl, ?_⟩
      intro n c reaches
      obtain ⟨j, shorter, reaches⟩ := within n c reaches
      have := reaches.pos
      exact ⟨j, by omega, reaches⟩
    · rw [run_bind_of_error refused]
      refine .inr ⟨e, t, rfl, kind, n, c, reaches, ?_⟩
      intro j shorter
      have := far j shorter
      omega

end TapeLang.Emission
