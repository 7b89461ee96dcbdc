import TapeLang.Proofs.CCode.Queue
import TapeLang.Proofs.Expansion.Stepwise
import TapeLang.Proofs.Program.Growing
import TapeLang.Proofs.Program.Worklist

/-! Work on a program comes to an end. Reading opens bodies that name what they like and declare
what they name; a check and emission go through the calls that the bodies make, of which there may
be ever new ones. Done step by step, with no count of the steps to come, each of them ends with the
result that is found level by level. -/
namespace TapeLang

open StateTransition Course

/-- The program that a reading has come to. -/
def Program.ofProgress (p : Progress LoopBinder) : Except SourceError Program :=
  p.consumed.finish.map (⟨·, p.dictionary⟩)

theorem Source.result_parse (source : Source) (tokens : List Token) (dictionary : Dictionary) :
    Expansion.Reader.result Program.ofProgress
        ((source.expand LoopBinder.consume tokens).run ⟨dictionary, {}⟩) =
      (source.parse tokens).run dictionary := by
  rw [run_parse, run_consumeAll]
  cases (source.expand LoopBinder.consume tokens).run ⟨dictionary, {}⟩ with
  | error e p => rfl
  | ok u p =>
    cases last : p.consumed.finish <;>
      simp [Expansion.Reader.result, Expansion.Reader.conclude, Program.ofProgress, Except.map, last]

/-- Expansion ends for every consumer, and so does reading; on the way no more expansions stand
inside one another than the limit allows. A check ends, and so does emission, whoever compiles. And
this is so although there is a program from which chains of calls lead to infinitely many calls. -/
theorem front_end_ends (source : Source) (tokens : List Token) (dictionary : Dictionary) :
    (∀ {σ α : Type} (consume : σ → Item → Except SourceError σ)
        (finish : Progress σ → Except SourceError α) (s : σ),
      Expansion.Reader.Ends source consume finish (.start tokens dictionary s)
        (Expansion.Reader.result finish ((source.expand consume tokens).run ⟨dictionary, s⟩))) ∧
    Expansion.Reader.Ends source LoopBinder.consume Program.ofProgress
      (.start tokens dictionary {}) ((source.parse tokens).run dictionary) ∧
    ended ((source.check tokens).run dictionary) ∈
      eval (next (LoopCheck.Worklist.step source.limit))
        (LoopCheck.Worklist.start source tokens dictionary) ∧
    (∀ {σ ε : Type} (p : Program) (fault : SourceError → ε)
        (compile : Text → List Text → EStateM ε σ Program) (tapeSize : Nat) (limit : Int) (s : σ),
      ended ((p.toC fault compile tapeSize limit).run s) ∈
        eval (next (Emission.Queue.step fault compile tapeSize limit))
          (Emission.Queue.start fault limit p s)) ∧
    ∀ limit, ∃ p, Program.ofText [] Program.growing limit = .ok p ∧
      {c | ∃ n, p.Reaches (fun c q => p.definitions.body limit c = .ok q) n c}.Infinite := by
  refine ⟨fun consume finish s => Expansion.Reader.ends source consume finish tokens dictionary s,
    ?_, LoopCheck.Worklist.run_mem_eval source tokens dictionary, ?_,
    Program.infinite_reaches_growing⟩
  · rw [← Source.result_parse]
    exact Expansion.Reader.ends source LoopBinder.consume Program.ofProgress tokens dictionary {}
  · exact fun p fault compile tapeSize limit s =>
      Emission.Queue.run_mem_eval fault compile tapeSize limit p s

end TapeLang
