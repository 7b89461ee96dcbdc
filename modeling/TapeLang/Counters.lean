import TapeLang.Decimal.Fixed

/-! Counters of a run and their report. -/
namespace TapeLang

/-- The size of the programs read, the completed steps, and what they did to the tape. -/
structure Counters where
  programSize : Nat := 0
  steps : Nat := 0
  moves : Nat := 0
  reads : Nat := 0
  writes : Nat := 0
deriving DecidableEq, Repr

/-- The figures of a report, beside the time that the run took. -/
structure Report where
  programSize : Int := 0
  steps : Int := 0
  moves : Int := 0
  reads : Int := 0
  writes : Int := 0

/-- Milliseconds have three places. -/
def Report.timeText (milliseconds : Decimal.Exact) : Text := Decimal.fixed 3 milliseconds

/-- The report up to the time. -/
def Report.head (r : Report) : Text :=
  "PROG_SIZE = ".toList ++ Text.ofInt r.programSize ++ "\nEXEC_TIME = ".toList

/-- The report behind the time. -/
def Report.tail (r : Report) : Text :=
  " ms\n".toList ++ Text.join ['\n']
    ["EXEC_MOVE = ".toList ++ Text.ofInt r.steps,
     "DATA_MOVE = ".toList ++ Text.ofInt r.moves,
     "DATA_READ = ".toList ++ Text.ofInt r.reads,
     "DATA_WRITE = ".toList ++ Text.ofInt r.writes]

/-- The whole report, with the text of a time in milliseconds. -/
def Report.render (r : Report) (time : Text) : Text := r.head ++ time ++ r.tail

def Counters.report (c : Counters) : Report :=
  { programSize := c.programSize, steps := c.steps, moves := c.moves, reads := c.reads
    writes := c.writes }

end TapeLang
