import TapeLang.Text.Utf8

/-! What a console shows: pieces on standard output and text on standard error. -/
namespace TapeLang.Console

/-- A piece of standard output. The time that a run took is filled in when it is known. -/
inductive Piece where
  | text (t : Text)
  | bytes (content : List UInt8)
  | elapsed
deriving DecidableEq, Repr

/-- The bytes of a piece, given the text of the time. -/
def Piece.encode (time : Text) : Piece → List UInt8
  | .text t => Text.toUtf8 t
  | .bytes content => content
  | .elapsed => Text.toUtf8 time

structure Screen where
  output : List Piece := []
  errors : Text := []
deriving DecidableEq, Repr

namespace Screen

def print (s : Screen) (t : Text) : Screen := { s with output := s.output ++ [.text t] }

def printLine (s : Screen) (t : Text) : Screen := s.print (t ++ ['\n'])

def printBytes (s : Screen) (content : List UInt8) : Screen :=
  { s with output := s.output ++ [.bytes content] }

def printElapsed (s : Screen) : Screen := { s with output := s.output ++ [.elapsed] }

/-- A line on standard error. -/
def complain (s : Screen) (t : Text) : Screen := { s with errors := s.errors ++ t ++ ['\n'] }

end Screen
end TapeLang.Console
