import SledeMachine.Event
import SledeMachine.Utf8

/-!
What a command writes, as a list of pieces in the order of writing. A piece goes to one of two
streams: bytes to the output, lines and log records to the diagnostics. Which records are shown is
decided only when the transcript is rendered.
-/

namespace SledeMachine

inductive Piece
  | out (bytes : List UInt8)
  | err (line : Text)
  | log (event : Event)
  /-- A pause of so many nanoseconds. -/
  | wait (nanoseconds : Nat)
  deriving DecidableEq, Repr

abbrev Transcript := List Piece

namespace Piece

def outLine (line : Text) : Piece := .out (line ++ ['\n']).utf8

/-- A log record as it is shown, or nothing if it is less urgent than the threshold. -/
def logLine (threshold : Level) (event : Event) : Option Text :=
  if event.level.rank ≤ threshold.rank then
    some ('[' :: event.level.name.toList.map Char.toUpper ++ "] ".toList ++ event.text)
  else none

end Piece

namespace Transcript

def output (t : Transcript) : List UInt8 :=
  t.flatMap fun
    | .out bytes => bytes
    | _ => []

def diagnostics (threshold : Level) (t : Transcript) : Text :=
  t.flatMap fun
    | .err line => line ++ ['\n']
    | .log event =>
        match Piece.logLine threshold event with
        | some line => line ++ ['\n']
        | none => []
    | _ => []

end Transcript
end SledeMachine
