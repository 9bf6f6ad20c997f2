import SledeMachine.DebugMap
import SledeMachine.Disassembly
import SledeMachine.Machine

/-!
The description of a machine by the instruction that it is about to execute, in one line: the
address, the word there, its text, the source line that the debug map has for the address, and a
mark if the flag is set.
-/

namespace SledeMachine

namespace SourceLine

/-- A line with its number, counted from 1. -/
def citation (line : SourceLine) : Text :=
  "line ".toList ++ Text.decimal (line.number + 1) ++ ": ".toList ++ line.text

end SourceLine

namespace Machine

def describe (map : DebugMap) (m : Machine) : Text :=
  let instruction :=
    match m.current? with
    | some i => i.text
    | none => "<invalid>".toList
  let source :=
    match map.find? m.pc with
    | some line => "    ; ".toList ++ line.citation
    | none => []
  "[pc=".toList ++ Text.address m.pc ++ "] ".toList ++ Text.hex 4 m.word.toNat ++
    " --> ".toList ++ instruction ++ source ++ if m.flag then "  [flag]".toList else []

end Machine
end SledeMachine
