import SledeMachine.DebugMap
import SledeMachine.Emission
import SledeMachine.Image

/-!
Assembly of a source text: its layout is made first, then every line that emits bytes is encoded
with all labels known, in order. The first line that has no encoding ends the assembly, and nothing
of the program is kept.
-/

namespace SledeMachine

structure AssemblyError where
  /-- The number of the line, from 0. -/
  line : Nat
  text : Text
  cause : StatementError
  deriving DecidableEq, Repr

namespace AssemblyError

/-- Messages count lines from 1. -/
def message (e : AssemblyError) : Text :=
  "on line ".toList ++ Text.decimal (e.line + 1) ++ ": ".toList ++ e.cause.message ++
    " (in `".toList ++ e.text ++ "`)".toList

end AssemblyError

structure Target where
  /-- The bytes of all lines, in order. -/
  code : List UInt8
  map : DebugMap
  deriving DecidableEq

namespace Target

/-- The binary image, which opens with the tag. -/
def image (t : Target) : List UInt8 := Image.tag ++ t.code

end Target

namespace SourceLine

def encode (addressOf : Text → Option Nat) (line : SourceLine) :
    Except AssemblyError (List UInt8) :=
  match line.statement.emission addressOf with
  | .ok emission => .ok emission.bytes
  | .error cause => .error ⟨line.number, line.text, cause⟩

end SourceLine

def assemble (source : Text) : Except AssemblyError Target := do
  let layout := Layout.ofSource source
  let encodings ← layout.lines.mapM fun line => line.encode layout.addressOf
  return { code := encodings.flatten, map := DebugMap.ofLines layout.lines }

end SledeMachine
