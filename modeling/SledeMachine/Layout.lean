import SledeMachine.Mnemonic
import SledeMachine.Statement

/-!
The layout of a source text: what each line is and at which address its bytes begin. Lines are
numbered from 0 and trimmed. A blank line, a comment and a label take no bytes, an instruction
takes a word and a data directive a byte for each value, so every address is known before any
statement is read and a label may be used before the line that defines it.
-/

namespace SledeMachine

inductive LineKind
  | blank
  | comment
  | label (name : Text)
  | data
  | instruction
  deriving DecidableEq, Repr

namespace LineKind

/-- Whatever is not blank, a comment, a label alone or a data directive counts as an instruction,
whether its statement means anything or not. -/
def ofLine (line : Text) : LineKind :=
  if line = [] then .blank
  else if line.head? = some ';' then .comment
  else match Label.ofLine? line with
    | some name => .label name
    | none => if (Statement.ofLine line).opcode = dataDirective then .data else .instruction

/-- Whether a line of this kind takes part in the program, if only with no bytes. -/
def emits : LineKind → Bool
  | .data | .instruction => true
  | _ => false

end LineKind

/-- A line of a source: its number from 0, the address of the next byte that it or a later line
emits, and its trimmed text. -/
structure SourceLine where
  number : Nat
  address : Nat
  text : Text
  deriving DecidableEq, Repr

namespace SourceLine

def kind (line : SourceLine) : LineKind := LineKind.ofLine line.text

def statement (line : SourceLine) : Statement := Statement.ofLine line.text

end SourceLine

/-- A definition of a label: its name, the number of its line and the address it stands for. -/
structure Label where
  name : Text
  line : Nat
  address : Nat
  deriving DecidableEq, Repr

namespace Label

def ofSourceLine? (line : SourceLine) : Option Label :=
  match line.kind with
  | .label name => some ⟨name, line.number, line.address⟩
  | _ => none

/-- The address a name stands for: that of its last definition. -/
def addressOf (labels : List Label) (name : Text) : Option Nat :=
  (labels.filter fun l => l.name = name).getLast?.map Label.address

end Label

structure Layout where
  /-- The lines that emit bytes, in the order of the source. -/
  lines : List SourceLine
  /-- Every definition of a label, in the order of the source. -/
  labels : List Label
  deriving DecidableEq, Repr

namespace Layout

/-- The number of bytes that are reserved for a line. -/
def size (line : Text) : Nat :=
  match LineKind.ofLine line with
  | .data => (Statement.ofLine line).args.length
  | .instruction => 2
  | _ => 0

/-- Numbers and places lines from a given number and address on. -/
def place : List Text → Nat → Nat → List SourceLine
  | [], _, _ => []
  | line :: rest, number, address =>
      ⟨number, address, line⟩ :: place rest (number + 1) (address + size line)

/-- The trimmed lines of a source. A carriage return before a line feed is white space and goes
with the rest of it. -/
def sourceLines (source : Text) : List Text := (source.splitOn '\n').map Text.trim

def ofSource (source : Text) : Layout :=
  let placed := place (sourceLines source) 0 0
  { lines := placed.filter fun line => line.kind.emits
    labels := placed.filterMap Label.ofSourceLine? }

def addressOf (layout : Layout) (name : Text) : Option Nat :=
  Label.addressOf layout.labels name

/-- The names that are defined, each once. -/
def labelNames (layout : Layout) : List Text := (layout.labels.map Label.name).eraseDups

end Layout
end SledeMachine
