import SledeMachine.DebugMap
import SledeMachine.Disassembly

/-!
Listings of machine code. Rows follow one another without a gap. Where the debug map has a data
directive with values, the row takes as many bytes as it has values, or as many as are left;
elsewhere it takes a word, or the last byte alone.
-/

namespace SledeMachine

/-- A row of a listing: an address, the bytes there, the statement that assembles to them, and
the source line that the debug map has at the address. -/
structure ListingRow where
  address : Nat
  bytes : List UInt8
  statement : Statement
  source : Option SourceLine
  deriving DecidableEq, Repr

namespace ListingRow

def text (row : ListingRow) : Text := row.statement.text

/-- A row as it is shown, with its columns filled up; a source line is numbered from 1. -/
def display (row : ListingRow) : Text :=
  let bytes := " ".toList.intercalate (row.bytes.map fun b => Text.hex 2 b.toNat)
  Text.address row.address ++ "  ".toList ++ Text.fillRight ' ' 11 bytes ++ "  ".toList ++
    Text.fillRight ' ' 16 row.text ++
    match row.source with
    | none => []
    | some line =>
        "  ; ".toList ++ Text.fillLeft ' ' 4 (Text.decimal (line.number + 1)) ++ ": ".toList ++
          line.text

end ListingRow

namespace Listing

/-- The number of values of a data directive that the map has at an address, and 0 for any other
line or none. -/
def dataLength (map : DebugMap) (address : Nat) : Nat :=
  match map.find? address with
  | some line => if line.statement.opcode = dataDirective then line.statement.args.length else 0
  | none => 0

/-- The rows for the bytes from an address on. A last byte alone is data in any case. -/
def rowsFrom (map : DebugMap) (address : Nat) : List UInt8 → List ListingRow
  | [] => []
  | [last] => [⟨address, [last], .ofData [last], map.find? address⟩]
  | first :: second :: rest =>
      match dataLength map address with
      | 0 =>
          ⟨address, [first, second], .ofWord (Word.ofBytes first second), map.find? address⟩ ::
            rowsFrom map (address + 2) rest
      | count + 1 =>
          let bytes := first :: (second :: rest).take count
          ⟨address, bytes, .ofData bytes, map.find? address⟩ ::
            rowsFrom map (address + bytes.length) ((second :: rest).drop count)
termination_by bytes => bytes.length
decreasing_by
  all_goals simp only [List.length_cons, List.length_drop]; omega

end Listing

/-- The listing of a program that stands at address 0. -/
def disassemble (map : DebugMap) (program : List UInt8) : List ListingRow :=
  Listing.rowsFrom map 0 program

end SledeMachine
