import SledeMachine.Operation
import SledeMachine.Token

/-!
The twenty-six opcodes of the assembly language and how they are recognized. Names are
tried in a fixed order and the first that fits is taken, so of two names that begin alike the
longer has to come first.
-/

namespace SledeMachine

inductive Mnemonic
  | halt
  | set
  | locate
  | load
  | store
  | alu (op : AluOp)
  | read
  | write
  | compare (op : CompareOp)
  | jump
  | branch
  | call
  | ret
  | nop
  | data
  deriving DecidableEq, Repr

/-- The opcode that is followed by bytes instead of naming an instruction. -/
def dataDirective : Text := ".DATA".toList

namespace AluOp

def token : Token AluOp := Token.ofNames all name

end AluOp

namespace CompareOp

/-- `MEL` and `SEL` stand before `ME` and `SE`, with which they begin. -/
def token : Token CompareOp := Token.ofNames [.eq, .ne, .le, .lt, .ge, .gt] name

end CompareOp

namespace Mnemonic

def name : Mnemonic → Text
  | .halt => "STOPP".toList
  | .set => "SETT".toList
  | .locate => "FINN".toList
  | .load => "LAST".toList
  | .store => "LAGR".toList
  | .alu op => op.name
  | .read => "LES".toList
  | .write => "SKRIV".toList
  | .compare op => op.name
  | .jump => "HOPP".toList
  | .branch => "BHOPP".toList
  | .call => "TUR".toList
  | .ret => "RETUR".toList
  | .nop => "NOPE".toList
  | .data => dataDirective

/-- The opcodes without a sub-operation, in the order in which they are tried. -/
def simple : List Mnemonic :=
  [.halt, .set, .locate, .load, .store, .read, .write, .branch, .jump, .call, .ret, .nop, .data]

def token : Token Mnemonic := fun t =>
  (Token.ofNames simple name t).or <|
    ((AluOp.token t).map fun (op, rest) => (.alu op, rest)).or <|
      (CompareOp.token t).map fun (op, rest) => (.compare op, rest)

def ofToken? (t : Text) : Option Mnemonic := token.whole t

end Mnemonic
end SledeMachine
