import SledeMachine.Instruction
import SledeMachine.Layout

/-!
What a statement emits: the instruction or the bytes that it stands for. The opcode is looked up
first, then the arguments are counted, then they are read from left to right; the first failure is
the one reported. An operand that is a numeric literal is taken for its value, also where a label
has the same spelling.
-/

namespace SledeMachine

inductive StatementError
  | arity (opcode : Mnemonic) (expected : Nat) (args : List Text)
  | invalidRegister (token : Text)
  | unexpectedToken (token : Text)
  | unknownOpcode (token : Text)
  deriving DecidableEq, Repr

namespace StatementError

def message : StatementError → Text
  | .arity opcode expected args =>
      "expected ".toList ++ Text.decimal expected ++ " argument(s) for ".toList ++ opcode.name ++
        ", got ".toList ++ Text.decimal args.length ++ ": [".toList ++ Text.commaList args ++ [']']
  | .invalidRegister token => "invalid register: '".toList ++ token ++ "'".toList
  | .unexpectedToken token => "unexpected token: '".toList ++ token ++ "'".toList
  | .unknownOpcode token => "unknown opcode: '".toList ++ token ++ "'".toList

end StatementError

/-- What a statement stands for: an instruction, or bytes as they are. -/
inductive Emission
  | instruction (i : Instruction)
  | data (values : List UInt8)
  deriving DecidableEq, Repr

namespace Emission

def bytes : Emission → List UInt8
  | .instruction i => i.bytes
  | .data values => values

end Emission

namespace Operand

def register (token : Text) : Except StatementError Register :=
  match Register.ofToken? token with
  | some r => .ok r
  | none => .error (.invalidRegister token)

def byte (token : Text) : Except StatementError UInt8 :=
  match Literal.ofToken? token with
  | some value => .ok (Literal.toByte value)
  | none => .error (.unexpectedToken token)

/-- A literal or a label, as an address of twelve bits. -/
def address (addressOf : Text → Option Nat) (token : Text) : Except StatementError Nat :=
  match Literal.ofToken? token with
  | some value => .ok (Literal.toAddress value)
  | none =>
      match addressOf token with
      | some a => .ok (a % 4096)
      | none => .error (.unexpectedToken token)

end Operand

namespace Mnemonic

def noOperand (m : Mnemonic) (args : List Text) (result : Instruction) :
    Except StatementError Emission :=
  match args with
  | [] => .ok (.instruction result)
  | _ => .error (.arity m 0 args)

def oneRegister (m : Mnemonic) (args : List Text) (result : Register → Instruction) :
    Except StatementError Emission :=
  match args with
  | [a] => do return .instruction (result (← Operand.register a))
  | _ => .error (.arity m 1 args)

def twoRegisters (m : Mnemonic) (args : List Text)
    (result : Register → Register → Instruction) : Except StatementError Emission :=
  match args with
  | [a, b] => do
      let first ← Operand.register a
      let second ← Operand.register b
      return .instruction (result first second)
  | _ => .error (.arity m 2 args)

def oneAddress (addressOf : Text → Option Nat) (m : Mnemonic) (args : List Text)
    (result : Nat → Instruction) : Except StatementError Emission :=
  match args with
  | [a] => do return .instruction (result (← Operand.address addressOf a))
  | _ => .error (.arity m 1 args)

/-- A second operand that is a literal is set as a value, any other is copied from a register. -/
def setOperands (m : Mnemonic) (args : List Text) : Except StatementError Emission :=
  match args with
  | [a, b] => do
      let target ← Operand.register a
      match Literal.ofToken? b with
      | some value => return .instruction (.set target (Literal.toByte value))
      | none => return .instruction (.copy target (← Operand.register b))
  | _ => .error (.arity m 2 args)

def emission (addressOf : Text → Option Nat) (m : Mnemonic) (args : List Text) :
    Except StatementError Emission :=
  match m with
  | .halt => m.noOperand args .halt
  | .set => m.setOperands args
  | .locate => oneAddress addressOf m args .locate
  | .load => m.oneRegister args .load
  | .store => m.oneRegister args .store
  | .alu op => m.twoRegisters args (.alu op)
  | .read => m.oneRegister args .read
  | .write => m.oneRegister args .write
  | .compare op => m.twoRegisters args (.compare op)
  | .jump => oneAddress addressOf m args .jump
  | .branch => oneAddress addressOf m args .branch
  | .call => oneAddress addressOf m args .call
  | .ret => m.noOperand args .ret
  | .nop => m.noOperand args .nop
  | .data => do return .data (← args.mapM Operand.byte)

end Mnemonic

namespace Statement

def emission (addressOf : Text → Option Nat) (s : Statement) :
    Except StatementError Emission :=
  match Mnemonic.ofToken? s.opcode with
  | some m => m.emission addressOf s.args
  | none => .error (.unknownOpcode s.opcode)

end Statement
end SledeMachine
