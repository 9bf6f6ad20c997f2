import SledeMachine.Instruction
import SledeMachine.Mnemonic
import SledeMachine.Statement

/-!
Machine code as statements of the assembly language. An instruction is written with its opcode,
registers by name, a value in decimal and an address in hexadecimal; bytes that are no
instruction are written as a data directive. Such a statement emits the same code.
-/

namespace SledeMachine

namespace Instruction

def mnemonic : Instruction → Mnemonic
  | .halt => .halt
  | .set _ _ | .copy _ _ => .set
  | .locate _ => .locate
  | .load _ => .load
  | .store _ => .store
  | .alu op _ _ => .alu op
  | .read _ => .read
  | .write _ => .write
  | .compare op _ _ => .compare op
  | .jump _ => .jump
  | .branch _ => .branch
  | .call _ => .call
  | .ret => .ret
  | .nop => .nop

def operands : Instruction → List Text
  | .halt | .ret | .nop => []
  | .set a value => [a.text, Text.decimal value.toNat]
  | .copy a b | .alu _ a b | .compare _ a b => [a.text, b.text]
  | .load a | .store a | .read a | .write a => [a.text]
  | .locate address | .jump address | .branch address | .call address => [Text.address address]

def statement (i : Instruction) : Statement := ⟨i.mnemonic.name, i.operands⟩

def text (i : Instruction) : Text := i.statement.text

end Instruction

namespace Statement

/-- The data directive for given bytes. -/
def ofData (bytes : List UInt8) : Statement := ⟨dataDirective, bytes.map Text.byte⟩

/-- A word as the instruction that it decodes to, or else as its two bytes. -/
def ofWord (w : Word) : Statement :=
  match Instruction.decode w with
  | .ok i => i.statement
  | .error _ => ofData w.bytes

end Statement
end SledeMachine
