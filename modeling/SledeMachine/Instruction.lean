import SledeMachine.Operation
import SledeMachine.Register
import SledeMachine.Word

/-!
Instructions, their encoding as a word and the decoding of a word. An instruction holds an address
as it was given; encoding keeps its low twelve bits. Decoding ignores the bits that a class does
not use, so several words may decode to one instruction, and encoding it gives the one of them in
which those bits are zero.
-/

namespace SledeMachine

inductive Instruction
  | halt
  | set (a : Register) (value : UInt8)
  | copy (a b : Register)
  | locate (address : Nat)
  | load (a : Register)
  | store (a : Register)
  | alu (op : AluOp) (a b : Register)
  | read (a : Register)
  | write (a : Register)
  | compare (op : CompareOp) (a b : Register)
  | jump (address : Nat)
  | branch (address : Nat)
  | call (address : Nat)
  | ret
  | nop
  deriving DecidableEq, Repr

namespace Instruction

def opClass : Instruction → OpClass
  | .halt => .halt
  | .set _ _ => .set
  | .copy _ _ => .copy
  | .locate _ => .locate
  | .load _ | .store _ => .memory
  | .alu _ _ _ => .alu
  | .read _ | .write _ => .io
  | .compare _ _ _ => .compare
  | .jump _ => .jump
  | .branch _ => .branch
  | .call _ => .call
  | .ret => .ret
  | .nop => .nop

def encode (i : Instruction) : Word :=
  let c := i.opClass.code
  match i with
  | .halt | .ret | .nop => Word.ofNibbles c 0 0 0
  | .set a value => Word.ofNibblesByte c a value
  | .copy a b => Word.ofNibblesByte c a (UInt8.ofNat b)
  | .locate address | .jump address | .branch address | .call address =>
      Word.ofNibbleAddress c address
  | .load a | .read a => Word.ofNibbles c 0 a 0
  | .store a | .write a => Word.ofNibbles c 1 a 0
  | .alu op a b => Word.ofNibbles c op.code a b
  | .compare op a b => Word.ofNibbles c op.code a b

def bytes (i : Instruction) : List UInt8 := i.encode.bytes

def decode (w : Word) : Except CodeError Instruction := do
  let first := Register.ofNibble w.arg1
  let second := Register.ofNibble w.arg2
  match ← OpClass.ofCode w.classCode with
  | .halt => pure .halt
  | .set => pure (.set (Register.ofNibble w.operation) w.value)
  | .copy => pure (.copy (Register.ofNibble w.operation) first)
  | .locate => pure (.locate w.address)
  | .memory =>
      match w.operation with
      | 0 => pure (.load first)
      | 1 => pure (.store first)
      | n => throw (.operation OpClass.memory.code n)
  | .alu => do
      let op ← AluOp.ofCode w.operation
      pure (.alu op first second)
  | .io =>
      match w.operation with
      | 0 => pure (.read first)
      | 1 => pure (.write first)
      | n => throw (.operation OpClass.io.code n)
  | .compare => do
      let op ← CompareOp.ofCode w.operation
      pure (.compare op first second)
  | .jump => pure (.jump w.address)
  | .branch => pure (.branch w.address)
  | .call => pure (.call w.address)
  | .ret => pure .ret
  | .nop => pure .nop

@[simp] theorem length_bytes (i : Instruction) : i.bytes.length = 2 := rfl

end Instruction
end SledeMachine
