import SledeMachine.Instruction
import SledeMachine.Memory

/-!
The machine and the execution of one instruction. Executing fetches the word at the program
counter, moves the counter past it and applies the instruction. An instruction that fails leaves
the machine as it was but for the counter, which has moved.
-/

namespace SledeMachine

/-- The most return addresses that may be stacked. -/
def callLimit : Nat := 1000

/-- What ends a run early. All but the last carry the address of the instruction at fault. -/
inductive Fault
  | segmentation (pc : Nat)
  | tooManyCalls (pc : Nat)
  | readPastEnd (pc : Nat)
  | exhausted (maxTicks : Nat)
  deriving DecidableEq, Repr

namespace Fault

def pc? : Fault → Option Nat
  | .segmentation pc | .tooManyCalls pc | .readPastEnd pc => some pc
  | .exhausted _ => none

def message : Fault → Text
  | .segmentation pc => "segmentation fault at pc=".toList ++ Text.address pc
  | .tooManyCalls pc =>
      "more than ".toList ++ Text.decimal callLimit ++ " nested calls at pc=".toList ++
        Text.address pc
  | .readPastEnd pc => "read past end of input at pc=".toList ++ Text.address pc
  | .exhausted maxTicks =>
      "resources exhausted after ".toList ++ Text.decimal maxTicks ++ " ticks".toList

end Fault

structure Machine where
  /-- The address of the next instruction. -/
  pc : Nat
  /-- The outcome of the last comparison. -/
  flag : Bool
  registers : Registers
  memory : Memory
  /-- Every byte written, in order. -/
  output : Array UInt8
  /-- The number of input bytes read. -/
  inputPos : Nat
  /-- The return addresses, innermost first. -/
  calls : List Nat
  deriving DecidableEq

/-- What executing one instruction comes to. -/
inductive Outcome
  | running (m : Machine)
  | halted (m : Machine)
  | faulted (fault : Fault) (m : Machine)

namespace Machine

def initial (memory : Memory) : Machine where
  pc := 0
  flag := false
  registers := .zero
  memory
  output := #[]
  inputPos := 0
  calls := []

/-- The word at the program counter. -/
def word (m : Machine) : Word := m.memory.readWord m.pc

/-- The instruction at the program counter, if the word there is one. -/
def current? (m : Machine) : Option Instruction := (Instruction.decode m.word).toOption

/-- The machine with its program counter past the current instruction. -/
def advance (m : Machine) : Machine := { m with pc := m.pc + 2 }

def setRegister (m : Machine) (r : Register) (value : UInt8) : Machine :=
  { m with registers := m.registers.set r value }

/-- The effect of an instruction that stands at the program counter. -/
def execute (input : Array UInt8) (i : Instruction) (m : Machine) : Except Fault Machine :=
  let reg := m.registers.get
  match i with
  | .halt | .nop => .ok m.advance
  | .set a value => .ok (m.advance.setRegister a value)
  | .copy a b => .ok (m.advance.setRegister a (reg b))
  | .locate address => .ok { m.advance with registers := m.registers.setAddress address }
  | .load a => .ok (m.advance.setRegister a (m.memory.read m.registers.address))
  | .store a => .ok { m.advance with memory := m.memory.write m.registers.address (reg a) }
  | .alu op a b => .ok (m.advance.setRegister a (op.apply (reg a) (reg b)))
  | .read a =>
      match input[m.inputPos]? with
      | some value => .ok { m.advance.setRegister a value with inputPos := m.inputPos + 1 }
      | none => .error (.readPastEnd m.pc)
  | .write a => .ok { m.advance with output := m.output.push (reg a) }
  | .compare op a b => .ok { m.advance with flag := op.test (reg a) (reg b) }
  | .jump address => .ok { m with pc := address }
  | .branch address => .ok (if m.flag then { m with pc := address } else m.advance)
  | .call address =>
      if callLimit ≤ m.calls.length then .error (.tooManyCalls m.pc)
      else .ok { m with pc := address, calls := (m.pc + 2) :: m.calls }
  | .ret =>
      match m.calls with
      | back :: rest => .ok { m with pc := back, calls := rest }
      | [] => .error (.segmentation m.pc)

def step (input : Array UInt8) (m : Machine) : Outcome :=
  match m.current? with
  | none => .faulted (.segmentation m.pc) m.advance
  | some .halt => .halted m.advance
  | some i =>
      match m.execute input i with
      | .ok next => .running next
      | .error fault => .faulted fault m.advance

end Machine
end SledeMachine
