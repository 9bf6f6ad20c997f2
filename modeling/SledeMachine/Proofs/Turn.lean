import Mathlib.Algebra.Group.Nat.Defs
import SledeMachine.Machine
import SledeMachine.Proofs.Encoding

/-!
One turn of the execution loop, said in numbers. A turn reads the two bytes at the program counter
as a number, moves the counter past them and acts on the digits of the number in base sixteen:
the lowest is the class, the others are an operation, registers, a value or an address. Nothing
here mentions instructions; that decoding a word and executing the instruction comes to the same
turn is the main statement.
-/

namespace SledeMachine
namespace Turn

/-- The byte at an address as a number, with 0 for a byte past the end. -/
def byteAt (m : Machine) (a : Nat) : Nat :=
  if h : a < memorySize then (m.memory.bytes[a]).toNat else 0

def setByte (m : Machine) (a value : Nat) : Machine :=
  { m with memory := ⟨m.memory.bytes.setIfInBounds a (UInt8.ofNat value)⟩ }

def valueOf (m : Machine) (register : Nat) : Nat :=
  if h : register < 16 then (m.registers.values[register]).toNat else 0

def setValue (m : Machine) (register value : Nat) : Machine :=
  { m with registers := ⟨m.registers.values.setIfInBounds register (UInt8.ofNat value)⟩ }

/-- The address in registers 1 and 0, of which the former counts with four bits. -/
def pair (m : Machine) : Nat := (256 * valueOf m 1 + valueOf m 0) % 4096

/-- Arithmetic on bytes. Results are taken modulo 256 and shift counts modulo 32. -/
def arithmetic (operation left right : Nat) : Option Nat :=
  match operation with
  | 0 => some (left &&& right)
  | 1 => some (left ||| right)
  | 2 => some (left ^^^ right)
  | 3 => some (left * 2 ^ (right % 32) % 256)
  | 4 => some (left / 2 ^ (right % 32))
  | 5 => some ((left + right) % 256)
  | 6 => some ((left + 256 - right) % 256)
  | _ => none

def comparison (operation left right : Nat) : Option Bool :=
  match operation with
  | 0 => some (left = right)
  | 1 => some (left ≠ right)
  | 2 => some (left < right)
  | 3 => some (left ≤ right)
  | 4 => some (left > right)
  | 5 => some (left ≥ right)
  | _ => none

/-- The effect of a word with the given digits on a machine whose counter has moved past it;
`pc` is where the word stands. -/
def effect (input : Array UInt8) (pc word : Nat) (m : Machine) : Outcome :=
  let digit1 := word / 16 % 16
  let digit2 := word / 256 % 16
  let digit3 := word / 4096
  let address := word / 16
  match word % 16 with
  | 0 => .halted m
  | 1 => .running (setValue m digit1 (word / 256))
  | 2 => .running (setValue m digit1 (valueOf m digit2))
  | 3 => .running (setValue (setValue m 1 (address / 256 % 16)) 0 (address % 256))
  | 4 =>
      match digit1 with
      | 0 => .running (setValue m digit2 (byteAt m (pair m)))
      | 1 => .running (setByte m (pair m) (valueOf m digit2))
      | _ => .faulted (.segmentation pc) m
  | 5 =>
      match arithmetic digit1 (valueOf m digit2) (valueOf m digit3) with
      | some result => .running (setValue m digit2 result)
      | none => .faulted (.segmentation pc) m
  | 6 =>
      match digit1 with
      | 0 =>
          if h : m.inputPos < input.size then
            .running { setValue m digit2 input[m.inputPos].toNat with inputPos := m.inputPos + 1 }
          else .faulted (.readPastEnd pc) m
      | 1 => .running { m with output := m.output.push (UInt8.ofNat (valueOf m digit2)) }
      | _ => .faulted (.segmentation pc) m
  | 7 =>
      match comparison digit1 (valueOf m digit2) (valueOf m digit3) with
      | some result => .running { m with flag := result }
      | none => .faulted (.segmentation pc) m
  | 8 => .running { m with pc := address }
  | 9 => if m.flag then .running { m with pc := address } else .running m
  | 10 =>
      if m.calls.length < 1000 then .running { m with pc := address, calls := m.pc :: m.calls }
      else .faulted (.tooManyCalls pc) m
  | 11 =>
      match m.calls with
      | back :: rest => .running { m with pc := back, calls := rest }
      | [] => .faulted (.segmentation pc) m
  | 12 => .running m
  | _ => .faulted (.segmentation pc) m

def turn (input : Array UInt8) (m : Machine) : Outcome :=
  effect input m.pc (byteAt m m.pc + 256 * byteAt m (m.pc + 1)) { m with pc := m.pc + 2 }

section
variable {m : Machine}

theorem byteAt_eq (a : Nat) : byteAt m a = (m.memory.read a).toNat := by
  simp only [byteAt, Memory.read]
  split
  · rename_i inside
    simp [inside]
  · rename_i outside
    simp [Vector.getElem?_eq_none (Nat.not_lt.mp outside)]

theorem setByte_eq (a : Nat) (value : UInt8) :
    setByte m a value.toNat = { m with memory := m.memory.write a value } := by
  simp only [setByte, Memory.write, UInt8.ofNat_toNat]
  split
  · rename_i inside
    simp [Vector.setIfInBounds, Vector.set, Array.setIfInBounds, inside]
  · rename_i outside
    simp [Vector.setIfInBounds, Array.setIfInBounds, outside]

theorem valueOf_eq {n : Nat} (h : n < 16) :
    valueOf m n = (m.registers.get (Register.ofNibble n)).toNat := by
  simp [valueOf, Registers.get, Register.ofNibble, h, Nat.mod_eq_of_lt]

theorem setValue_eq {n : Nat} (h : n < 16) (value : Nat) :
    setValue m n value = m.setRegister (Register.ofNibble n) (UInt8.ofNat value) := by
  simp [setValue, Machine.setRegister, Registers.set, Vector.setIfInBounds, Vector.set,
    Array.setIfInBounds, Register.ofNibble, h, Nat.mod_eq_of_lt]

theorem pair_eq : pair m = m.registers.address := by
  rw [pair, Registers.address, valueOf_eq (by decide), valueOf_eq (by decide)]
  rfl

theorem word_toNat : m.word.toNat = byteAt m m.pc + 256 * byteAt m (m.pc + 1) := by
  simp only [Machine.word, Memory.readWord, Word.toNat_ofBytes, byteAt_eq]

end

theorem arithmetic_code (op : AluOp) (l r : UInt8) :
    arithmetic op.code l.toNat r.toNat = some (op.apply l r).toNat := by
  have hl : l.toNat < 2 ^ 8 := l.toNat_lt
  have hr : r.toNat < 2 ^ 8 := r.toNat_lt
  cases op with
  | and | or | xor | add => simp [arithmetic, AluOp.code, AluOp.apply]
  | shiftLeft => simp [arithmetic, AluOp.code, AluOp.apply, Nat.shiftLeft_eq]
  | shiftRight =>
      have bound : l.toNat / 2 ^ (r.toNat % 32) < 256 :=
        Nat.lt_of_le_of_lt (Nat.div_le_self _ _) hl
      simp [arithmetic, AluOp.code, AluOp.apply, Nat.shiftRight_eq_div_pow, Nat.mod_eq_of_lt bound]
  | subtract =>
      simp only [arithmetic, AluOp.code, AluOp.apply, UInt32.toUInt8_sub, UInt8.toUInt8_toUInt32,
        UInt8.toNat_sub, Option.some.injEq]
      omega

theorem arithmetic_eq_none {n : Nat} (h : 7 ≤ n) (l r : Nat) : arithmetic n l r = none := by
  simp only [arithmetic]
  split <;> first | omega | rfl

theorem comparison_code (op : CompareOp) (l r : UInt8) :
    comparison op.code l.toNat r.toNat = some (op.test l r) := by
  cases op <;>
    simp [comparison, CompareOp.code, CompareOp.test, UInt8.lt_iff_toNat_lt,
      UInt8.le_iff_toNat_le, ← UInt8.toNat_inj, bne, BEq.beq]

theorem comparison_eq_none {n : Nat} (h : 6 ≤ n) (l r : Nat) : comparison n l r = none := by
  simp only [comparison]
  split <;> first | omega | rfl

theorem step_eq_turn (input : Array UInt8) (m : Machine) : m.step input = turn input m := by
  have operation : m.word.toNat / 16 % 16 = m.word.operation := rfl
  have arg1 : m.word.toNat / 256 % 16 = m.word.arg1 := rfl
  have arg2 : m.word.toNat / 4096 = m.word.arg2 := rfl
  have value : UInt8.ofNat (m.word.toNat / 256) = m.word.value := rfl
  have address : m.word.toNat / 16 = m.word.address := rfl
  have operation_lt : m.word.operation < 16 := Nat.mod_lt _ (by decide)
  have arg1_lt : m.word.arg1 < 16 := Nat.mod_lt _ (by decide)
  have arg2_lt : m.word.arg2 < 16 := m.word.arg2_lt
  rw [turn, ← word_toNat]
  simp only [effect, show m.word.toNat % 16 = m.word.classCode from rfl, operation, arg1, arg2,
    Machine.step, Machine.current?]
  cases known : OpClass.ofCode m.word.classCode with
  | error e =>
      -- The class is none of the thirteen, so only the last case of the effect is left.
      have beyond := OpClass.le_of_ofCode_eq_error known
      simp only [Instruction.decode, known, bind, Except.bind, Except.toOption]
      split <;> first | omega | rfl
  | ok c =>
      rw [OpClass.ofCode_eq_ok_iff.mp known]
      simp only [Instruction.decode, known, bind, Except.bind, pure, Except.pure]
      cases c with
      | halt | nop => rfl
      | set =>
          simp only [OpClass.code, setValue_eq operation_lt, value]
          rfl
      | copy =>
          simp only [OpClass.code, setValue_eq operation_lt, valueOf_eq arg1_lt, UInt8.ofNat_toNat]
          rfl
      | locate =>
          simp only [OpClass.code, address]
          rw [setValue_eq (by decide), setValue_eq (by decide)]
          rfl
      | memory =>
          simp only [OpClass.code]
          obtain operation | operation | operation := m.word.operation
          · simp only [setValue_eq arg1_lt, byteAt_eq, pair_eq, UInt8.ofNat_toNat]
            rfl
          · simp only [setByte_eq, valueOf_eq arg1_lt, pair_eq]
            rfl
          · rfl
      | alu =>
          simp only [OpClass.code, valueOf_eq arg1_lt, valueOf_eq arg2_lt]
          cases op : AluOp.ofCode m.word.operation with
          | error e =>
              rw [arithmetic_eq_none (AluOp.le_of_ofCode_eq_error op)]
              rfl
          | ok op' =>
              rw [AluOp.ofCode_eq_ok_iff.mp op, arithmetic_code]
              simp only [setValue_eq arg1_lt, UInt8.ofNat_toNat]
              rfl
      | io =>
          simp only [OpClass.code]
          obtain operation | operation | operation := m.word.operation
          · simp only [Except.toOption, Machine.execute]
            by_cases more : m.inputPos < input.size
            · simp only [more, Array.getElem?_eq_getElem, dite_true, setValue_eq arg1_lt,
                UInt8.ofNat_toNat]
              rfl
            · simp only [more, Array.getElem?_eq_none (Nat.not_lt.mp more), dite_false]
              rfl
          · simp only [valueOf_eq arg1_lt, UInt8.ofNat_toNat]
            rfl
          · rfl
      | compare =>
          simp only [OpClass.code, valueOf_eq arg1_lt, valueOf_eq arg2_lt]
          cases op : CompareOp.ofCode m.word.operation with
          | error e =>
              rw [comparison_eq_none (CompareOp.le_of_ofCode_eq_error op)]
              rfl
          | ok op' =>
              rw [CompareOp.ofCode_eq_ok_iff.mp op, comparison_code]
              rfl
      | jump => rfl
      | branch =>
          simp only [OpClass.code, address, Except.toOption, Machine.execute]
          cases flag : m.flag <;> simp [Machine.advance, flag]
      | call =>
          simp only [OpClass.code, address, Except.toOption, Machine.execute, callLimit]
          by_cases full : 1000 ≤ m.calls.length
          · simp [full, Machine.advance, Nat.not_lt.mpr full]
          · simp [full, Nat.not_le.mp full]
      | ret =>
          simp only [OpClass.code, Except.toOption, Machine.execute]
          cases calls : m.calls <;> simp [Machine.advance, calls]

end Turn
end SledeMachine
