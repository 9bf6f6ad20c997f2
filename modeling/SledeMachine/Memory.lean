import SledeMachine.Image
import SledeMachine.Word

/-!
Memory: 4096 bytes, each with an address. A byte past the end reads as 0 and is never written.
-/

namespace SledeMachine

structure Memory where
  bytes : Vector UInt8 memorySize
  deriving DecidableEq

namespace Memory

def zero : Memory := ⟨Vector.replicate memorySize 0⟩

def read (m : Memory) (address : Nat) : UInt8 := m.bytes[address]?.getD 0

def write (m : Memory) (address : Nat) (value : UInt8) : Memory :=
  if h : address < memorySize then ⟨m.bytes.set address value⟩ else m

/-- The word whose low byte is at an address. -/
def readWord (m : Memory) (address : Nat) : Word :=
  Word.ofBytes (m.read address) (m.read (address + 1))

/-- Memory with a program at address 0 and zeros after it. -/
def ofProgram (program : List UInt8) : Memory :=
  let source := program.toArray
  ⟨Vector.ofFn fun i => source[i.val]?.getD 0⟩

def load (image : List UInt8) : Except LoadError Memory :=
  (Image.program image).map ofProgram

theorem read_of_le {m : Memory} {address : Nat} (h : memorySize ≤ address) :
    m.read address = 0 := by
  simp [read, Vector.getElem?_eq_none h]

theorem read_write (m : Memory) (a b : Nat) (value : UInt8) :
    (m.write a value).read b = if b = a ∧ a < memorySize then value else m.read b := by
  unfold write
  split
  · rename_i h
    simp only [read, Vector.getElem?_set]
    by_cases hab : a = b
    · subst hab
      simp [h]
    · simp [hab, Ne.symm hab]
  · rename_i h
    simp [h]

theorem read_ofProgram {program : List UInt8} {address : Nat} (h : address < memorySize) :
    (ofProgram program).read address = program[address]?.getD 0 := by
  simp [read, ofProgram, h]

@[ext] theorem ext {m n : Memory} (h : ∀ a < memorySize, m.read a = n.read a) : m = n := by
  cases m
  cases n
  congr 1
  refine Vector.ext fun i hi => ?_
  simpa [read, hi] using h i hi

end Memory
end SledeMachine
