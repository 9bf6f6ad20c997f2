import Mathlib.Data.List.Basic
import SledeMachine.Proofs.Traversal
import SledeMachine.Run

/-!
What loading accepts: the tag followed by a program, together no longer than memory. The program
then stands at address 0, zeros follow it, and nothing has been read, written or called.
-/

namespace SledeMachine

theorem Image.program?_eq_some_iff {bytes program : List UInt8} :
    program? bytes = some program ↔ bytes = tag ++ program := by
  rw [program?, List.isPrefixOf?_eq_some_iff_append_eq, eq_comm]

theorem Image.program_eq_ok_iff {image program : List UInt8} :
    Image.program image = .ok program ↔ image.length ≤ memorySize ∧ image = tag ++ program := by
  simp only [Image.program]
  by_cases large : memorySize < image.length
  · simp [large, Nat.not_le.mpr large]
  · rw [if_neg large]
    constructor
    · intro h
      cases found : program? image with
      | none => simp [found] at h
      | some bytes =>
          simp only [found, Except.ok.injEq] at h
          subst h
          exact ⟨Nat.not_lt.mp large, program?_eq_some_iff.mp found⟩
    · rintro ⟨-, tagged⟩
      simp [program?_eq_some_iff.mpr tagged]

theorem Run.load_eq_ok_iff {image : List UInt8} {input : Array UInt8} {r : Run} :
    Run.load image input = .ok r ↔
      ∃ program, image.length ≤ memorySize ∧ image = Image.tag ++ program ∧
        r = ⟨.initial (.ofProgram program), input, defaultMaxTicks, 0, .loaded⟩ := by
  simp only [Run.load, Memory.load, Traversal.map_eq_ok_iff, Image.program_eq_ok_iff]
  constructor
  · rintro ⟨memory, ⟨program, ⟨small, tagged⟩, rfl⟩, rfl⟩
    exact ⟨program, small, tagged, rfl⟩
  · rintro ⟨program, small, tagged, rfl⟩
    exact ⟨_, ⟨program, ⟨small, tagged⟩, rfl⟩, rfl⟩

namespace Machine
variable {m : Machine} {program : List UInt8} (loaded : m.memory = .ofProgram program)
  (inside : m.pc + 1 < memorySize)
include loaded inside

/-- As long as memory is as it was loaded, the words are those of the program. -/
theorem word_of_program :
    m.word = Word.ofBytes (program[m.pc]?.getD 0) (program[m.pc + 1]?.getD 0) := by
  rw [word, Memory.readWord, loaded, Memory.read_ofProgram (Nat.lt_of_succ_lt inside),
    Memory.read_ofProgram inside]

theorem current?_of_program :
    m.current? =
      (Instruction.decode
        (Word.ofBytes (program[m.pc]?.getD 0) (program[m.pc + 1]?.getD 0))).toOption := by
  rw [current?, word_of_program loaded inside]

end Machine

end SledeMachine
