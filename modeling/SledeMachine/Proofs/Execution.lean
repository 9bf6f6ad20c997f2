import Mathlib.Data.List.Basic
import SledeMachine.Machine

/-!
What instructions do. There is one rule for each way in which an instruction is executed; a step
that the machine survives goes by one of them. From the rules one reads off, part by part, what a
step leaves of a machine: the value that the instruction gives to the part, if it is one of those
that do, and otherwise the value that was there.
-/

namespace SledeMachine
namespace Machine

/-- The machine that an instruction leads to. -/
inductive Executes (input : Array UInt8) (m : Machine) : Instruction → Machine → Prop
  | halt : Executes input m .halt m.advance
  | nop : Executes input m .nop m.advance
  | set (a : Register) (value : UInt8) :
      Executes input m (.set a value) (m.advance.setRegister a value)
  | copy (a b : Register) :
      Executes input m (.copy a b) (m.advance.setRegister a (m.registers.get b))
  | locate (n : Nat) :
      Executes input m (.locate n) { m.advance with registers := m.registers.setAddress n }
  | load (a : Register) :
      Executes input m (.load a)
        (m.advance.setRegister a (m.memory.read m.registers.address))
  | store (a : Register) :
      Executes input m (.store a)
        { m.advance with memory := m.memory.write m.registers.address (m.registers.get a) }
  | alu (op : AluOp) (a b : Register) :
      Executes input m (.alu op a b)
        (m.advance.setRegister a (op.apply (m.registers.get a) (m.registers.get b)))
  | read (a : Register) {value : UInt8} (more : input[m.inputPos]? = some value) :
      Executes input m (.read a)
        { m.advance.setRegister a value with inputPos := m.inputPos + 1 }
  | write (a : Register) :
      Executes input m (.write a)
        { m.advance with output := m.output.push (m.registers.get a) }
  | compare (op : CompareOp) (a b : Register) :
      Executes input m (.compare op a b)
        { m.advance with flag := op.test (m.registers.get a) (m.registers.get b) }
  | jump (n : Nat) : Executes input m (.jump n) { m with pc := n }
  | branch (n : Nat) (taken : m.flag = true) : Executes input m (.branch n) { m with pc := n }
  | pass (n : Nat) (notTaken : m.flag = false) : Executes input m (.branch n) m.advance
  | call (n : Nat) (room : m.calls.length < callLimit) :
      Executes input m (.call n) { m with pc := n, calls := (m.pc + 2) :: m.calls }
  | ret {back : Nat} {rest : List Nat} (calls : m.calls = back :: rest) :
      Executes input m .ret { m with pc := back, calls := rest }

/-- The fault that keeps an instruction from being executed. -/
inductive Fails (input : Array UInt8) (m : Machine) : Instruction → Fault → Prop
  | read (a : Register) (spent : input[m.inputPos]? = none) :
      Fails input m (.read a) (.readPastEnd m.pc)
  | call (n : Nat) (full : callLimit ≤ m.calls.length) :
      Fails input m (.call n) (.tooManyCalls m.pc)
  | ret (empty : m.calls = []) : Fails input m .ret (.segmentation m.pc)

/-- What executing an instruction comes to, wherever it was read. -/
def perform (input : Array UInt8) (i : Instruction) (m : Machine) : Outcome :=
  match i with
  | .halt => .halted m.advance
  | i =>
      match m.execute input i with
      | .ok next => .running next
      | .error fault => .faulted fault m.advance

section
variable (input : Array UInt8) (m : Machine)

/-- The byte that the current instruction stores at an address. -/
def stores (address : Nat) : Option UInt8 :=
  match m.current? with
  | some (.store a) => if address = m.registers.address then some (m.registers.get a) else none
  | _ => none

/-- The byte that the current instruction writes. -/
def writes : Option UInt8 :=
  match m.current? with
  | some (.write a) => some (m.registers.get a)
  | _ => none

/-- The register into which the current instruction reads a byte. -/
def reads : Option Register :=
  match m.current? with
  | some (.read a) => some a
  | _ => none

end

section
variable {input : Array UInt8} {m next last : Machine} {i : Instruction} {fault : Fault}

theorem Executes.execute_eq (h : Executes input m i next) : m.execute input i = .ok next := by
  cases h with
  | read a more => unfold execute; rw [more]
  | branch n flag | pass n flag => unfold execute; rw [flag]; rfl
  | call n room => exact if_neg (Nat.not_le.mpr room)
  | ret calls => unfold execute; rw [calls]
  | _ => rfl

theorem Fails.execute_eq (h : Fails input m i fault) : m.execute input i = .error fault := by
  cases h with
  | read a spent => unfold execute; rw [spent]
  | call n full => exact if_pos full
  | ret empty => unfold execute; rw [empty]

variable (input m i) in
theorem executes_or_fails : (∃ next, Executes input m i next) ∨ ∃ fault, Fails input m i fault := by
  cases i with
  | read a =>
      cases more : input[m.inputPos]? with
      | some value => exact .inl ⟨_, .read a more⟩
      | none => exact .inr ⟨_, .read a more⟩
  | branch n =>
      cases flag : m.flag with
      | true => exact .inl ⟨_, .branch n flag⟩
      | false => exact .inl ⟨_, .pass n flag⟩
  | call n =>
      by_cases full : callLimit ≤ m.calls.length
      · exact .inr ⟨_, .call n full⟩
      · exact .inl ⟨_, .call n (Nat.not_le.mp full)⟩
  | ret =>
      cases calls : m.calls with
      | cons back rest => exact .inl ⟨_, .ret calls⟩
      | nil => exact .inr ⟨_, .ret calls⟩
  | _ => exact .inl ⟨_, by constructor⟩

theorem execute_eq_ok_iff : m.execute input i = .ok next ↔ Executes input m i next := by
  refine ⟨fun h => ?_, Executes.execute_eq⟩
  obtain ⟨other, executed⟩ | ⟨fault, fails⟩ := executes_or_fails input m i
  · cases h.symm.trans executed.execute_eq
    exact executed
  · cases h.symm.trans fails.execute_eq

theorem execute_eq_error_iff : m.execute input i = .error fault ↔ Fails input m i fault := by
  refine ⟨fun h => ?_, Fails.execute_eq⟩
  obtain ⟨other, executed⟩ | ⟨other, fails⟩ := executes_or_fails input m i
  · cases h.symm.trans executed.execute_eq
  · cases h.symm.trans fails.execute_eq
    exact fails

theorem perform_halt : m.perform input .halt = .halted m.advance := rfl

theorem perform_of_ne_halt (goesOn : i ≠ .halt) :
    m.perform input i =
      match m.execute input i with
      | .ok next => .running next
      | .error fault => .faulted fault m.advance := by
  cases i with
  | halt => exact absurd rfl goesOn
  | _ => rfl

theorem step_of_current (current : m.current? = some i) : m.step input = m.perform input i := by
  rw [step, current]
  cases i <;> rfl

theorem step_of_current_eq_none (none : m.current? = none) :
    m.step input = .faulted (.segmentation m.pc) m.advance := by
  rw [step, none]

theorem step_eq_running_iff :
    m.step input = .running next ↔
      ∃ i, m.current? = some i ∧ i ≠ .halt ∧ Executes input m i next := by
  cases current : m.current? with
  | none => simp [step_of_current_eq_none current]
  | some i =>
      rw [step_of_current current]
      by_cases halt : i = .halt
      · subst halt
        simp [perform_halt]
      · rw [perform_of_ne_halt halt]
        simp only [← execute_eq_ok_iff, Option.some.injEq, exists_eq_left', ne_eq, halt,
          not_false_eq_true, true_and]
        cases m.execute input i <;> simp

theorem step_eq_halted_iff :
    m.step input = .halted last ↔ m.current? = some .halt ∧ last = m.advance := by
  cases current : m.current? with
  | none => simp [step_of_current_eq_none current]
  | some i =>
      rw [step_of_current current]
      by_cases halt : i = .halt
      · subst halt
        simp [perform_halt, eq_comm]
      · rw [perform_of_ne_halt halt]
        cases m.execute input i <;> simp [halt]

/-- A step that fails moves the counter past the instruction and does nothing else. -/
theorem step_eq_faulted_iff :
    m.step input = .faulted fault last ↔
      last = m.advance ∧
        (m.current? = none ∧ fault = .segmentation m.pc ∨
          ∃ i, m.current? = some i ∧ Fails input m i fault) := by
  cases current : m.current? with
  | none => simp [step_of_current_eq_none current, eq_comm, and_comm]
  | some i =>
      rw [step_of_current current]
      simp only [reduceCtorEq, false_and, false_or, Option.some.injEq, exists_eq_left',
        ← execute_eq_error_iff]
      by_cases halt : i = .halt
      · subst halt
        simp [perform_halt, (Executes.halt : Executes input m .halt _).execute_eq]
      · rw [perform_of_ne_halt halt]
        cases m.execute input i <;> simp [eq_comm, and_comm]

/-- A fault of a step carries the address of its instruction. -/
theorem pc_of_step_faulted (h : m.step input = .faulted fault last) : fault.pc? = some m.pc := by
  obtain ⟨-, ⟨-, rfl⟩ | ⟨i, -, fails⟩⟩ := step_eq_faulted_iff.mp h
  · rfl
  · cases fails <;> rfl

theorem step_segmentation_iff {pc : Nat} :
    (∃ last, m.step input = .faulted (.segmentation pc) last) ↔
      pc = m.pc ∧ (m.current? = none ∨ m.current? = some .ret ∧ m.calls = []) := by
  simp only [step_eq_faulted_iff, exists_eq_left, Fault.segmentation.injEq]
  constructor
  · rintro (⟨none, rfl⟩ | ⟨i, current, fails⟩)
    · exact ⟨rfl, .inl none⟩
    · cases fails with
      | ret empty => exact ⟨rfl, .inr ⟨current, empty⟩⟩
  · rintro ⟨rfl, none | ⟨current, empty⟩⟩
    · exact .inl ⟨none, rfl⟩
    · exact .inr ⟨.ret, current, .ret empty⟩

theorem step_tooManyCalls_iff {pc : Nat} :
    (∃ last, m.step input = .faulted (.tooManyCalls pc) last) ↔
      pc = m.pc ∧ (∃ n, m.current? = some (.call n)) ∧ callLimit ≤ m.calls.length := by
  simp only [step_eq_faulted_iff, exists_eq_left, reduceCtorEq, and_false, false_or]
  constructor
  · rintro ⟨i, current, fails⟩
    cases fails with
    | call n full => exact ⟨rfl, ⟨n, current⟩, full⟩
  · rintro ⟨rfl, ⟨n, current⟩, full⟩
    exact ⟨.call n, current, .call n full⟩

theorem step_readPastEnd_iff {pc : Nat} :
    (∃ last, m.step input = .faulted (.readPastEnd pc) last) ↔
      pc = m.pc ∧ (∃ a, m.current? = some (.read a)) ∧ input.size ≤ m.inputPos := by
  simp only [step_eq_faulted_iff, exists_eq_left, reduceCtorEq, and_false, false_or]
  constructor
  · rintro ⟨i, current, fails⟩
    cases fails with
    | read a spent => exact ⟨rfl, ⟨a, current⟩, Array.getElem?_eq_none_iff.mp spent⟩
  · rintro ⟨rfl, ⟨a, current⟩, spent⟩
    exact ⟨.read a, current, .read a (Array.getElem?_eq_none_iff.mpr spent)⟩

end

section
variable {input : Array UInt8} {m next : Machine}

theorem memory_of_step (h : m.step input = .running next) (address : Nat) :
    next.memory.read address = (m.stores address).getD (m.memory.read address) := by
  obtain ⟨i, current, -, executed⟩ := step_eq_running_iff.mp h
  rw [stores, current]
  cases executed with
  | store a =>
      have inside : m.registers.address < memorySize := m.registers.address_lt
      simp only [Memory.read_write, inside, and_true]
      split <;> rfl
  | _ => rfl

theorem inputPos_of_step (h : m.step input = .running next) :
    next.inputPos = m.inputPos + m.reads.toList.length := by
  obtain ⟨i, current, -, executed⟩ := step_eq_running_iff.mp h
  rw [reads, current]
  cases executed <;> rfl

end
end Machine

end SledeMachine
