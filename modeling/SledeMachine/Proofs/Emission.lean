import SledeMachine.Emission
import SledeMachine.Proofs.Opcode
import SledeMachine.Proofs.Traversal

/-!
What statements stand for, as a relation between an opcode, its arguments and an emission. There is
one rule for each form of statement, of which `SETT` has two; the translation of statements
succeeds exactly by these rules. From the rules one reads off how many bytes a statement emits and
that every address in an emitted instruction has at most twelve bits.
-/

namespace SledeMachine

namespace Operand

theorem register_eq_ok_iff {token : Text} {r : Register} :
    register token = .ok r ↔ Register.ofToken? token = some r := by
  simp only [register]
  split <;> simp_all

theorem byte_eq_ok_iff {token : Text} {b : UInt8} :
    byte token = .ok b ↔
      ∃ value, Literal.ofToken? token = some value ∧ Literal.toByte value = b := by
  simp only [byte]
  split <;> simp_all

theorem address_of_literal {addressOf : Text → Option Nat} {token : Text} {value : Int}
    (h : Literal.ofToken? token = some value) :
    address addressOf token = .ok (Literal.toAddress value) := by
  simp [address, h]

/-- An operand that is no literal stands for an address only if it is the name of a label. -/
theorem address_eq_ok_of_not_literal {addressOf : Text → Option Nat} {token : Text} {n : Nat}
    (notLiteral : Literal.ofToken? token = none) (h : address addressOf token = .ok n) :
    ∃ a, addressOf token = some a ∧ n = a % 4096 := by
  simp only [address, notLiteral] at h
  cases found : addressOf token with
  | none => simp [found] at h
  | some a =>
      simp only [found, Except.ok.injEq] at h
      exact ⟨a, rfl, h.symm⟩

theorem address_lt {addressOf : Text → Option Nat} {token : Text} {n : Nat}
    (h : address addressOf token = .ok n) : n < 4096 := by
  cases literal : Literal.ofToken? token with
  | some value =>
      rw [address_of_literal literal, Except.ok.injEq] at h
      simp only [Literal.toAddress] at h
      omega
  | none =>
      obtain ⟨a, -, rfl⟩ := address_eq_ok_of_not_literal literal h
      omega

end Operand

namespace Mnemonic

/-- The statements that mean something, with what they stand for. -/
inductive Emits (addressOf : Text → Option Nat) : Mnemonic → List Text → Emission → Prop
  | halt : Emits addressOf .halt [] (.instruction .halt)
  | set {a b : Text} {r : Register} {value : Int} (target : Operand.register a = .ok r)
      (literal : Literal.ofToken? b = some value) :
      Emits addressOf .set [a, b] (.instruction (.set r (Literal.toByte value)))
  | copy {a b : Text} {r s : Register} (target : Operand.register a = .ok r)
      (notLiteral : Literal.ofToken? b = none) (source : Operand.register b = .ok s) :
      Emits addressOf .set [a, b] (.instruction (.copy r s))
  | locate {a : Text} {n : Nat} (address : Operand.address addressOf a = .ok n) :
      Emits addressOf .locate [a] (.instruction (.locate n))
  | load {a : Text} {r : Register} (target : Operand.register a = .ok r) :
      Emits addressOf .load [a] (.instruction (.load r))
  | store {a : Text} {r : Register} (source : Operand.register a = .ok r) :
      Emits addressOf .store [a] (.instruction (.store r))
  | alu {op : AluOp} {a b : Text} {r s : Register} (left : Operand.register a = .ok r)
      (right : Operand.register b = .ok s) :
      Emits addressOf (.alu op) [a, b] (.instruction (.alu op r s))
  | read {a : Text} {r : Register} (target : Operand.register a = .ok r) :
      Emits addressOf .read [a] (.instruction (.read r))
  | write {a : Text} {r : Register} (source : Operand.register a = .ok r) :
      Emits addressOf .write [a] (.instruction (.write r))
  | compare {op : CompareOp} {a b : Text} {r s : Register} (left : Operand.register a = .ok r)
      (right : Operand.register b = .ok s) :
      Emits addressOf (.compare op) [a, b] (.instruction (.compare op r s))
  | jump {a : Text} {n : Nat} (address : Operand.address addressOf a = .ok n) :
      Emits addressOf .jump [a] (.instruction (.jump n))
  | branch {a : Text} {n : Nat} (address : Operand.address addressOf a = .ok n) :
      Emits addressOf .branch [a] (.instruction (.branch n))
  | call {a : Text} {n : Nat} (address : Operand.address addressOf a = .ok n) :
      Emits addressOf .call [a] (.instruction (.call n))
  | ret : Emits addressOf .ret [] (.instruction .ret)
  | nop : Emits addressOf .nop [] (.instruction .nop)
  | data {args : List Text} {values : List UInt8}
      (bytes : List.Forall₂ (fun token b => Operand.byte token = .ok b) args values) :
      Emits addressOf .data args (.data values)

section
variable {addressOf : Text → Option Nat} {m : Mnemonic} {args : List Text} {e : Emission}

theorem noOperand_eq_ok_iff {i : Instruction} :
    m.noOperand args i = .ok e ↔ args = [] ∧ e = .instruction i := by
  simp only [noOperand]
  split <;> simp_all [eq_comm]

theorem oneRegister_eq_ok_iff {result : Register → Instruction} :
    m.oneRegister args result = .ok e ↔
      ∃ a r, args = [a] ∧ Operand.register a = .ok r ∧ e = .instruction (result r) := by
  simp only [oneRegister]
  split
  · rw [Traversal.bind_eq_ok_iff]
    simp [pure, Except.pure, eq_comm]
  · simp_all

theorem twoRegisters_eq_ok_iff {result : Register → Register → Instruction} :
    m.twoRegisters args result = .ok e ↔
      ∃ a b r s, args = [a, b] ∧ Operand.register a = .ok r ∧ Operand.register b = .ok s ∧
        e = .instruction (result r s) := by
  simp only [twoRegisters]
  split
  · simp only [Traversal.bind_eq_ok_iff]
    simp [pure, Except.pure, eq_comm]
  · simp_all

theorem oneAddress_eq_ok_iff {result : Nat → Instruction} :
    oneAddress addressOf m args result = .ok e ↔
      ∃ a n, args = [a] ∧ Operand.address addressOf a = .ok n ∧ e = .instruction (result n) := by
  simp only [oneAddress]
  split
  · rw [Traversal.bind_eq_ok_iff]
    simp [pure, Except.pure, eq_comm]
  · simp_all

theorem setOperands_eq_ok_iff :
    m.setOperands args = .ok e ↔
      ∃ a b r, args = [a, b] ∧ Operand.register a = .ok r ∧
        ((∃ value, Literal.ofToken? b = some value ∧
            e = .instruction (.set r (Literal.toByte value))) ∨
          Literal.ofToken? b = none ∧
            ∃ s, Operand.register b = .ok s ∧ e = .instruction (.copy r s)) := by
  simp only [setOperands]
  split
  · rename_i a b
    rw [Traversal.bind_eq_ok_iff]
    cases literal : Literal.ofToken? b with
    | some value => simp [pure, Except.pure, literal, eq_comm]
    | none =>
        simp only [Traversal.bind_eq_ok_iff]
        simp [pure, Except.pure, literal, eq_comm]
  · simp_all

theorem emission_eq_ok_iff :
    m.emission addressOf args = .ok e ↔ Emits addressOf m args e := by
  constructor
  · intro h
    cases m with
    | halt =>
        obtain ⟨rfl, rfl⟩ := noOperand_eq_ok_iff.mp h
        exact .halt
    | set =>
        obtain ⟨a, b, r, rfl, target, h⟩ := setOperands_eq_ok_iff.mp h
        obtain ⟨value, literal, rfl⟩ | ⟨notLiteral, s, source, rfl⟩ := h
        · exact .set target literal
        · exact .copy target notLiteral source
    | locate =>
        obtain ⟨a, n, rfl, address, rfl⟩ := oneAddress_eq_ok_iff.mp h
        exact .locate address
    | load =>
        obtain ⟨a, r, rfl, target, rfl⟩ := oneRegister_eq_ok_iff.mp h
        exact .load target
    | store =>
        obtain ⟨a, r, rfl, source, rfl⟩ := oneRegister_eq_ok_iff.mp h
        exact .store source
    | alu op =>
        obtain ⟨a, b, r, s, rfl, left, right, rfl⟩ := twoRegisters_eq_ok_iff.mp h
        exact .alu left right
    | read =>
        obtain ⟨a, r, rfl, target, rfl⟩ := oneRegister_eq_ok_iff.mp h
        exact .read target
    | write =>
        obtain ⟨a, r, rfl, source, rfl⟩ := oneRegister_eq_ok_iff.mp h
        exact .write source
    | compare op =>
        obtain ⟨a, b, r, s, rfl, left, right, rfl⟩ := twoRegisters_eq_ok_iff.mp h
        exact .compare left right
    | jump =>
        obtain ⟨a, n, rfl, address, rfl⟩ := oneAddress_eq_ok_iff.mp h
        exact .jump address
    | branch =>
        obtain ⟨a, n, rfl, address, rfl⟩ := oneAddress_eq_ok_iff.mp h
        exact .branch address
    | call =>
        obtain ⟨a, n, rfl, address, rfl⟩ := oneAddress_eq_ok_iff.mp h
        exact .call address
    | ret =>
        obtain ⟨rfl, rfl⟩ := noOperand_eq_ok_iff.mp h
        exact .ret
    | nop =>
        obtain ⟨rfl, rfl⟩ := noOperand_eq_ok_iff.mp h
        exact .nop
    | data =>
        obtain ⟨values, bytes, h⟩ := Traversal.bind_eq_ok_iff.mp h
        cases h
        exact .data (Traversal.mapM_eq_ok_iff.mp bytes)
  · intro h
    cases h with
    | halt | ret | nop => rfl
    | set target literal =>
        rw [emission, setOperands_eq_ok_iff]
        exact ⟨_, _, _, rfl, target, .inl ⟨_, literal, rfl⟩⟩
    | copy target notLiteral source =>
        rw [emission, setOperands_eq_ok_iff]
        exact ⟨_, _, _, rfl, target, .inr ⟨notLiteral, _, source, rfl⟩⟩
    | locate address | jump address | branch address | call address =>
        rw [emission, oneAddress_eq_ok_iff]
        exact ⟨_, _, rfl, address, rfl⟩
    | load r | store r | read r | write r =>
        rw [emission, oneRegister_eq_ok_iff]
        exact ⟨_, _, rfl, r, rfl⟩
    | alu left right | compare left right =>
        rw [emission, twoRegisters_eq_ok_iff]
        exact ⟨_, _, _, _, rfl, left, right, rfl⟩
    | data bytes =>
        exact Traversal.bind_eq_ok_iff.mpr ⟨_, Traversal.mapM_eq_ok_iff.mpr bytes, rfl⟩

end

/-- A data directive emits a byte for each value and any other statement a word. -/
theorem Emits.length_bytes {addressOf : Text → Option Nat} {m : Mnemonic} {args : List Text}
    {e : Emission} (h : Emits addressOf m args e) :
    e.bytes.length = if m = .data then args.length else 2 := by
  cases h with
  | data bytes => simp [Emission.bytes, bytes.length_eq]
  | _ => rfl

theorem Emits.eq_instruction {addressOf : Text → Option Nat} {m : Mnemonic} {args : List Text}
    {e : Emission} (h : Emits addressOf m args e) (notData : m ≠ .data) :
    ∃ i, e = .instruction i := by
  cases h with
  | data bytes => exact absurd rfl notData
  | _ => exact ⟨_, rfl⟩

end Mnemonic

namespace Instruction

/-- The address that an instruction holds, if it is one of those that do. -/
def address? : Instruction → Option Nat
  | .locate n | .jump n | .branch n | .call n => some n
  | _ => none

/-- Any address in the instruction fits into the twelve bits that a word has for it. -/
def FitsWord (i : Instruction) : Prop := ∀ n, i.address? = some n → n < 4096

end Instruction

theorem Mnemonic.Emits.fitsWord {addressOf : Text → Option Nat} {m : Mnemonic} {args : List Text}
    {i : Instruction} (h : Emits addressOf m args (.instruction i)) : i.FitsWord := by
  intro n hn
  cases h with
  | locate address | jump address | branch address | call address =>
      cases hn
      exact Operand.address_lt address
  | _ => cases hn

namespace Statement

theorem emission_eq_ok_iff {addressOf : Text → Option Nat} {s : Statement} {e : Emission} :
    s.emission addressOf = .ok e ↔
      ∃ m : Mnemonic, s.opcode = m.name ∧ m.Emits addressOf s.args e := by
  simp only [emission]
  cases found : Mnemonic.ofToken? s.opcode with
  | none =>
      simp only [reduceCtorEq, false_iff]
      rintro ⟨m, name, -⟩
      rw [Mnemonic.ofToken?_eq_some_iff.mpr name] at found
      cases found
  | some m =>
      have name := Mnemonic.ofToken?_eq_some_iff.mp found
      simp only [Mnemonic.emission_eq_ok_iff, name, Mnemonic.name_inj, exists_eq_left']

end Statement
end SledeMachine
