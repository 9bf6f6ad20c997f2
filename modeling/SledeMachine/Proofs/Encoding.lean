import Mathlib.Data.List.Nodup
import SledeMachine.Proofs.Emission

/-!
Encoding and decoding of instructions. Each packing of fields into a word gives the fields back, a
code in a word is that of the member it is read as, and so an instruction whose address fits into
twelve bits is read back from its word. What is decoded always fits.
-/

namespace SledeMachine

namespace CodeTable
variable {α : Type} {table : CodeTable α} {error : Nat → CodeError} {n : Nat} {a : α}

theorem getElem?_eq_some_iff : table.members[n]? = some a ↔ n = table.code a := by
  constructor
  · intro h
    have inside := (List.getElem?_eq_some_iff.mp h).1
    exact (List.getElem?_inj inside table.nodup).mp (h.trans (table.listed a).symm)
  · rintro rfl
    exact table.listed a

theorem read_eq_ok_iff : table.read error n = .ok a ↔ n = table.code a := by
  rw [← getElem?_eq_some_iff, read]
  split <;> simp_all

theorem length_le_of_read_eq_error {e : CodeError} (h : table.read error n = .error e) :
    table.members.length ≤ n := by
  rw [read] at h
  split at h
  · cases h
  · exact List.getElem?_eq_none_iff.mp ‹_›

end CodeTable

section
variable {n : Nat} {e : CodeError}

theorem OpClass.ofCode_eq_ok_iff {c : OpClass} : ofCode n = .ok c ↔ n = c.code :=
  CodeTable.read_eq_ok_iff

theorem OpClass.le_of_ofCode_eq_error (h : ofCode n = .error e) : 13 ≤ n :=
  CodeTable.length_le_of_read_eq_error h

theorem AluOp.ofCode_eq_ok_iff {op : AluOp} : ofCode n = .ok op ↔ n = op.code :=
  CodeTable.read_eq_ok_iff

theorem AluOp.le_of_ofCode_eq_error (h : ofCode n = .error e) : 7 ≤ n :=
  CodeTable.length_le_of_read_eq_error h

theorem CompareOp.ofCode_eq_ok_iff {op : CompareOp} : ofCode n = .ok op ↔ n = op.code :=
  CodeTable.read_eq_ok_iff

theorem CompareOp.le_of_ofCode_eq_error (h : ofCode n = .error e) : 6 ≤ n :=
  CodeTable.length_le_of_read_eq_error h

end

namespace Word

section
variable (a b c d : Nat)

@[simp] theorem classCode_ofNibbles : (ofNibbles a b c d).classCode = a % 16 := by
  simp only [classCode, toNat_ofNibbles]
  omega

@[simp] theorem operation_ofNibbles : (ofNibbles a b c d).operation = b % 16 := by
  simp only [operation, toNat_ofNibbles]
  omega

@[simp] theorem arg1_ofNibbles : (ofNibbles a b c d).arg1 = c % 16 := by
  simp only [arg1, toNat_ofNibbles]
  omega

@[simp] theorem arg2_ofNibbles : (ofNibbles a b c d).arg2 = d % 16 := by
  simp only [arg2, toNat_ofNibbles]
  omega

@[simp] theorem classCode_ofNibbleAddress : (ofNibbleAddress a b).classCode = a % 16 := by
  simp only [classCode, toNat_ofNibbleAddress]
  omega

@[simp] theorem address_ofNibbleAddress : (ofNibbleAddress a b).address = b % 4096 := by
  simp only [address, toNat_ofNibbleAddress]
  omega

variable (byte : UInt8)

@[simp] theorem classCode_ofNibblesByte : (ofNibblesByte a b byte).classCode = a % 16 := by
  simp only [classCode, toNat_ofNibblesByte]
  omega

@[simp] theorem operation_ofNibblesByte : (ofNibblesByte a b byte).operation = b % 16 := by
  simp only [operation, toNat_ofNibblesByte]
  omega

@[simp] theorem arg1_ofNibblesByte : (ofNibblesByte a b byte).arg1 = byte.toNat % 16 := by
  simp only [arg1, toNat_ofNibblesByte]
  omega

@[simp] theorem value_ofNibblesByte : (ofNibblesByte a b byte).value = byte := by
  have := byte.toNat_lt
  apply UInt8.toNat_inj.mp
  simp only [value, toNat_high, toNat_ofNibblesByte]
  omega

end

theorem bytes_inj {v w : Word} (h : v.bytes = w.bytes) : v = w := by
  obtain ⟨low, high⟩ : v.low = w.low ∧ v.high = w.high := by simpa [bytes] using h
  rw [← v.ofBytes_low_high, low, high, w.ofBytes_low_high]

theorem address_lt (w : Word) : w.address < 4096 := by
  have := w.toNat_lt
  simp only [address]
  omega

theorem arg2_lt (w : Word) : w.arg2 < 16 := by
  have := w.toNat_lt
  simp only [arg2]
  omega

end Word

namespace Register

theorem ofNibble_mod (r : Register) : ofNibble (r.val % 16) = r := by
  apply Fin.ext
  simp only [ofNibble, Fin.ofNat, Nat.mod_eq_of_lt r.isLt]

end Register

namespace Instruction

theorem classCode_encode (i : Instruction) : i.encode.classCode = i.opClass.code := by
  cases i <;> simp [encode, opClass, OpClass.code]

theorem decode_encode {i : Instruction} (fits : i.FitsWord) : decode i.encode = .ok i := by
  have known : OpClass.ofCode i.encode.classCode = .ok i.opClass :=
    OpClass.ofCode_eq_ok_iff.mpr i.classCode_encode
  simp only [decode, known]
  cases i with
  | halt | ret | nop => rfl
  | set a value =>
      simp [encode, opClass, bind, Except.bind, pure, Except.pure, Register.ofNibble_mod]
  | copy a b =>
      have byte : b.val % 256 = b.val := by omega
      simp [encode, opClass, bind, Except.bind, pure, Except.pure, Register.ofNibble_mod, byte]
  | locate address | jump address | branch address | call address =>
      have short : address % 4096 = address := Nat.mod_eq_of_lt (fits address rfl)
      simp [encode, opClass, bind, Except.bind, pure, Except.pure, short]
  | load a | store a | read a | write a =>
      simp [encode, opClass, bind, Except.bind, pure, Except.pure, Register.ofNibble_mod]
  | alu op a b =>
      have code : op.code % 16 = op.code := by cases op <;> rfl
      simp [encode, opClass, bind, Except.bind, pure, Except.pure, Register.ofNibble_mod, code,
        AluOp.ofCode_code]
  | compare op a b =>
      have code : op.code % 16 = op.code := by cases op <;> rfl
      simp [encode, opClass, bind, Except.bind, pure, Except.pure, Register.ofNibble_mod, code,
        CompareOp.ofCode_code]

theorem fitsWord_of_decode {w : Word} {i : Instruction} (h : decode w = .ok i) : i.FitsWord := by
  intro n hn
  cases known : OpClass.ofCode w.classCode with
  | error e => simp [decode, known, bind, Except.bind] at h
  | ok c =>
      simp only [decode, known, bind, Except.bind, pure, Except.pure] at h
      cases c with
      | halt | set | copy | ret | nop =>
          cases h
          cases hn
      | locate | jump | branch | call =>
          cases h
          cases hn
          exact w.address_lt
      | memory | io =>
          simp only at h
          split at h <;> cases h <;> cases hn
      | alu =>
          cases op : AluOp.ofCode w.operation <;> simp only [op] at h <;> cases h
          cases hn
      | compare =>
          cases op : CompareOp.ofCode w.operation <;> simp only [op] at h <;> cases h
          cases hn

end Instruction
end SledeMachine
