import Mathlib.Algebra.Group.Nat.Defs
import SledeMachine.Proofs.Encoding

/-!
Streams of words. Instructions written one after the other are cut into words and read back as they
were. The other way about, not every bit of a word counts: each instruction has the bits that it
uses, and a word is read as an instruction exactly if it agrees in these with the word that the
instruction is written as, which has zeros in all the others. So reading words and writing them
again clears what is not used and changes nothing else.
-/

namespace SledeMachine

namespace Word

/-- The words that bytes are cut into. A byte that is left over at the end is no word. -/
def cut : List UInt8 → List Word
  | low :: high :: rest => ofBytes low high :: cut rest
  | _ => []

theorem cut_flatMap_bytes (ws : List Word) : cut (ws.flatMap bytes) = ws := by
  induction ws with
  | nil => rfl
  | cons w ws ih =>
      simp only [List.flatMap_cons, bytes, List.cons_append, List.nil_append, cut,
        ofBytes_low_high]
      exact congrArg (w :: ·) ih

end Word

theorem Register.val_ofNibble (n : Nat) : (ofNibble n).val = n % 16 := rfl

namespace Word

section
variable {w : Word} {code operation : Nat} (known : w.classCode = code)
  (read : w.operation = operation)
include known read

theorem toNat_oneRegister :
    (ofNibbles code operation (Register.ofNibble w.arg1).val 0).toNat = w.toNat % 2 ^ 12 := by
  rw [classCode] at known
  rw [Word.operation] at read
  rw [toNat_ofNibbles, Register.val_ofNibble, arg1]
  omega

theorem toNat_twoRegisters :
    (ofNibbles code operation (Register.ofNibble w.arg1).val (Register.ofNibble w.arg2).val).toNat =
      w.toNat % 2 ^ 16 := by
  have bound := w.toNat_lt
  rw [classCode] at known
  rw [Word.operation] at read
  rw [toNat_ofNibbles, Register.val_ofNibble, Register.val_ofNibble, arg1, arg2]
  omega

end

/-- The sub-operation and the one register of a word are in its lowest twelve bits. -/
theorem operand_of_agree {w : Word} {code operation : Nat} {a : Register}
    (small : operation < 16)
    (agree : (ofNibbles code operation a.val 0).toNat = w.toNat % 2 ^ 12) :
    w.operation = operation ∧ Register.ofNibble w.arg1 = a := by
  rw [toNat_ofNibbles] at agree
  refine ⟨?_, Fin.ext ?_⟩
  · rw [Word.operation]
    omega
  · rw [Register.val_ofNibble, arg1]
    omega

end Word

namespace Instruction

/-- How many bits of its word an instruction uses, from the lowest on. -/
def usedBits : Instruction → Nat
  | .halt | .ret | .nop => 4
  | .copy _ _ | .load _ | .store _ | .read _ | .write _ => 12
  | .set _ _ | .locate _ | .alu _ _ _ | .compare _ _ _ | .jump _ | .branch _ | .call _ => 16

theorem toNat_encode_of_decode {w : Word} {i : Instruction} (h : decode w = .ok i) :
    i.encode.toNat = w.toNat % 2 ^ i.usedBits := by
  have bound := w.toNat_lt
  cases known : OpClass.ofCode w.classCode with
  | error e => simp [decode, known, bind, Except.bind] at h
  | ok c =>
      have code : w.toNat % 16 = c.code := OpClass.ofCode_eq_ok_iff.mp known
      simp only [decode, known, bind, Except.bind, pure, Except.pure] at h
      cases c with
      | halt | ret | nop =>
          cases h
          simp only [encode, opClass, usedBits, Word.toNat_ofNibbles]
          omega
      | set =>
          cases h
          simp only [encode, opClass, usedBits, Word.toNat_ofNibblesByte, Register.val_ofNibble,
            Word.operation, Word.value, Word.toNat_high]
          omega
      | copy =>
          cases h
          simp only [encode, opClass, usedBits, Word.toNat_ofNibblesByte, Register.val_ofNibble,
            Word.operation, Word.arg1, UInt8.toNat_ofNat']
          omega
      | locate | jump | branch | call =>
          cases h
          simp only [encode, opClass, usedBits, Word.toNat_ofNibbleAddress, Word.address]
          omega
      | memory | io =>
          simp only at h
          split at h
          case h_1 read | h_2 read =>
            cases h
            exact Word.toNat_oneRegister code read
          case h_3 => cases h
      | alu =>
          cases read : AluOp.ofCode w.operation with
          | error e => simp [read] at h
          | ok op =>
              simp only [read] at h
              cases h
              exact Word.toNat_twoRegisters code (AluOp.ofCode_eq_ok_iff.mp read)
      | compare =>
          cases read : CompareOp.ofCode w.operation with
          | error e => simp [read] at h
          | ok op =>
              simp only [read] at h
              cases h
              exact Word.toNat_twoRegisters code (CompareOp.ofCode_eq_ok_iff.mp read)

/-- A word is an instruction if it agrees with its encoding in the bits that are used. -/
theorem decode_of_agree {w : Word} {i : Instruction} (fits : i.FitsWord)
    (agree : i.encode.toNat = w.toNat % 2 ^ i.usedBits) : decode w = .ok i := by
  have bound := w.toNat_lt
  have code : w.classCode = i.opClass.code := by
    have own := i.classCode_encode
    simp only [Word.classCode] at own ⊢
    cases i <;> simp only [usedBits] at agree <;> omega
  have known : OpClass.ofCode w.classCode = .ok i.opClass := OpClass.ofCode_eq_ok_iff.mpr code
  cases i with
  | halt | ret | nop =>
      simp only [decode, known]
      rfl
  | copy a b =>
      simp only [encode, usedBits, Word.toNat_ofNibblesByte, UInt8.toNat_ofNat'] at agree
      have first : Register.ofNibble w.operation = a := by
        apply Fin.ext
        rw [Register.val_ofNibble, Word.operation]
        omega
      have second : Register.ofNibble w.arg1 = b := by
        apply Fin.ext
        rw [Register.val_ofNibble, Word.arg1]
        omega
      simp only [decode, known, opClass, first, second]
      rfl
  | load a | store a | read a | write a =>
      obtain ⟨operation, first⟩ := Word.operand_of_agree (by decide) agree
      simp only [decode, known, opClass, operation, first]
      rfl
  | set | locate | alu | compare | jump | branch | call =>
      have same : w = _ := UInt16.toNat_inj.mp (agree.trans (Nat.mod_eq_of_lt bound)).symm
      rw [same]
      exact decode_encode fits

theorem decode_eq_ok_iff {w : Word} {i : Instruction} :
    decode w = .ok i ↔ i.FitsWord ∧ i.encode.toNat = w.toNat % 2 ^ i.usedBits :=
  ⟨fun h => ⟨fitsWord_of_decode h, toNat_encode_of_decode h⟩, fun h => decode_of_agree h.1 h.2⟩

section
variable {w : Word} {i : Instruction} (h : decode w = .ok i)
include h

theorem testBit_encode_of_decode (b : Nat) :
    i.encode.toNat.testBit b = (decide (b < i.usedBits) && w.toNat.testBit b) := by
  rw [toNat_encode_of_decode h, Nat.testBit_mod_two_pow]

/-- The bits that are not used may be anything, and of the others none may change. -/
theorem decode_eq_iff_testBit (v : Word) :
    decode v = .ok i ↔ ∀ b < i.usedBits, v.toNat.testBit b = w.toNat.testBit b := by
  rw [decode_eq_ok_iff, toNat_encode_of_decode h]
  constructor
  · rintro ⟨-, agree⟩ b used
    have bit := congrArg (Nat.testBit · b) agree
    simpa [Nat.testBit_mod_two_pow, used, eq_comm] using bit
  · intro agree
    refine ⟨fitsWord_of_decode h, Nat.eq_of_testBit_eq fun b => ?_⟩
    rw [Nat.testBit_mod_two_pow, Nat.testBit_mod_two_pow]
    by_cases used : b < i.usedBits
    · rw [agree b used]
    · rw [decide_eq_false used, Bool.false_and, Bool.false_and]

end

theorem mapM_decode_encode {is : List Instruction} (fit : ∀ i ∈ is, i.FitsWord) :
    (is.map encode).mapM decode = .ok is := by
  rw [Traversal.mapM_eq_ok_iff, List.forall₂_map_left_iff, List.forall₂_same]
  exact fun i listed => decode_encode (fit i listed)

end Instruction

/-- Instructions written in a row are read back, and words read and written again are as they were
in the bits that count. -/
theorem decode_inverts_encode :
    (∀ is : List Instruction, (∀ i ∈ is, ∀ n, i.address? = some n → n < 4096) →
        (Word.cut (is.flatMap Instruction.bytes)).mapM Instruction.decode = .ok is) ∧
      ∀ ws : List Word, (∀ w ∈ ws, ∃ i, Instruction.decode w = .ok i) →
        ∃ is, ws.mapM Instruction.decode = .ok is ∧
          (is.map Instruction.encode).mapM Instruction.decode = .ok is ∧
          List.Forall₂
            (fun w i =>
              (∀ b, i.encode.toNat.testBit b = (decide (b < i.usedBits) && w.toNat.testBit b)) ∧
                ∀ v : Word, Instruction.decode v = .ok i ↔
                  ∀ b < i.usedBits, v.toNat.testBit b = w.toNat.testBit b)
            ws is := by
  constructor
  · intro is fit
    have written :
        is.flatMap Instruction.bytes = (is.map Instruction.encode).flatMap Word.bytes := by
      rw [List.flatMap_map]
      rfl
    rw [written, Word.cut_flatMap_bytes]
    exact Instruction.mapM_decode_encode fit
  · intro ws all
    obtain ⟨is, given⟩ := Traversal.exists_mapM_iff.mpr all
    have read := Traversal.mapM_eq_ok_iff.mp given
    refine ⟨is, given, Instruction.mapM_decode_encode fun i listed => ?_,
      read.imp fun w i own => ?_⟩
    · obtain ⟨w, own⟩ := Traversal.exists_of_mem read.flip listed
      exact Instruction.fitsWord_of_decode own
    · exact ⟨Instruction.testBit_encode_of_decode own, Instruction.decode_eq_iff_testBit own⟩

/-- The words are those of the instructions, with all bits set that are not used. -/
theorem decode_inverts_encode_unused :
    let is : List Instruction := [.copy 1 2, .store 3, .call 0xabc, .halt]
    let ws : List Word := [0xf212, 0xf314, 0xabca, 0xfff0]
    ((∀ i ∈ is, ∀ n, i.address? = some n → n < 4096) ∧
        ∀ w ∈ ws, ∃ i, Instruction.decode w = .ok i) ∧
      (Word.cut (is.flatMap Instruction.bytes)).mapM Instruction.decode = .ok is ∧
      (is.map Instruction.encode).mapM Instruction.decode = .ok is ∧
      is.map Instruction.encode ≠ ws := by
  intro is ws
  have fit : ∀ i ∈ is, ∀ n, i.address? = some n → n < 4096 := by
    simp [is, Instruction.address?]
  have read : ws.mapM Instruction.decode = .ok is := by rfl
  have all := Traversal.exists_mapM_iff.mp ⟨is, read⟩
  obtain ⟨again, given, written, -⟩ := decode_inverts_encode.2 ws all
  rw [read] at given
  cases given
  exact ⟨⟨fit, all⟩, decode_inverts_encode.1 is fit, written, by decide⟩

end SledeMachine
