import SledeMachine.Assembly
import SledeMachine.Disassembly
import SledeMachine.Proofs.Encoding
import SledeMachine.Proofs.Placement
import SledeMachine.Proofs.Spelling

/-!
Machine code that is written out and assembled again. An instruction in its printed form and bytes
in a data directive emit what they were printed from, with whatever labels there are, since
their operands are literals and registers only. A source of such statements, one on each line,
therefore assembles to their bytes in a row.
-/

namespace SledeMachine

theorem Mnemonic.isWord_name (m : Mnemonic) : Text.IsWord m.name := by
  cases m with
  | alu op => cases op <;> decide
  | compare op => cases op <;> decide
  | _ => decide

namespace Statement

/-- A statement of words that emits certain bytes, whatever names stand for. -/
structure Spells (s : Statement) (bytes : List UInt8) : Prop where
  plain : s.Plain
  emission : ∀ addressOf, ∃ e, s.emission addressOf = .ok e ∧ e.bytes = bytes

theorem byte_text (b : UInt8) : Operand.byte (Text.byte b) = .ok b :=
  Operand.byte_eq_ok_iff.mpr ⟨_, Literal.ofToken?_byte b, Literal.toByte_toNat b⟩

theorem spells_ofData (bytes : List UInt8) : (ofData bytes).Spells bytes where
  plain := by
    refine ⟨Mnemonic.isWord_name .data, fun a ha => ?_⟩
    obtain ⟨b, -, rfl⟩ := List.mem_map.mp ha
    exact Literal.isWord_hex 2 b.toNat
  emission addressOf := by
    have read : List.Forall₂ (fun token b => Operand.byte token = .ok b)
        (bytes.map Text.byte) bytes :=
      List.forall₂_map_left_iff.mpr (List.forall₂_same.mpr fun b _ => byte_text b)
    exact ⟨.data bytes, emission_eq_ok_iff.mpr ⟨.data, rfl, .data read⟩, rfl⟩

end Statement

namespace Instruction

theorem isWord_of_mem_operands {i : Instruction} {a : Text} (h : a ∈ i.operands) :
    Text.IsWord a := by
  cases i with
  | halt | ret | nop => cases h
  | set r value =>
      obtain rfl | h := List.mem_cons.mp h
      · exact Text.isWord_register r
      · rw [List.mem_singleton.mp h]
        exact Text.isWord_decimal value.toNat
  | copy r s | alu _ r s | compare _ r s =>
      obtain rfl | h := List.mem_cons.mp h
      · exact Text.isWord_register r
      · rw [List.mem_singleton.mp h]
        exact Text.isWord_register s
  | load r | store r | read r | write r =>
      rw [List.mem_singleton.mp h]
      exact Text.isWord_register r
  | locate n | jump n | branch n | call n =>
      rw [List.mem_singleton.mp h]
      exact Literal.isWord_hex 3 n

theorem register_text (r : Register) : Operand.register r.text = .ok r :=
  Operand.register_eq_ok_iff.mpr r.ofToken?_text

theorem address_text {n : Nat} (h : n < 4096) (addressOf : Text → Option Nat) :
    Operand.address addressOf (Text.address n) = .ok n := by
  have inRange : Literal.InRange n := ⟨by omega, by omega⟩
  rw [Operand.address_of_literal (Literal.ofToken?_address n inRange), Literal.toAddress_of_lt h]

/-- The printed form of an instruction stands for the instruction. -/
theorem emits_operands {i : Instruction} (fits : i.FitsWord) (addressOf : Text → Option Nat) :
    i.mnemonic.Emits addressOf i.operands (.instruction i) := by
  cases i with
  | halt => exact .halt
  | ret => exact .ret
  | nop => exact .nop
  | set r value =>
      have bound := value.toNat_lt
      have literal := Literal.ofToken?_decimal value.toNat ⟨by omega, by omega⟩
      have rule : Mnemonic.Emits addressOf .set _ _ := .set (register_text r) literal
      rwa [Literal.toByte_toNat] at rule
  | copy r s => exact .copy (register_text r) (Literal.ofToken?_register s) (register_text s)
  | alu op r s => exact .alu (register_text r) (register_text s)
  | compare op r s => exact .compare (register_text r) (register_text s)
  | load r => exact .load (register_text r)
  | store r => exact .store (register_text r)
  | read r => exact .read (register_text r)
  | write r => exact .write (register_text r)
  | locate n => exact .locate (address_text (fits n rfl) addressOf)
  | jump n => exact .jump (address_text (fits n rfl) addressOf)
  | branch n => exact .branch (address_text (fits n rfl) addressOf)
  | call n => exact .call (address_text (fits n rfl) addressOf)

theorem spells_statement {i : Instruction} (fits : i.FitsWord) : i.statement.Spells i.bytes where
  plain := ⟨i.mnemonic.isWord_name, fun _ => isWord_of_mem_operands⟩
  emission addressOf :=
    ⟨.instruction i,
      Statement.emission_eq_ok_iff.mpr ⟨i.mnemonic, rfl, emits_operands fits addressOf⟩, rfl⟩

theorem spells_ofWord {i : Instruction} (fits : i.FitsWord) :
    (Statement.ofWord i.encode).Spells i.bytes := by
  rw [Statement.ofWord, decode_encode fits]
  exact spells_statement fits

end Instruction

namespace Layout

/-- The source with given statements, one on each line. -/
def sourceOf (statements : List Statement) : Text :=
  ['\n'].intercalate (statements.map Statement.text)

theorem sourceLines_sourceOf {statements : List Statement}
    (plain : ∀ s ∈ statements, s.Plain) (nonempty : statements ≠ []) :
    sourceLines (sourceOf statements) = statements.map Statement.text := by
  have unbroken : ∀ t ∈ statements.map Statement.text, '\n' ∉ t := by
    intro t ht
    obtain ⟨s, hs, rfl⟩ := List.mem_map.mp ht
    exact (plain s hs).not_mem (by decide) (by decide)
  rw [sourceOf, sourceLines_intercalate unbroken (by simpa using nonempty), List.map_map]
  exact List.map_congr_left fun s hs => (plain s hs).trim_text

theorem encodings_of_spells {statements : List Statement} {encodings : List (List UInt8)}
    (h : List.Forall₂ Statement.Spells statements encodings) (addressOf : Text → Option Nat)
    (number address : Nat) :
    List.Forall₂ (fun line bytes => line.encode addressOf = .ok bytes)
      ((place (statements.map Statement.text) number address).filter fun line => line.kind.emits)
      encodings := by
  induction h generalizing number address with
  | nil => exact .nil
  | cons spells _ ih =>
      rw [List.map_cons, place, List.filter_cons_of_pos (by exact spells.plain.emits_text)]
      refine .cons (SourceLine.encode_eq_ok_iff.mpr ?_) (ih _ _)
      rw [SourceLine.statement, spells.plain.ofLine_text]
      exact spells.emission addressOf

end Layout

/-- Statements that are written line by line assemble to the bytes that they spell. -/
theorem assemble_sourceOf {statements : List Statement} {encodings : List (List UInt8)}
    (h : List.Forall₂ Statement.Spells statements encodings) :
    ∃ target, assemble (Layout.sourceOf statements) = .ok target ∧
      target.code = encodings.flatten := by
  have plain : ∀ s ∈ statements, s.Plain := by
    intro s hs
    obtain ⟨bytes, spells⟩ := Traversal.exists_of_mem h hs
    exact spells.plain
  refine ⟨_, assemble_eq_ok_iff.mpr ⟨encodings, ?_, rfl⟩, rfl⟩
  cases statements with
  | nil =>
      cases h
      exact .nil
  | cons s rest =>
      rw [Layout.ofSource, Layout.sourceLines_sourceOf plain (List.cons_ne_nil _ _)]
      exact Layout.encodings_of_spells h _ 0 0

end SledeMachine
