import Mathlib.Algebra.Group.Nat.Even
import SledeMachine.Proofs.Provenance
import SledeMachine.Proofs.Tiling

/-!
Listings without a debug map. The debug map of its source tells the rows of a program apart and
without one every row is a word, but both kinds of rows are steps through the same bytes. As long as
each data directive takes an even number of them, every instruction begins where a word does and is
shown as the same row; where no directive takes any, all rows are the same. What is shown for an
instruction has the opcode that it was written with.
-/

namespace SledeMachine

/-- Whatever the operands, an instruction is printed with the opcode that stands for it. -/
theorem Mnemonic.Emits.mnemonic_eq {addressOf : Text → Option Nat} {m : Mnemonic}
    {args : List Text} {i : Instruction} (h : m.Emits addressOf args (.instruction i)) :
    i.mnemonic = m := by
  cases h <;> rfl

theorem SourceLine.opcode_of_instruction {addressOf : Text → Option Nat} {line : SourceLine}
    {i : Instruction} (translated : line.statement.emission addressOf = .ok (.instruction i)) :
    line.statement.opcode = i.statement.opcode := by
  obtain ⟨m, opcode, rule⟩ := Statement.emission_eq_ok_iff.mp translated
  rw [opcode, ← rule.mnemonic_eq]
  rfl

/-- What a row shows of the program, whichever source line belongs to it. -/
def ListingRow.content (row : ListingRow) : Nat × List UInt8 × Text :=
  (row.address, row.bytes, row.text)

theorem Layout.Contiguous.even_address {address : Nat} {lines : List SourceLine}
    (h : Contiguous address lines) (start : Even address)
    (sizes : ∀ line ∈ lines, Even (size line.text)) : ∀ line ∈ lines, Even line.address := by
  induction lines generalizing address with
  | nil => nofun
  | cons line rest ih =>
      obtain ⟨own, others⟩ := List.forall_mem_cons.mp sizes
      refine List.forall_mem_cons.mpr ⟨?_, ih h.2 (start.add own) others⟩
      rwa [h.1]

namespace Listing

theorem dataLength_empty (address : Nat) : dataLength .empty address = 0 := rfl

section
variable {map map' : DebugMap} {address : Nat} {bytes : List UInt8} {rows others : List ListingRow}
  {row other : ListingRow}

/-- The map only decides how many bytes go into each row. -/
theorem content_congr (same : ∀ a, dataLength map a = dataLength map' a) (address : Nat)
    (bytes : List UInt8) :
    (rowsFrom map address bytes).map ListingRow.content =
      (rowsFrom map' address bytes).map ListingRow.content := by
  have lists := lists_rowsFrom map address bytes
  generalize rowsFrom map address bytes = rows at lists
  induction lists with
  | done => rw [rowsFrom]
  | last =>
      rw [rowsFrom_last]
      rfl
  | word length _ ih =>
      rw [rowsFrom_of_dataLength_zero ((same _).symm.trans length), List.map_cons, List.map_cons,
        ih]
      rfl
  | data nonempty takes _ ih =>
      rw [same] at takes
      rw [rowsFrom_takes nonempty takes, List.map_cons, List.map_cons, ih]
      rfl

theorem Lists.statement_of_word (h : Lists map address bytes rows) (listed : row ∈ rows)
    (length : dataLength map row.address = 0) {w : Word} (word : row.bytes = w.bytes) :
    row.statement = .ofWord w := by
  induction h with
  | done => cases listed
  | last =>
      rw [List.mem_singleton.mp listed] at word
      cases congrArg List.length word
  | word _ _ ih =>
      obtain rfl | listed := List.mem_cons.mp listed
      · rw [Word.bytes_inj word]
      · exact ih listed
  | data nonempty takes _ ih =>
      obtain rfl | listed := List.mem_cons.mp listed
      · exact absurd length (takes.ne_zero nonempty)
      · exact ih listed

/-- Rows of two listings at one address show the same bytes if they show equally many. -/
theorem Lists.bytes_eq (h : Lists map 0 bytes rows) (h' : Lists map' 0 bytes others)
    (listed : row ∈ rows) (listed' : other ∈ others) (address : other.address = row.address)
    (length : other.bytes.length = row.bytes.length) : other.bytes = row.bytes := by
  rw [← (h.slice listed).2, ← (h'.slice listed').2, address, length]

/-- If all rows are words, one begins at each even distance from where the bytes begin. -/
theorem Lists.exists_row_at (h : Lists map address bytes rows)
    (words : ∀ a, dataLength map a = 0) {offset : Nat} (even : Even offset)
    (inside : offset < bytes.length) : ∃ row ∈ rows, row.address = address + offset := by
  induction h generalizing offset with
  | done => cases inside
  | last =>
      rw [List.length_singleton, Nat.lt_one_iff] at inside
      exact ⟨_, List.mem_cons_self, by rw [inside]; rfl⟩
  | @word address w rest rows _ _ ih =>
      obtain ⟨half, rfl⟩ := even
      cases half with
      | zero => exact ⟨_, List.mem_cons_self, rfl⟩
      | succ half =>
          rw [List.length_append, show w.bytes.length = 2 from rfl] at inside
          obtain ⟨row, listed, further⟩ := ih ⟨half, rfl⟩ (by omega)
          refine ⟨row, List.mem_cons_of_mem _ listed, ?_⟩
          rw [further]
          omega
  | data nonempty takes => exact absurd (words _) (takes.ne_zero nonempty)

end

section
variable {source : Text} {target : Target} (accepted : assemble source = .ok target)
include accepted

theorem exists_shown_lines : ∃ encodings,
    List.Forall₂ (fun line bytes => line.encode (Layout.ofSource source).addressOf = .ok bytes)
      (Layout.ofSource source).lines encodings ∧
    List.Forall₂ ListingRow.Shows (disassemble target.map target.code)
      (SourceLine.emitting (Layout.ofSource source).lines encodings) := by
  obtain ⟨encodings, encoded, rfl⟩ := assemble_eq_ok_iff.mp accepted
  have contiguous := Layout.contiguous_lines source
  exact ⟨encodings, encoded, rowsFrom_shows contiguous
    (fun _ listed filled => DebugMap.find?_of_contiguous contiguous listed filled)
    encoded (Layout.length_encodings encoded)⟩

/-- Every line that emits something has its row. -/
theorem exists_row {line : SourceLine} (listed : line ∈ (Layout.ofSource source).lines)
    {bytes : List UInt8} (encoded : line.encode (Layout.ofSource source).addressOf = .ok bytes)
    (nonempty : bytes ≠ []) :
    ∃ row ∈ disassemble target.map target.code,
      row.source = some line ∧ row.address = line.address ∧ row.bytes = bytes := by
  obtain ⟨encodings, all, shown⟩ := exists_shown_lines accepted
  have zipped : (line, bytes) ∈ (Layout.ofSource source).lines.zip encodings := by
    rw [← List.map_fst_zip (Nat.le_of_eq all.length_eq)] at listed
    obtain ⟨⟨_, own⟩, present, rfl⟩ := List.mem_map.mp listed
    have same := ((List.forall₂_iff_zip.mp all).2 present).symm.trans encoded
    cases same
    exact present
  have emits : (line, bytes) ∈ SourceLine.emitting (Layout.ofSource source).lines encodings :=
    List.mem_filter.mpr ⟨zipped, decide_eq_true nonempty⟩
  obtain ⟨row, present, shows⟩ := Traversal.exists_mem_of_mem shown.flip emits
  exact ⟨row, present, shows.source, shows.address, shows.bytes⟩

/-- The source line of a row is a line of the source and emits the bytes of the row. -/
theorem encode_source {row : ListingRow} (listed : row ∈ disassemble target.map target.code)
    {line : SourceLine} (source' : row.source = some line) :
    line ∈ (Layout.ofSource source).lines ∧ row.address = line.address ∧
      line.encode (Layout.ofSource source).addressOf = .ok row.bytes := by
  obtain ⟨encodings, all, shown⟩ := exists_shown_lines accepted
  obtain ⟨⟨own, bytes⟩, emits, shows⟩ := Traversal.exists_mem_of_mem shown listed
  have zipped := (List.mem_filter.mp emits).1
  cases source'.symm.trans shows.source
  rw [shows.bytes]
  exact ⟨(List.of_mem_zip zipped).1, shows.address, (List.forall₂_iff_zip.mp all).2 zipped⟩

/-- The row of an instruction shows the word that it is encoded as. -/
theorem statement_source {row : ListingRow} (listed : row ∈ disassemble target.map target.code)
    {line : SourceLine} (source' : row.source = some line) (kind : line.kind = .instruction) :
    ∃ i : Instruction, i.FitsWord ∧ row.bytes = i.bytes ∧ row.statement = i.statement ∧
      line.statement.emission (Layout.ofSource source).addressOf = .ok (.instruction i) := by
  obtain ⟨-, -, encoded⟩ := encode_source accepted listed source'
  obtain ⟨i, fits, bytes, translated⟩ := SourceLine.emission_of_instruction kind encoded
  have lists := lists_rowsFrom target.map 0 target.code
  have found := ((lists.fits (Nat.zero_add _)) row listed).source
  have length : dataLength target.map row.address = 0 := by
    refine dataLength_eq_zero_iff.mpr fun other given directive => ?_
    cases (source'.symm.trans found).trans given
    exact absurd directive (LineKind.opcode_of_instruction kind)
  refine ⟨i, fits, bytes, ?_, translated⟩
  rw [lists.statement_of_word listed length bytes, Statement.ofWord, Instruction.decode_encode fits]

end
end Listing

/-- A listing with the debug map and one without it agree on instructions as far as the two keep
in step, and show them with their opcodes. -/
theorem listings_agree_on_code {source : Text} {target : Target}
    (accepted : assemble source = .ok target) :
    let layout := Layout.ofSource source
    let mapped := disassemble target.map target.code
    let plain := disassemble .empty target.code
    (∀ line ∈ layout.lines, line.kind = .instruction →
        ∃ row ∈ mapped, row.source = some line ∧ row.address = line.address ∧
          line.encode layout.addressOf = .ok row.bytes) ∧
      (∀ row ∈ mapped, ∀ line, row.source = some line → line.kind = .instruction →
        (Statement.ofLine row.text).opcode = line.statement.opcode) ∧
      ((∀ line ∈ layout.lines, line.kind = .data → Even line.statement.args.length) →
        ∀ row ∈ mapped, ∀ line, row.source = some line → line.kind = .instruction →
          ∃ other ∈ plain, other.address = row.address ∧ other.bytes = row.bytes ∧
            other.text = row.text) ∧
      ((∀ line ∈ layout.lines, line.kind = .data → line.statement.args = []) →
        mapped.map (fun row => (row.address, row.bytes, row.text)) =
          plain.map fun row => (row.address, row.bytes, row.text)) := by
  intro layout mapped plain
  have contiguous := Layout.contiguous_lines source
  have lists : Listing.Lists target.map 0 target.code mapped := Listing.lists_rowsFrom ..
  have lists' : Listing.Lists .empty 0 target.code plain := Listing.lists_rowsFrom ..
  refine ⟨fun line listed kind => ?_, fun row listed line own kind => ?_,
    fun even row listed line own kind => ?_, fun empty => ?_⟩
  · obtain ⟨bytes, encoded, -⟩ := Layout.exists_encoding accepted listed
    obtain ⟨i, -, rfl, -⟩ := SourceLine.emission_of_instruction kind encoded
    obtain ⟨row, present, cites, address, bytes⟩ :=
      Listing.exists_row accepted listed encoded (List.cons_ne_nil _ _)
    exact ⟨row, present, cites, address, by rw [bytes, encoded]⟩
  · obtain ⟨i, fits, -, statement, translated⟩ := Listing.statement_source accepted listed own kind
    rw [ListingRow.text, statement, (Instruction.spells_statement fits).plain.ofLine_text,
      SourceLine.opcode_of_instruction translated]
  · obtain ⟨present, address, -⟩ := Listing.encode_source accepted listed own
    obtain ⟨i, fits, bytes, statement, -⟩ := Listing.statement_source accepted listed own kind
    have sizes : ∀ line ∈ layout.lines, Even (Layout.size line.text) := by
      intro line listed
      obtain ⟨-, size⟩ | ⟨kind, size⟩ := Layout.size_of_mem_lines listed
      · rw [size]
        exact ⟨1, rfl⟩
      · rw [size]
        exact even line listed kind
    have inside := (lists.fits (Nat.zero_add _) row listed).inside
    rw [bytes, Instruction.length_bytes] at inside
    obtain ⟨other, present', address'⟩ := lists'.exists_row_at Listing.dataLength_empty
      (contiguous.even_address Even.zero sizes line present) (by omega)
    rw [Nat.zero_add, ← address] at address'
    have length := (lists'.fits (Nat.zero_add _) other present').length
    rw [Listing.taken, if_pos (Listing.dataLength_empty _), address',
      Nat.min_eq_left (by omega)] at length
    have same : other.bytes = row.bytes :=
      lists.bytes_eq lists' listed present' address' (by rw [length, bytes]; rfl)
    have shown := lists'.statement_of_word present' (Listing.dataLength_empty _) (same.trans bytes)
    refine ⟨other, present', address', same, ?_⟩
    rw [ListingRow.text, shown, Statement.ofWord, Instruction.decode_encode fits, ListingRow.text,
      statement]
  · refine Listing.content_congr (fun a => ?_) 0 target.code
    refine (Listing.dataLength_eq_zero_iff.mpr fun line found directive => ?_).trans
      (Listing.dataLength_empty a).symm
    obtain ⟨_, _, rfl⟩ := assemble_eq_ok_iff.mp accepted
    obtain ⟨listed, -⟩ := DebugMap.mem_of_find?_ofLines found
    obtain ⟨kind, -⟩ | ⟨kind, -⟩ := Layout.size_of_mem_lines listed
    · exact absurd directive (LineKind.opcode_of_instruction kind)
    · exact empty line listed kind

/-- Two values of data leave the instruction behind them where a word begins. -/
theorem listings_agree_on_code_aligned :
    let source := "SETT r1, r2\n.DATA 1, 2\nBHOPP slutt\nslutt:".toList
    let target : Target :=
      ⟨[0x12, 0x02, 1, 2, 0x69, 0x00],
        ⟨[(0, ⟨0, 0, "SETT r1, r2".toList⟩), (2, ⟨1, 2, ".DATA 1, 2".toList⟩),
          (4, ⟨2, 4, "BHOPP slutt".toList⟩)], by decide⟩⟩
    assemble source = .ok target ∧
      ∃ row ∈ disassemble target.map target.code,
        row.address = 4 ∧ (Statement.ofLine row.text).opcode = "BHOPP".toList ∧
          ∃ other ∈ disassemble .empty target.code, other.address = 4 ∧ other.text = row.text := by
  intro source target
  have accepted : assemble source = .ok target := by decide +kernel
  let line : SourceLine := ⟨2, 4, "BHOPP slutt".toList⟩
  have listed : line ∈ (Layout.ofSource source).lines := by decide +kernel
  have kind : line.kind = .instruction := by decide +kernel
  have even : ∀ line ∈ (Layout.ofSource source).lines, line.kind = .data →
      Even line.statement.args.length := by decide +kernel
  obtain ⟨rows, opcodes, agree, -⟩ := listings_agree_on_code accepted
  obtain ⟨row, present, cites, address, -⟩ := rows line listed kind
  obtain ⟨other, present', address', -, text⟩ := agree even row present line cites kind
  have opcode : line.statement.opcode = "BHOPP".toList := by decide +kernel
  exact ⟨accepted, row, present, address, (opcodes row present line cites kind).trans opcode,
    other, present', address'.trans address, text⟩

end SledeMachine
