import SledeMachine.Listing
import SledeMachine.Proofs.DebugMap
import SledeMachine.Proofs.Printing

/-!
Listings of assembled programs. With the debug map of its own source a program falls apart into the
encodings it was made of: at the address of each line that emits bytes the map has that line, which
tells data from an instruction and how much of it there is. So each row shows one such line, and as
each row spells its bytes, the rows are again a source of the same program.
-/

namespace SledeMachine

/-- What a line emits is the values of a data directive or the word of an instruction, and which
of the two is told by its opcode. -/
theorem SourceLine.encode_cases {addressOf : Text → Option Nat} {line : SourceLine}
    {bytes : List UInt8} (encoded : line.encode addressOf = .ok bytes) :
    line.statement.opcode = dataDirective ∧ line.statement.args.length = bytes.length ∨
      line.statement.opcode ≠ dataDirective ∧ ∃ i : Instruction, i.FitsWord ∧ bytes = i.bytes := by
  obtain ⟨e, translated, rfl⟩ := encode_eq_ok_iff.mp encoded
  obtain ⟨m, opcode, rule⟩ := Statement.emission_eq_ok_iff.mp translated
  by_cases directive : m = .data
  · refine .inl ⟨opcode.trans (Mnemonic.name_eq_dataDirective_iff.mpr directive), ?_⟩
    rw [rule.length_bytes, if_pos directive]
  · refine .inr ⟨fun h => directive ?_, ?_⟩
    · exact Mnemonic.name_eq_dataDirective_iff.mp (opcode.symm.trans h)
    · obtain ⟨i, rfl⟩ := rule.eq_instruction directive
      exact ⟨i, rule.fitsWord, rfl⟩

namespace Listing
variable {map : DebugMap} {address : Nat} {line : SourceLine}

/-- Bytes in front of others are what a directive takes: as many as it has values, or fewer and
nothing is left. -/
def Takes (count : Nat) (front rest : List UInt8) : Prop :=
  front.length = count ∨ front.length < count ∧ rest = []

theorem Takes.take_drop {count : Nat} {front rest : List UInt8} (h : Takes count front rest) :
    (front ++ rest).take count = front ∧ (front ++ rest).drop count = rest := by
  obtain rfl | ⟨short, rfl⟩ := h
  · exact ⟨List.take_left, List.drop_left⟩
  · rw [List.append_nil]
    exact ⟨List.take_of_length_le (Nat.le_of_lt short), List.drop_of_length_le (Nat.le_of_lt short)⟩

theorem takes_take_drop (count : Nat) (bytes : List UInt8) :
    Takes count (bytes.take count) (bytes.drop count) := by
  by_cases enough : count ≤ bytes.length
  · exact .inl (List.length_take_of_le enough)
  · refine .inr ⟨?_, List.drop_of_length_le (by omega)⟩
    rw [List.length_take]
    omega

theorem rowsFrom_last (map : DebugMap) (address : Nat) (last : UInt8) :
    rowsFrom map address [last] = [⟨address, [last], .ofData [last], map.find? address⟩] := by
  rw [rowsFrom]

theorem rowsFrom_takes {front rest : List UInt8} (nonempty : front ≠ [])
    (takes : Takes (dataLength map address) front rest) :
    rowsFrom map address (front ++ rest) =
      ⟨address, front, .ofData front, map.find? address⟩ ::
        rowsFrom map (address + front.length) rest := by
  obtain ⟨first, others, rfl⟩ := List.exists_cons_of_ne_nil nonempty
  rw [List.cons_append]
  cases whole : others ++ rest with
  | nil =>
      obtain ⟨rfl, rfl⟩ := List.append_eq_nil_iff.mp whole
      rw [rowsFrom_last, rowsFrom]
  | cons second further =>
      cases length : dataLength map address with
      | zero =>
          rw [length] at takes
          obtain empty | ⟨empty, -⟩ := takes <;> simp at empty
      | succ count =>
          have tail : Takes count others rest := by
            simpa only [Takes, length, List.length_cons, Nat.add_right_cancel_iff,
              Nat.add_lt_add_iff_right] using takes
          obtain ⟨take, drop⟩ := tail.take_drop
          rw [rowsFrom, length, ← whole]
          simp only [take, drop]

theorem rowsFrom_data {bytes : List UInt8} (found : map.find? address = some line)
    (directive : line.statement.opcode = dataDirective)
    (count : line.statement.args.length = bytes.length) (nonempty : bytes ≠ [])
    (rest : List UInt8) :
    rowsFrom map address (bytes ++ rest) =
      ⟨address, bytes, .ofData bytes, some line⟩ ::
        rowsFrom map (address + bytes.length) rest := by
  have length : dataLength map address = bytes.length := by
    simp only [dataLength, found, if_pos directive, count]
  rw [rowsFrom_takes nonempty (.inl length.symm), found]

theorem rowsFrom_of_dataLength_zero (length : dataLength map address = 0) (w : Word)
    (rest : List UInt8) :
    rowsFrom map address (w.bytes ++ rest) =
      ⟨address, w.bytes, .ofWord w, map.find? address⟩ :: rowsFrom map (address + 2) rest := by
  rw [Word.bytes, List.cons_append, List.cons_append, List.nil_append, rowsFrom, length]
  simp only [Word.ofBytes_low_high]

theorem rowsFrom_word {w : Word} (found : map.find? address = some line)
    (directive : line.statement.opcode ≠ dataDirective) (rest : List UInt8) :
    rowsFrom map address (w.bytes ++ rest) =
      ⟨address, w.bytes, .ofWord w, some line⟩ :: rowsFrom map (address + 2) rest := by
  have length : dataLength map address = 0 := by
    simp only [dataLength, found, if_neg directive]
  rw [rowsFrom_of_dataLength_zero length, found]

end Listing

/-- A row shows a line of the source and the bytes it emits. -/
structure ListingRow.Shows (row : ListingRow) (entry : SourceLine × List UInt8) : Prop where
  address : row.address = entry.1.address
  bytes : row.bytes = entry.2
  source : row.source = some entry.1
  spells : row.statement.Spells entry.2

namespace SourceLine

/-- The lines that emit at least one byte, with what they emit. -/
def emitting (lines : List SourceLine) (encodings : List (List UInt8)) :
    List (SourceLine × List UInt8) :=
  (lines.zip encodings).filter fun entry => entry.2 ≠ []

theorem emitting_cons {bytes : List UInt8} (nonempty : bytes ≠ []) (line : SourceLine)
    (lines : List SourceLine) (encodings : List (List UInt8)) :
    emitting (line :: lines) (bytes :: encodings) = (line, bytes) :: emitting lines encodings :=
  List.filter_cons_of_pos (decide_eq_true nonempty)

theorem flatten_emitting {lines : List SourceLine} {encodings : List (List UInt8)}
    (length : lines.length = encodings.length) :
    ((emitting lines encodings).map Prod.snd).flatten = encodings.flatten := by
  have all := List.map_snd_zip (Nat.le_of_eq length.symm)
  have filtered : (emitting lines encodings).map Prod.snd =
      encodings.filter fun bytes => bytes ≠ [] := by
    rw [← all, List.filter_map, all]
    rfl
  rw [filtered, List.flatten_filter_ne_nil]

end SourceLine

namespace Listing

/-- Each of the encodings that are not empty makes up a row. -/
theorem rowsFrom_shows {map : DebugMap} {addressOf : Text → Option Nat} {lines : List SourceLine}
    {encodings : List (List UInt8)} {address : Nat} (contiguous : Layout.Contiguous address lines)
    (found : ∀ line ∈ lines, 0 < Layout.size line.text → map.find? line.address = some line)
    (encoded : List.Forall₂ (fun line bytes => line.encode addressOf = .ok bytes) lines encodings)
    (sizes : List.Forall₂ (fun line bytes => bytes.length = Layout.size line.text)
      lines encodings) :
    List.Forall₂ ListingRow.Shows (rowsFrom map address encodings.flatten)
      (SourceLine.emitting lines encodings) := by
  induction encoded generalizing address with
  | nil =>
      rw [List.flatten_nil, rowsFrom]
      exact .nil
  | @cons line bytes lines encodings own _ ih =>
      obtain ⟨begins, next⟩ := contiguous
      obtain ⟨foundOwn, foundOthers⟩ := List.forall_mem_cons.mp found
      cases sizes with
      | cons size sizes =>
          have others := ih next foundOthers sizes
          rw [← size] at others foundOwn
          rw [begins] at foundOwn
          rw [List.flatten_cons]
          obtain ⟨directive, count⟩ | ⟨directive, i, fits, rfl⟩ := SourceLine.encode_cases own
          · by_cases nonempty : bytes = []
            -- No row, and the next line has the same address.
            · subst nonempty
              exact others
            · rw [rowsFrom_data (foundOwn (List.length_pos_of_ne_nil nonempty)) directive count
                nonempty, SourceLine.emitting_cons nonempty]
              exact .cons ⟨begins.symm, rfl, rfl, Statement.spells_ofData bytes⟩ others
          · have nonempty : i.bytes ≠ [] := List.cons_ne_nil _ _
            rw [SourceLine.emitting_cons nonempty, Instruction.bytes,
              rowsFrom_word (foundOwn Nat.two_pos) directive]
            exact .cons ⟨begins.symm, rfl, rfl, Instruction.spells_ofWord fits⟩ others

end Listing

/-- A listing with the debug map of the source shows the lines that emit bytes, each once and in
order, and is a source of the same image. -/
theorem disassemble_assembled {source : Text} {target : Target} (h : assemble source = .ok target) :
    let layout := Layout.ofSource source
    let rows := disassemble target.map (target.image.drop 7)
    ∃ encodings,
      List.Forall₂ (fun line bytes => line.encode layout.addressOf = .ok bytes)
        layout.lines encodings ∧
      rows.map (fun row => (row.address, row.bytes, row.source)) =
        (SourceLine.emitting layout.lines encodings).map
          (fun (line, bytes) => (line.address, bytes, some line)) ∧
      ∃ again, assemble (['\n'].intercalate (rows.map ListingRow.text)) = .ok again ∧
        again.image = target.image := by
  intro layout rows
  obtain ⟨encodings, encoded, rfl⟩ := assemble_eq_ok_iff.mp h
  have contiguous := Layout.contiguous_lines source
  have shown : List.Forall₂ ListingRow.Shows rows (SourceLine.emitting layout.lines encodings) :=
    Listing.rowsFrom_shows contiguous
      (fun _ listed filled => DebugMap.find?_of_contiguous contiguous listed filled)
      encoded (Layout.length_encodings encoded)
  refine ⟨encodings, encoded, ?_, ?_⟩
  · refine List.forall₂_eq_eq_eq ▸ List.forall₂_map_left_iff.mpr (List.forall₂_map_right_iff.mpr ?_)
    refine shown.imp fun row entry shows => ?_
    rw [shows.address, shows.bytes, shows.source]
  · have spells : List.Forall₂ Statement.Spells (rows.map ListingRow.statement)
        ((SourceLine.emitting layout.lines encodings).map Prod.snd) :=
      List.forall₂_map_left_iff.mpr
        (List.forall₂_map_right_iff.mpr (shown.imp fun _ _ => (·.spells)))
    obtain ⟨again, accepted, code⟩ := assemble_sourceOf spells
    refine ⟨again, ?_, ?_⟩
    · rw [← accepted, Layout.sourceOf, List.map_map]
      rfl
    · rw [Target.image, Target.image, code, SourceLine.flatten_emitting encoded.length_eq]

/-- A directive without values shares its address with the line after it and has no row. -/
theorem disassemble_assembled_shared :
    let source := ".DATA\n.DATA 1, 255, 3\nBHOPP slutt\nslutt:".toList
    let target : Target :=
      ⟨[1, 255, 3, 0x59, 0x00],
        ⟨[(0, ⟨1, 0, ".DATA 1, 255, 3".toList⟩), (3, ⟨2, 3, "BHOPP slutt".toList⟩)], by decide⟩⟩
    let rows := disassemble target.map (target.image.drop 7)
    assemble source = .ok target ∧
      ∃ again, assemble (['\n'].intercalate (rows.map ListingRow.text)) = .ok again ∧
        again.image = target.image := by
  intro source target rows
  have accepted : assemble source = .ok target := by decide +kernel
  obtain ⟨-, -, -, again⟩ := disassemble_assembled accepted
  exact ⟨accepted, again⟩

end SledeMachine
