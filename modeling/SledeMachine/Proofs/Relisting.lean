import SledeMachine.Proofs.Listing

/-!
Listings of arbitrary bytes. With any debug map, even an empty one or one of another program, a
listing covers its bytes and is a source of nearly the same ones: data and words that are no
instruction come back as they are, and a word that is one comes back with the bits cleared that its
instruction does not use. How far a row goes depends on the map and on how many bytes are left but
not on what they are, so the listing of the bytes that come back has the same rows.
-/

namespace SledeMachine

namespace Listing

/-- The rules of a listing, one for each kind of row. -/
inductive Lists (map : DebugMap) : Nat → List UInt8 → List ListingRow → Prop
  | done {address : Nat} : Lists map address [] []
  | last {address : Nat} {b : UInt8} :
      Lists map address [b] [⟨address, [b], .ofData [b], map.find? address⟩]
  | word {address : Nat} {w : Word} {rest : List UInt8} {rows : List ListingRow}
      (length : dataLength map address = 0) (others : Lists map (address + 2) rest rows) :
      Lists map address (w.bytes ++ rest) (⟨address, w.bytes, .ofWord w, map.find? address⟩ :: rows)
  | data {address : Nat} {front rest : List UInt8} {rows : List ListingRow} (nonempty : front ≠ [])
      (takes : Takes (dataLength map address) front rest)
      (others : Lists map (address + front.length) rest rows) :
      Lists map address (front ++ rest)
        (⟨address, front, .ofData front, map.find? address⟩ :: rows)

section
variable {map : DebugMap} {address : Nat} {bytes : List UInt8} {rows : List ListingRow}

theorem lists_rowsFrom (map : DebugMap) (address : Nat) (bytes : List UInt8) :
    Lists map address bytes (rowsFrom map address bytes) := by
  induction address, bytes using rowsFrom.induct map with
  | case1 address =>
      rw [rowsFrom]
      exact .done
  | case2 address last =>
      rw [rowsFrom_last]
      exact .last
  | case3 address first second rest length ih =>
      have rule := Lists.word (w := .ofBytes first second) length ih
      rw [← rowsFrom_of_dataLength_zero length] at rule
      simpa [Word.bytes] using rule
  | case4 address first second rest count length taken ih =>
      have whole : taken ++ (second :: rest).drop count = first :: second :: rest :=
        congrArg (first :: ·) (List.take_append_drop count _)
      have takes : Takes (dataLength map address) taken ((second :: rest).drop count) := by
        rw [length]
        exact takes_take_drop (count + 1) (first :: second :: rest)
      have rule := Lists.data (List.cons_ne_nil _ _) takes ih
      rw [← rowsFrom_takes (List.cons_ne_nil _ _) takes, whole] at rule
      exact rule

theorem Lists.rows_eq (h : Lists map address bytes rows) : rowsFrom map address bytes = rows := by
  induction h with
  | done => rw [rowsFrom]
  | last => exact rowsFrom_last ..
  | word length _ ih => rw [rowsFrom_of_dataLength_zero length, ih]
  | data nonempty takes _ ih => rw [rowsFrom_takes nonempty takes, ih]

/-- The rows show all bytes. -/
theorem Lists.flatten (h : Lists map address bytes rows) :
    (rows.map ListingRow.bytes).flatten = bytes := by
  induction h with
  | done | last => rfl
  | word _ _ ih | data _ _ _ ih => rw [List.map_cons, List.flatten_cons, ih]

/-- The bytes that a row shows are those at its address. -/
theorem Lists.slice (h : Lists map address bytes rows) {row : ListingRow} (listed : row ∈ rows) :
    address ≤ row.address ∧
      (bytes.drop (row.address - address)).take row.bytes.length = row.bytes := by
  have skip {a n : Nat} (front rest : List UInt8) (h : a + front.length ≤ n) :
      (front ++ rest).drop (n - a) = rest.drop (n - (a + front.length)) := by
    have split : n - a = front.length + (n - (a + front.length)) := by omega
    rw [split, List.drop_length_add_append]
  induction h with
  | done => cases listed
  | last =>
      rw [List.mem_singleton.mp listed]
      simp
  | @word address w rest rows _ _ ih =>
      obtain rfl | listed := List.mem_cons.mp listed
      · simp
      · obtain ⟨le, slice⟩ := ih listed
        exact ⟨by omega, by rw [skip w.bytes rest le]; exact slice⟩
  | @data address front rest rows _ _ _ ih =>
      obtain rfl | listed := List.mem_cons.mp listed
      · simp
      · obtain ⟨le, slice⟩ := ih listed
        exact ⟨by omega, by rw [skip front rest le]; exact slice⟩

end
end Listing

namespace ListingRow

/-- Bytes that are shown as a row is: the same ones where it shows data, and the word of the
instruction where it shows one. -/
inductive Restored : ListingRow → List UInt8 → Prop
  | data {address : Nat} {bytes : List UInt8} {source : Option SourceLine} :
      Restored ⟨address, bytes, .ofData bytes, source⟩ bytes
  | instruction {address : Nat} {w : Word} {i : Instruction} {source : Option SourceLine}
      (decoded : Instruction.decode w = .ok i) :
      Restored ⟨address, w.bytes, i.statement, source⟩ i.bytes

/-- A row with other bytes to the same statement, which spells them. -/
structure Replaces (again row : ListingRow) : Prop where
  address : again.address = row.address
  statement : again.statement = row.statement
  length : again.bytes.length = row.bytes.length
  restored : row.Restored again.bytes
  spells : row.statement.Spells again.bytes

theorem replaces_data (address : Nat) (bytes : List UInt8) (source : Option SourceLine) :
    Replaces ⟨address, bytes, .ofData bytes, source⟩ ⟨address, bytes, .ofData bytes, source⟩ :=
  ⟨rfl, rfl, rfl, .data, Statement.spells_ofData bytes⟩

theorem exists_replaces_word (address : Nat) (w : Word) (source : Option SourceLine) :
    ∃ v : Word,
      Replaces ⟨address, v.bytes, .ofWord v, source⟩ ⟨address, w.bytes, .ofWord w, source⟩ := by
  cases decoded : Instruction.decode w with
  | error e =>
      have data : Statement.ofWord w = .ofData w.bytes := by
        simp only [Statement.ofWord, decoded]
      rw [data]
      refine ⟨w, ?_⟩
      rw [data]
      exact replaces_data address w.bytes source
  | ok i =>
      have fits := Instruction.fitsWord_of_decode decoded
      have written : Statement.ofWord w = i.statement := by
        simp only [Statement.ofWord, decoded]
      have rewritten : Statement.ofWord i.encode = i.statement := by
        simp only [Statement.ofWord, Instruction.decode_encode fits]
      rw [written]
      exact ⟨i.encode, rfl, rewritten, rfl, .instruction decoded, Instruction.spells_statement fits⟩

end ListingRow

/-- Some bytes have a listing with the same statements, and it spells them. -/
theorem Listing.Lists.exists_replaces {map : DebugMap} {address : Nat} {bytes : List UInt8}
    {rows : List ListingRow} (h : Lists map address bytes rows) :
    ∃ code others, code.length = bytes.length ∧ Lists map address code others ∧
      List.Forall₂ ListingRow.Replaces others rows := by
  induction h with
  | done => exact ⟨[], [], rfl, .done, .nil⟩
  | last => exact ⟨_, _, rfl, .last, .cons (ListingRow.replaces_data ..) .nil⟩
  | @word address w rest rows length _ ih =>
      obtain ⟨code, others, same, lists, replaced⟩ := ih
      obtain ⟨v, replaces⟩ := ListingRow.exists_replaces_word address w (map.find? address)
      refine ⟨_, _, ?_, .word length lists, .cons replaces replaced⟩
      rw [List.length_append, List.length_append, same]
      rfl
  | @data address front rest rows nonempty takes _ ih =>
      obtain ⟨code, others, same, lists, replaced⟩ := ih
      have again : Takes (dataLength map address) front code := by
        refine takes.imp_right fun ⟨short, empty⟩ => ⟨short, ?_⟩
        rw [empty] at same
        exact List.length_eq_zero_iff.mp same
      refine ⟨_, _, ?_, .data nonempty again lists, .cons (ListingRow.replaces_data ..) replaced⟩
      rw [List.length_append, List.length_append, same]

/-- A listing with any map is a source, and what it is a source of has the same listing. -/
theorem disassemble_reassembles (map : DebugMap) (program : List UInt8) :
    let rows := disassemble map program
    (rows.map ListingRow.bytes).flatten = program ∧
      ∃ target, assemble (['\n'].intercalate (rows.map ListingRow.text)) = .ok target ∧
        target.code.length = program.length ∧
        (∀ row ∈ rows,
          (program.drop row.address).take row.bytes.length = row.bytes ∧
            row.Restored ((target.code.drop row.address).take row.bytes.length)) ∧
        (disassemble map target.code).map (fun row => (row.address, row.text)) =
          rows.map fun row => (row.address, row.text) := by
  intro rows
  have lists : Listing.Lists map 0 program rows := Listing.lists_rowsFrom map 0 program
  obtain ⟨code, others, same, again, replaced⟩ := lists.exists_replaces
  have spells : List.Forall₂ Statement.Spells (rows.map ListingRow.statement)
      (others.map ListingRow.bytes) :=
    List.forall₂_map_left_iff.mpr
      (List.forall₂_map_right_iff.mpr (replaced.flip.imp fun _ _ replaces => replaces.spells))
  obtain ⟨target, accepted, assembled⟩ := assemble_sourceOf spells
  rw [again.flatten] at assembled
  subst assembled
  refine ⟨lists.flatten, target, ?_, same, fun row listed => ⟨(lists.slice listed).2, ?_⟩, ?_⟩
  · rw [← accepted, Layout.sourceOf, List.map_map]
    rfl
  · have found := (List.forall₂_and_left others rows).mpr ⟨fun _ => id, replaced⟩
    obtain ⟨other, present, replaces⟩ := Traversal.exists_of_mem found.flip listed
    have slice := (again.slice present).2
    rw [replaces.address, replaces.length] at slice
    exact (congrArg row.Restored slice).mpr replaces.restored
  · rw [disassemble, again.rows_eq]
    refine Traversal.map_eq_map (replaced.imp fun other row replaces => ?_)
    rw [replaces.address, ListingRow.text, ListingRow.text, replaces.statement]

end SledeMachine
