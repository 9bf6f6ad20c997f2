import Mathlib.Data.List.Chain
import SledeMachine.Proofs.NormalForm
import SledeMachine.Proofs.Relisting

/-!
Listings as tilings. Whatever a debug map says, each row begins where the one before it ends, takes
at least one byte and no more than are left, so a listing comes to an end and covers its bytes
once. How many bytes a row takes is read off the map and off how many are left: those of a directive
that has values, or else a word.
-/

namespace SledeMachine

namespace Listing
variable {map : DebugMap} {address stop : Nat} {bytes : List UInt8} {rows : List ListingRow}

theorem dataLength_of_directive {line : SourceLine} (found : map.find? address = some line)
    (directive : line.statement.opcode = dataDirective) :
    dataLength map address = line.statement.args.length := by
  simp only [dataLength, found, if_pos directive]

/-- Only a directive that has values makes a difference to a listing. -/
theorem dataLength_eq_zero_iff :
    dataLength map address = 0 ↔ ∀ line, map.find? address = some line →
      line.statement.opcode = dataDirective → line.statement.args = [] := by
  constructor
  · intro length line found directive
    rw [dataLength_of_directive found directive] at length
    exact List.length_eq_zero_iff.mp length
  · intro empty
    rw [dataLength]
    split
    · rename_i line found
      split
      · rw [empty line found ‹_›, List.length_nil]
      · rfl
    · rfl

/-- The number of bytes that a row at an address takes, if so many are left from there on. -/
def taken (map : DebugMap) (address left : Nat) : Nat :=
  if dataLength map address = 0 then min 2 left else min (dataLength map address) left

/-- A row is a tile of bytes that end at an address. -/
structure Fits (map : DebugMap) (stop : Nat) (row : ListingRow) : Prop where
  nonempty : row.bytes ≠ []
  inside : row.address + row.bytes.length ≤ stop
  length : row.bytes.length = taken map row.address (stop - row.address)
  source : row.source = map.find? row.address

namespace Takes
variable {count : Nat} {front rest : List UInt8}

theorem length_eq (h : Takes count front rest) :
    front.length = min count (front ++ rest).length := by
  rw [List.length_append]
  obtain whole | ⟨short, rfl⟩ := h
  · omega
  · rw [List.length_nil]
    omega

theorem ne_zero (h : Takes count front rest) (nonempty : front ≠ []) : count ≠ 0 := by
  have := List.length_pos_of_ne_nil nonempty
  obtain whole | ⟨short, -⟩ := h <;> omega

end Takes

theorem Lists.fits (h : Lists map address bytes rows) (ends : address + bytes.length = stop) :
    ∀ row ∈ rows, Fits map stop row := by
  induction h with
  | done => nofun
  | @last address b =>
      refine List.forall_mem_singleton.mpr ⟨List.cons_ne_nil _ _, Nat.le_of_eq ends, ?_, rfl⟩
      have left : stop - address = 1 := by
        rw [List.length_singleton] at ends
        omega
      rw [left, taken]
      split
      · rfl
      · exact (Nat.min_eq_right (Nat.pos_of_ne_zero ‹_›)).symm
  | @word address w rest rows length _ ih =>
      have two : w.bytes.length = 2 := rfl
      rw [List.length_append, two, ← Nat.add_assoc] at ends
      refine List.forall_mem_cons.mpr ⟨⟨List.cons_ne_nil _ _, ?_, ?_, rfl⟩, ih ends⟩
      · simp only [two]
        omega
      · rw [taken, if_pos length]
        simp only [two]
        omega
  | @data address front rest rows nonempty takes _ ih =>
      have left : stop - address = (front ++ rest).length := by omega
      rw [List.length_append, ← Nat.add_assoc] at ends
      refine List.forall_mem_cons.mpr ⟨⟨nonempty, ?_, ?_, rfl⟩, ih ends⟩
      · simp only
        omega
      · rw [taken, if_neg (takes.ne_zero nonempty), left]
        exact takes.length_eq

theorem Lists.address_head (h : Lists map address bytes rows) {row : ListingRow}
    (first : rows.head? = some row) : row.address = address := by
  cases h with
  | done => cases first
  | last | word | data =>
      cases first
      rfl

/-- There is no gap between two rows, and they do not overlap. -/
theorem Lists.isChain (h : Lists map address bytes rows) :
    rows.IsChain fun row next => row.address + row.bytes.length = next.address := by
  induction h with
  | done => exact .nil
  | last => exact .singleton _
  | word _ others ih =>
      exact List.isChain_cons.mpr ⟨fun next first => (others.address_head first).symm, ih⟩
  | data _ _ others ih =>
      exact List.isChain_cons.mpr ⟨fun next first => (others.address_head first).symm, ih⟩

/-- Each row takes at least one byte. -/
theorem Lists.length_le (h : Lists map address bytes rows) : rows.length ≤ bytes.length := by
  induction h with
  | done | last => exact Nat.le_refl _
  | @word _ w _ _ _ _ ih =>
      rw [List.length_cons, List.length_append, show w.bytes.length = 2 from rfl]
      omega
  | data nonempty _ _ ih =>
      have := List.length_pos_of_ne_nil nonempty
      rw [List.length_cons, List.length_append]
      omega

end Listing

/-- A listing covers its bytes without a gap, whatever the debug map. -/
theorem listing_tiles (map : DebugMap) (program : List UInt8) :
    let rows := disassemble map program
    rows.length ≤ program.length ∧
      (∀ row ∈ rows, row.bytes ≠ []) ∧
      (∀ row, rows.head? = some row → row.address = 0) ∧
      rows.IsChain (fun row next => row.address + row.bytes.length = next.address) ∧
      (rows.map ListingRow.bytes).flatten = program ∧
      ∀ row ∈ rows,
        let left := program.length - row.address
        row.source = map.find? row.address ∧
          (program.drop row.address).take row.bytes.length = row.bytes ∧
          (∀ line s, row.source = some line → Statement.Reads line.text s →
            s.opcode = dataDirective → s.args ≠ [] →
            row.bytes.length = min s.args.length left) ∧
          ((∀ line s, row.source = some line → Statement.Reads line.text s →
            s.opcode = dataDirective → s.args = []) →
            row.bytes.length = if left = 1 then 1 else 2) := by
  intro rows
  have lists : Listing.Lists map 0 program rows := Listing.lists_rowsFrom map 0 program
  have fits := lists.fits (Nat.zero_add _)
  refine ⟨lists.length_le, fun row listed => (fits row listed).nonempty,
    fun _ => lists.address_head, lists.isChain, lists.flatten, fun row listed => ?_⟩
  obtain ⟨nonempty, inside, length, source⟩ := fits row listed
  refine ⟨source, (lists.slice listed).2, fun line s found reads directive filled => ?_,
    fun empty => ?_⟩
  · rw [source] at found
    obtain rfl : line.statement = s := reads.ofLine_eq
    have count := Listing.dataLength_of_directive found directive
    have positive := List.length_pos_of_ne_nil filled
    rw [length, Listing.taken, count, if_neg (Nat.ne_of_gt positive)]
  · rw [source] at empty
    have none : Listing.dataLength map row.address = 0 :=
      Listing.dataLength_eq_zero_iff.mpr fun line found =>
        empty line _ found (Statement.reads_ofLine line.text)
    have positive := List.length_pos_of_ne_nil nonempty
    rw [Listing.taken, if_pos none] at length
    rw [length]
    split <;> omega

end SledeMachine
