import Mathlib.Algebra.GroupWithZero.Nat
import Mathlib.Data.List.Chain
import SledeMachine.Assembly
import SledeMachine.Proofs.Emission
import SledeMachine.Proofs.LineKind

/-!
Where the bytes of a program stand. The layout reserves bytes for each line before any statement is
read, and the statements are encoded without a look at what was reserved; the two agree because a
line counts as a data directive exactly if its opcode is read as one. So the encoding of each
line begins at its address and the lines fill the program without a gap.
-/

namespace SledeMachine

namespace Layout

theorem sourceLines_append_cons (text rest : Text) :
    sourceLines (text ++ '\n' :: rest) = sourceLines text ++ sourceLines rest := by
  rw [sourceLines, List.splitOn_append_cons_self, List.map_append, sourceLines, sourceLines]

theorem sourceLines_intercalate {lines : List Text} (unbroken : ∀ line ∈ lines, '\n' ∉ line)
    (nonempty : lines ≠ []) :
    sourceLines (['\n'].intercalate lines) = lines.map Text.trim := by
  rw [sourceLines, List.splitOn_intercalate '\n' unbroken nonempty]

theorem size_of_not_emits {line : Text} (h : (LineKind.ofLine line).emits = false) :
    size line = 0 := by
  simp only [size]
  cases kind : LineKind.ofLine line with
  | blank | comment | label _ => rfl
  | data | instruction => simp [kind, LineKind.emits] at h

/-- Each line begins where the bytes reserved for the lines before it end. -/
def Contiguous : Nat → List SourceLine → Prop
  | _, [] => True
  | address, line :: rest => line.address = address ∧ Contiguous (address + size line.text) rest

theorem contiguous_place (lines : List Text) (number address : Nat) :
    Contiguous address (place lines number address) := by
  induction lines generalizing number address with
  | nil => trivial
  | cons line rest ih => exact ⟨rfl, ih (number + 1) (address + size line)⟩

namespace Contiguous
variable {address : Nat} {lines : List SourceLine}

theorem filter {p : SourceLine → Bool} (h : Contiguous address lines)
    (dropped : ∀ line ∈ lines, p line = false → size line.text = 0) :
    Contiguous address (lines.filter p) := by
  induction lines generalizing address with
  | nil => trivial
  | cons line rest ih =>
      have tail := ih h.2 fun l hl => dropped l (List.mem_cons_of_mem _ hl)
      cases hp : p line with
      | true =>
          rw [List.filter_cons_of_pos hp]
          exact ⟨h.1, tail⟩
      | false =>
          rw [List.filter_cons_of_neg (by simp [hp])]
          rwa [dropped line List.mem_cons_self hp, Nat.add_zero] at tail

theorem le_address (h : Contiguous address lines) : ∀ line ∈ lines, address ≤ line.address := by
  induction lines generalizing address with
  | nil => simp
  | cons line rest ih =>
      intro l hl
      obtain rfl | hl := List.mem_cons.mp hl
      · exact Nat.le_of_eq h.1.symm
      · exact Nat.le_trans (Nat.le_add_right _ _) (ih h.2 l hl)

theorem isChain (h : Contiguous address lines) :
    lines.IsChain fun line next => line.address + size line.text = next.address := by
  induction lines generalizing address with
  | nil => exact .nil
  | cons line rest ih =>
      refine List.isChain_cons.mpr ⟨fun next hnext => ?_, ih h.2⟩
      cases rest with
      | nil => cases hnext
      | cons first rest =>
          cases hnext
          rw [h.1, h.2.1]

/-- The bytes of a line stand at its address, counted from where the first line begins. -/
theorem slices (h : Contiguous address lines) {encodings : List (List UInt8)}
    (sizes : List.Forall₂ (fun line bytes => bytes.length = size line.text) lines encodings)
    {base : Nat} {front : List UInt8} (length : front.length = base + address) :
    List.Forall₂
      (fun line bytes =>
        ((front ++ encodings.flatten).drop (base + line.address)).take (size line.text) = bytes)
      lines encodings := by
  induction sizes generalizing address front with
  | nil => exact .nil
  | @cons line bytes lines encodings reserved _ ih =>
      refine .cons ?_ ?_
      · rw [h.1, ← length, List.drop_left, List.flatten_cons, ← reserved, List.take_left]
      -- For the lines after it the bytes of this one belong to the front.
      · have longer : (front ++ bytes).length = base + (address + size line.text) := by
          rw [List.length_append, length, reserved, Nat.add_assoc]
        simpa only [List.flatten_cons, List.append_assoc] using ih h.2 longer

end Contiguous

theorem emits_of_mem_lines {source : Text} {line : SourceLine}
    (h : line ∈ (ofSource source).lines) : line.kind.emits = true :=
  (List.mem_filter.mp h).2

theorem contiguous_lines (source : Text) : Contiguous 0 (ofSource source).lines :=
  (contiguous_place (sourceLines source) 0 0).filter fun _ _ => size_of_not_emits

end Layout

namespace SourceLine
variable {addressOf : Text → Option Nat} {line : SourceLine} {bytes : List UInt8}

theorem encode_eq_ok_iff :
    line.encode addressOf = .ok bytes ↔
      ∃ e, line.statement.emission addressOf = .ok e ∧ e.bytes = bytes := by
  simp only [encode]
  split <;> simp_all

/-- As many bytes are emitted for a line as were reserved for it. -/
theorem length_encode (encoded : line.encode addressOf = .ok bytes)
    (emits : line.kind.emits = true) : bytes.length = Layout.size line.text := by
  obtain ⟨e, translated, rfl⟩ := encode_eq_ok_iff.mp encoded
  obtain ⟨m, opcode, rule⟩ := Statement.emission_eq_ok_iff.mp translated
  rw [rule.length_bytes]
  cases kind : line.kind with
  | data =>
      have directive : m = .data :=
        Mnemonic.name_eq_dataDirective_iff.mp (opcode.symm.trans (LineKind.opcode_of_data kind))
      have reserved : Layout.size line.text = line.statement.args.length := by
        simp [Layout.size, show LineKind.ofLine line.text = .data from kind, statement]
      rw [if_pos directive, reserved]
  | instruction =>
      have notDirective : m ≠ .data := by
        rintro rfl
        exact LineKind.opcode_of_instruction kind opcode
      rw [if_neg notDirective]
      simp [Layout.size, show LineKind.ofLine line.text = .instruction from kind]
  | blank | comment | label _ => simp [kind, LineKind.emits] at emits

end SourceLine

namespace Layout

theorem sum_sizes {lines : List SourceLine} {encodings : List (List UInt8)}
    (sizes : List.Forall₂ (fun line bytes => bytes.length = size line.text) lines encodings) :
    encodings.flatten.length = (lines.map fun line => size line.text).sum := by
  induction sizes with
  | nil => rfl
  | cons reserved _ ih => simp [reserved, ih]

theorem length_encodings {source : Text} {addressOf : Text → Option Nat}
    {encodings : List (List UInt8)}
    (encoded : List.Forall₂ (fun line bytes => line.encode addressOf = .ok bytes)
      (ofSource source).lines encodings) :
    List.Forall₂ (fun line bytes => bytes.length = size line.text)
      (ofSource source).lines encodings := by
  refine ((List.forall₂_and_left _ _).mpr ⟨fun _ => emits_of_mem_lines, encoded⟩).imp ?_
  intro line bytes ⟨emits, encoded⟩
  exact SourceLine.length_encode encoded emits

theorem size_of_mem_lines {source : Text} {line : SourceLine}
    (h : line ∈ (ofSource source).lines) :
    line.kind = .instruction ∧ size line.text = 2 ∨
      line.kind = .data ∧ size line.text = line.statement.args.length := by
  have emits := emits_of_mem_lines h
  simp only [size, show LineKind.ofLine line.text = line.kind from rfl]
  cases kind : line.kind with
  | data => exact .inr ⟨rfl, rfl⟩
  | instruction => exact .inl ⟨rfl, rfl⟩
  | blank | comment | label _ => simp [kind, LineKind.emits] at emits

end Layout

theorem assemble_eq_ok_iff {source : Text} {target : Target} :
    assemble source = .ok target ↔
      ∃ encodings,
        List.Forall₂
          (fun line bytes => line.encode (Layout.ofSource source).addressOf = .ok bytes)
          (Layout.ofSource source).lines encodings ∧
        target = ⟨encodings.flatten, DebugMap.ofLines (Layout.ofSource source).lines⟩ := by
  simp only [assemble, Traversal.bind_eq_ok_iff, Traversal.mapM_eq_ok_iff]
  simp [pure, Except.pure, eq_comm]

/-- What the layout reserves is what the encodings fill, line by line and without a gap. -/
theorem assemble_fills_layout {source : Text} {target : Target}
    (h : assemble source = .ok target) :
    let layout := Layout.ofSource source
    (∀ line, layout.lines.head? = some line → line.address = 0) ∧
      layout.lines.IsChain (fun line next => line.address + Layout.size line.text = next.address) ∧
      (∀ line ∈ layout.lines,
        line.kind = .instruction ∧ Layout.size line.text = 2 ∨
          line.kind = .data ∧ Layout.size line.text = line.statement.args.length) ∧
      ∃ encodings,
        List.Forall₂
          (fun line bytes =>
            line.encode layout.addressOf = .ok bytes ∧
              bytes.length = Layout.size line.text ∧
              (target.image.drop (7 + line.address)).take (Layout.size line.text) = bytes)
          layout.lines encodings ∧
        target.image = Image.tag ++ encodings.flatten ∧
        target.image.length = 7 + (layout.lines.map fun line => Layout.size line.text).sum := by
  obtain ⟨encodings, encoded, rfl⟩ := assemble_eq_ok_iff.mp h
  have contiguous := Layout.contiguous_lines source
  have sizes := Layout.length_encodings encoded
  have slices := contiguous.slices sizes (show Image.tag.length = 7 + 0 from rfl)
  refine ⟨fun line head => ?_, contiguous.isChain, fun _ => Layout.size_of_mem_lines,
    encodings, ?_, rfl, ?_⟩
  · obtain ⟨rest, lines⟩ := List.head?_eq_some_iff.mp head
    rw [lines] at contiguous
    exact contiguous.1
  · exact encoded.mp (fun _ _ => And.intro) (sizes.mp (fun _ _ => And.intro) slices)
  · rw [Target.image, List.length_append, Image.length_tag, Layout.sum_sizes sizes]

/-- Empty values and empty directives take no bytes. -/
theorem assemble_fills_layout_of_data :
    let source := "a:\n.DATA 1,,2 ; two\n.DATA\nHOPP a".toList
    let target : Target :=
      ⟨[1, 2, 0x08, 0x00],
        ⟨[(0, ⟨1, 0, ".DATA 1,,2 ; two".toList⟩), (2, ⟨3, 2, "HOPP a".toList⟩)], by decide⟩⟩
    assemble source = .ok target ∧
      target.image.length =
        7 + ((Layout.ofSource source).lines.map fun line => Layout.size line.text).sum := by
  intro source target
  have accepted : assemble source = .ok target := by decide +kernel
  obtain ⟨-, -, -, encodings, -, -, length⟩ := assemble_fills_layout accepted
  exact ⟨accepted, length⟩

end SledeMachine
