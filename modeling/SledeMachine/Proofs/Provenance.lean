import SledeMachine.Proofs.DebugMap
import SledeMachine.Proofs.Replay

/-!
What runs is what the source says. The encoding of each line stands at its address in the loaded
memory, and it stays there as long as no instruction has stored to one of its bytes. So where the
debug map has an instruction for the program counter of a snapshot, that is the instruction which
is decoded there and which the next pull executes.
-/

namespace SledeMachine

namespace SourceLine
variable {addressOf : Text → Option Nat} {line : SourceLine} {bytes : List UInt8}

theorem emission_of_instruction (kind : line.kind = .instruction)
    (encoded : line.encode addressOf = .ok bytes) :
    ∃ i : Instruction, i.FitsWord ∧ bytes = i.bytes ∧
      line.statement.emission addressOf = .ok (.instruction i) := by
  obtain ⟨e, translated, rfl⟩ := encode_eq_ok_iff.mp encoded
  obtain ⟨m, opcode, rule⟩ := Statement.emission_eq_ok_iff.mp translated
  have notData : m ≠ .data := by
    rintro rfl
    exact LineKind.opcode_of_instruction kind opcode
  obtain ⟨i, rfl⟩ := rule.eq_instruction notData
  exact ⟨i, rule.fitsWord, rfl, translated⟩

end SourceLine

namespace Layout

/-- The bytes of a line are those of the program from its address on. -/
theorem exists_encoding {source : Text} {target : Target} {line : SourceLine}
    (accepted : assemble source = .ok target) (listed : line ∈ (ofSource source).lines) :
    ∃ bytes, line.encode (ofSource source).addressOf = .ok bytes ∧
      ∀ k < bytes.length, target.code[line.address + k]? = bytes[k]? := by
  obtain ⟨encodings, encoded, rfl⟩ := assemble_eq_ok_iff.mp accepted
  have sizes := length_encodings encoded
  have slices := (contiguous_lines source).slices sizes (show [].length = 0 + 0 from rfl)
  obtain ⟨bytes, ⟨own, size⟩, slice⟩ := Traversal.exists_of_mem
    (((encoded.mp (fun _ _ => And.intro) sizes).mp (fun _ _ => And.intro) slices)) listed
  refine ⟨bytes, own, fun k inside => ?_⟩
  rw [← slice, List.getElem?_take_of_lt (size ▸ inside), List.getElem?_drop, List.nil_append,
    Nat.zero_add]

end Layout

namespace Machine

theorem stores_eq_none_iff {m : Machine} {address : Nat} :
    m.stores address = none ↔
      ∀ a, m.current? = some (.store a) → m.registers.address ≠ address := by
  simp only [stores]
  split
  · rename_i a current
    simp [current, eq_comm]
  · rename_i notStore
    simp only [true_iff]
    intro a current
    exact absurd current (notStore a)

end Machine

theorem History.memory_kept {input : Array UInt8} {first m : Machine} {past : List Machine}
    {address : Nat} (h : History input first past m) (kept : ∀ s ∈ past, s.stores address = none) :
    m.memory.read address = first.memory.read address := by
  have replayed := h.part_eq fun running => Machine.memory_of_step running address
  rw [latest_eq_none_iff.mpr kept] at replayed
  exact replayed

/-- Loading places a program at address 0. -/
theorem Target.read_of_load {target : Target} {input : Array UInt8} {r : Run} {a : Nat}
    {byte : UInt8} (loaded : Run.load target.image input = .ok r)
    (placed : target.code[a]? = some byte) : r.machine.memory.read a = byte := by
  obtain ⟨program, small, tagged, rfl⟩ := Run.load_eq_ok_iff.mp loaded
  have same : target.code = program := List.append_cancel_left tagged
  have inside : a < target.code.length := (List.getElem?_eq_some_iff.mp placed).1
  have fits : a < memorySize := by
    rw [image, List.length_append] at small
    omega
  simp only [Machine.initial]
  rw [Memory.read_ofProgram fits, ← same, placed, Option.getD_some]

/-- An instruction that a source has at the counter of a snapshot is the one that is executed. -/
theorem snapshot_runs_source {source : Text} {target : Target} {input : Array UInt8}
    {r current : Run} {earlier : List Pull} {m : Machine} {line : SourceLine}
    (accepted : assemble source = .ok target) (loaded : Run.load target.image input = .ok r)
    (driven : r.Driven (earlier ++ [some (.ok m)]) current)
    (mapped : target.map.find? m.pc = some line) (kind : line.kind = .instruction)
    (kept : ∀ s ∈ snapshots earlier, ∀ a, s.current? = some (.store a) →
      s.registers.address ≠ m.pc ∧ s.registers.address ≠ m.pc + 1) :
    let addressOf := (Layout.ofSource source).addressOf
    ∃ i, m.current? = some i ∧
      line.statement.emission addressOf = .ok (.instruction i) ∧
      line.encode addressOf = .ok i.bytes ∧
      current.next = current.proceed (m.perform input i) := by
  intro addressOf
  have map : target.map = DebugMap.ofLines (Layout.ofSource source).lines := by
    obtain ⟨_, _, rfl⟩ := assemble_eq_ok_iff.mp accepted
    rfl
  rw [map] at mapped
  obtain ⟨listed, address⟩ := DebugMap.mem_of_find?_ofLines mapped
  obtain ⟨_, encoded, placed⟩ := Layout.exists_encoding accepted listed
  obtain ⟨i, fits, rfl, translated⟩ := SourceLine.emission_of_instruction kind encoded
  obtain ⟨paused, rfl, history⟩ := driven.history (Run.phase_of_load loaded)
  rw [address] at placed
  have low : current.machine.memory.read current.machine.pc = i.encode.low := by
    rw [history.memory_kept fun s hs =>
      Machine.stores_eq_none_iff.mpr fun a store => (kept s hs a store).1]
    exact Target.read_of_load loaded (placed 0 Nat.two_pos)
  have high : current.machine.memory.read (current.machine.pc + 1) = i.encode.high := by
    rw [history.memory_kept fun s hs =>
      Machine.stores_eq_none_iff.mpr fun a store => (kept s hs a store).2]
    exact Target.read_of_load loaded (placed 1 Nat.one_lt_two)
  have decoded : current.machine.current? = some i := by
    rw [Machine.current?, Machine.word, Memory.readWord, low, high, Word.ofBytes_low_high,
      Instruction.decode_encode fits]
    rfl
  refine ⟨i, decoded, translated, encoded, ?_⟩
  rw [Run.next_of_current paused decoded, driven.input_eq, Run.input_of_load loaded]

/-- A store to another address leaves the instruction behind it as it was. -/
theorem snapshot_runs_source_after_store :
    let source := "SETT r0, 200\nLAGR r5\nSKRIV r5".toList
    let target : Target :=
      ⟨[0x01, 200, 0x14, 0x05, 0x16, 0x05],
        ⟨[(0, ⟨0, 0, "SETT r0, 200".toList⟩), (2, ⟨1, 2, "LAGR r5".toList⟩),
          (4, ⟨2, 4, "SKRIV r5".toList⟩)], by decide⟩⟩
    let m₀ : Machine := ⟨0, false, .zero, .ofProgram target.code, #[], 0, []⟩
    let m₁ : Machine := { m₀ with pc := 2, registers := m₀.registers.set 0 200 }
    let m₂ : Machine := { m₁ with pc := 4, memory := m₁.memory.write m₁.registers.address 0 }
    let r : Run := ⟨m₀, #[], 1000, 0, .loaded⟩
    let current : Run := ⟨m₂, #[], 1000, 3, .paused⟩
    (assemble source = .ok target ∧ Run.load target.image #[] = .ok r ∧
        r.Driven ([some (.ok m₀), some (.ok m₁)] ++ [some (.ok m₂)]) current ∧
        target.map.find? m₂.pc = some ⟨2, 4, "SKRIV r5".toList⟩) ∧
      ∃ i, m₂.current? = some i ∧ current.next = current.proceed (m₂.perform #[] i) := by
  intro source target m₀ m₁ m₂ r current
  have accepted : assemble source = .ok target := by decide +kernel
  have loaded : Run.load target.image #[] = .ok r := rfl
  have set : m₀.current? = some (.set 0 200) :=
    (Machine.current?_of_program (m := m₀) rfl (by decide)).trans (by decide)
  have store : m₁.current? = some (.store 5) :=
    (Machine.current?_of_program (m := m₁) rfl (by decide)).trans (by decide)
  let r₀ : Run := { r with ticks := 1, phase := .paused }
  let r₁ : Run := { r₀ with machine := m₁, ticks := 2 }
  have first : r.next = (some (.ok m₀), r₀) := rfl
  have second : r₀.next = (some (.ok m₁), r₁) := Run.next_of_current (r := r₀) rfl set
  have third : r₁.next = (some (.ok m₂), current) := Run.next_of_current (r := r₁) rfl store
  have driven : r.Driven ([some (.ok m₀), some (.ok m₁)] ++ [some (.ok m₂)]) current :=
    ((Run.Driven.start.pull_of_next first).pull_of_next second).pull_of_next third
  have mapped : target.map.find? m₂.pc = some ⟨2, 4, "SKRIV r5".toList⟩ := by decide
  have kept : ∀ s ∈ snapshots [some (.ok m₀), some (.ok m₁)], ∀ a,
      s.current? = some (.store a) →
        s.registers.address ≠ m₂.pc ∧ s.registers.address ≠ m₂.pc + 1 := by
    intro s listed a stored
    obtain rfl | listed := List.mem_cons.mp listed
    · cases set.symm.trans stored
    · rw [List.mem_singleton.mp listed]
      decide
  obtain ⟨i, decoded, -, -, next⟩ :=
    snapshot_runs_source accepted loaded driven mapped (by decide +kernel) kept
  exact ⟨⟨accepted, loaded, driven, mapped⟩, i, decoded, next⟩

end SledeMachine
