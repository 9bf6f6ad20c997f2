import SledeMachine.Disassembly
import SledeMachine.Proofs.Encoding
import SledeMachine.Proofs.Loading
import SledeMachine.Proofs.Placement

/-!
Labels as addresses. A name stands for the number of bytes emitted by the lines before its last
definition, wherever it is used. Words keep twelve bits of it; no more are needed for a program
that fits into memory, so that jumping, calling and locating by name reach the byte that follows
the definition.
-/

namespace SledeMachine

namespace Label

theorem addressOf_cons (l : Label) (labels : List Label) (name : Text) :
    addressOf (l :: labels) name =
      (addressOf labels name).or (if l.name = name then some l.address else none) := by
  simp only [addressOf]
  by_cases same : l.name = name
  · rw [List.filter_cons_of_pos (by simpa using same), List.getLast?_cons, if_pos same]
    cases (labels.filter fun l => l.name = name).getLast? <;> rfl
  · rw [List.filter_cons_of_neg (by simpa using same), if_neg same, Option.or_none]

end Label

namespace Layout

/-- The labels defined by lines that are placed from an address on. -/
def labelsFrom (lines : List Text) (number address : Nat) : List Label :=
  (place lines number address).filterMap Label.ofSourceLine?

theorem labelsFrom_cons (line : Text) (rest : List Text) (number address : Nat) :
    labelsFrom (line :: rest) number address =
      match LineKind.ofLine line with
      | .label name => ⟨name, number, address⟩ :: labelsFrom rest (number + 1) (address + size line)
      | _ => labelsFrom rest (number + 1) (address + size line) := by
  simp only [labelsFrom, place, List.filterMap_cons, Label.ofSourceLine?, SourceLine.kind]
  cases LineKind.ofLine line <;> rfl

theorem not_label_of_addressOf_eq_none {lines : List Text} {number address : Nat} {name : Text}
    (h : Label.addressOf (labelsFrom lines number address) name = none) :
    ∀ line ∈ lines, LineKind.ofLine line ≠ .label name := by
  induction lines generalizing number address with
  | nil => simp
  | cons first rest ih =>
      rw [labelsFrom_cons] at h
      intro line hline kind
      cases firstKind : LineKind.ofLine first with
      | label other =>
          simp only [firstKind, Label.addressOf_cons, Option.or_eq_none_iff] at h
          obtain rfl | hline := List.mem_cons.mp hline
          · rw [firstKind, LineKind.label.injEq] at kind
            simp [kind] at h
          · exact ih h.1 line hline kind
      | blank | comment | data | instruction =>
          simp only [firstKind] at h
          obtain rfl | hline := List.mem_cons.mp hline
          · rw [firstKind] at kind
            cases kind
          · exact ih h line hline kind

/-- A name that stands for an address has a last definition, and the address is what the lines
before it take. -/
theorem addressOf_labelsFrom {lines : List Text} {number address a : Nat} {name : Text}
    (h : Label.addressOf (labelsFrom lines number address) name = some a) :
    ∃ before after,
      lines = before ++ (name ++ [':']) :: after ∧
        LineKind.ofLine (name ++ [':']) = .label name ∧
        (∀ line ∈ after, LineKind.ofLine line ≠ .label name) ∧
        a = address + (before.map size).sum := by
  induction lines generalizing number address a with
  | nil => cases h
  | cons first rest ih =>
      -- A definition among the other lines is the last one whatever the first line is.
      have further {k : Nat}
          (h : Label.addressOf (labelsFrom rest (number + 1) (address + size first)) name =
            some k) :
          ∃ before after,
            first :: rest = before ++ (name ++ [':']) :: after ∧
              LineKind.ofLine (name ++ [':']) = .label name ∧
              (∀ line ∈ after, LineKind.ofLine line ≠ .label name) ∧
              k = address + (before.map size).sum := by
        obtain ⟨before, after, rfl, kind, last, rfl⟩ := ih h
        refine ⟨first :: before, after, rfl, kind, last, ?_⟩
        rw [List.map_cons, List.sum_cons, Nat.add_assoc]
      rw [labelsFrom_cons] at h
      cases firstKind : LineKind.ofLine first with
      | label other =>
          simp only [firstKind, Label.addressOf_cons] at h
          cases later :
              Label.addressOf (labelsFrom rest (number + 1) (address + size first)) name with
          | some k =>
              rw [later, Option.some_or, Option.some.injEq] at h
              subst h
              exact further later
          | none =>
              rw [later, Option.none_or, Option.ite_none_right_eq_some] at h
              obtain ⟨rfl, hAddress⟩ := h
              cases hAddress
              obtain ⟨rfl, -⟩ := LineKind.defines_of_label firstKind
              exact ⟨[], rest, rfl, firstKind, not_label_of_addressOf_eq_none later, rfl⟩
      | blank | comment | data | instruction =>
          simp only [firstKind] at h
          exact further h

/-- The bytes that a line of the source emits, given what names stand for. -/
def emitted (addressOf : Text → Option Nat) (line : Text) : List UInt8 :=
  match (LineKind.ofLine line).emits, (Statement.ofLine line).emission addressOf with
  | true, .ok e => e.bytes
  | _, _ => []

theorem emitted_of_not_emits {addressOf : Text → Option Nat} {line : Text}
    (h : (LineKind.ofLine line).emits = false) : emitted addressOf line = [] := by
  simp only [emitted, h]

theorem emitted_of_encode {addressOf : Text → Option Nat} {line : SourceLine} {bytes : List UInt8}
    (emits : line.kind.emits = true) (h : line.encode addressOf = .ok bytes) :
    emitted addressOf line.text = bytes := by
  obtain ⟨e, translated, rfl⟩ := SourceLine.encode_eq_ok_iff.mp h
  rw [SourceLine.kind] at emits
  rw [SourceLine.statement] at translated
  simp only [emitted, emits, translated]

/-- Line by line, what is emitted makes up the program and is as long as was reserved for it. -/
theorem emitted_of_encodings {addressOf : Text → Option Nat} {lines : List Text}
    {number address : Nat} {encodings : List (List UInt8)}
    (h : List.Forall₂ (fun line bytes => line.encode addressOf = .ok bytes)
      ((place lines number address).filter fun line => line.kind.emits) encodings) :
    encodings.flatten = lines.flatMap (emitted addressOf) ∧
      ∀ line ∈ lines, (emitted addressOf line).length = size line := by
  induction lines generalizing number address encodings with
  | nil =>
      cases h
      exact ⟨rfl, by simp⟩
  | cons line rest ih =>
      rw [place] at h
      cases emits : (LineKind.ofLine line).emits with
      | true =>
          rw [List.filter_cons_of_pos (by exact emits)] at h
          cases h with
          | cons encoded others =>
              obtain ⟨code, reserved⟩ := ih others
              have own := emitted_of_encode (by exact emits) encoded
              have length := SourceLine.length_encode encoded (by exact emits)
              simp only at own length
              refine ⟨?_, List.forall_mem_cons.mpr ⟨by rw [own, length], reserved⟩⟩
              rw [List.flatten_cons, List.flatMap_cons, own, code]
      | false =>
          rw [List.filter_cons_of_neg (by simpa [SourceLine.kind] using emits)] at h
          obtain ⟨code, reserved⟩ := ih h
          have own : emitted addressOf line = [] := emitted_of_not_emits emits
          refine ⟨?_, List.forall_mem_cons.mpr ⟨?_, reserved⟩⟩
          · rw [List.flatMap_cons, own, List.nil_append, code]
          · rw [own, size_of_not_emits emits, List.length_nil]

end Layout

namespace Instruction

theorem address_encode {i : Instruction} {n : Nat} (h : i.address? = some n) :
    i.encode.address = n % 4096 := by
  cases i with
  | locate | jump | branch | call =>
      cases h
      exact Word.address_ofNibbleAddress _ _
  | _ => cases h

end Instruction

/-- The opcodes that take an address. -/
def Mnemonic.addressing : List Mnemonic := [.jump, .branch, .call, .locate]

theorem Mnemonic.Emits.of_addressing {addressOf : Text → Option Nat} {m : Mnemonic}
    {args : List Text} {e : Emission} (h : m.Emits addressOf args e) (family : m ∈ addressing) :
    ∃ a n i, args = [a] ∧ Operand.address addressOf a = .ok n ∧ e = .instruction i ∧
      i.mnemonic = m ∧ i.address? = some n := by
  cases h with
  | locate address | jump address | branch address | call address =>
      exact ⟨_, _, _, rfl, address, rfl, rfl, rfl⟩
  | _ => simp [addressing] at family

namespace Machine
variable {machine : Machine} {i : Instruction}

theorem step_of_decode {input : Array UInt8} {next : Machine}
    (decoded : Instruction.decode machine.word = .ok i) (notHalt : i ≠ .halt)
    (executed : machine.execute input i = .ok next) : machine.step input = .running next := by
  have current : machine.current? = some i := by
    rw [current?, decoded, Except.toOption]
  simp only [step, current, executed]

/-- An address in an instruction is where the machine goes on, or what the pair of registers then
holds. -/
theorem step_of_address {n : Nat} (decoded : Instruction.decode machine.word = .ok i)
    (holds : i.address? = some n) (input : Array UInt8) :
    (i.mnemonic = .jump → ∃ next, machine.step input = .running next ∧ next.pc = n) ∧
      (i.mnemonic = .branch → machine.flag = true →
        ∃ next, machine.step input = .running next ∧ next.pc = n) ∧
      (i.mnemonic = .call → machine.calls.length < callLimit →
        ∃ next, machine.step input = .running next ∧ next.pc = n) ∧
      (i.mnemonic = .locate →
        ∃ next, machine.step input = .running next ∧ next.registers.address = n) := by
  have fits := Instruction.fitsWord_of_decode decoded n holds
  have onward {next : Machine} (executed : machine.execute input i = .ok next) :
      machine.step input = .running next :=
    step_of_decode decoded (by rintro rfl; cases holds) executed
  cases i with
  | jump =>
      cases holds
      refine ⟨fun _ => ⟨_, onward rfl, rfl⟩, nofun, nofun, nofun⟩
  | branch =>
      cases holds
      refine ⟨nofun, fun _ flag => ?_, nofun, nofun⟩
      have taken : machine.execute input (.branch n) = .ok { machine with pc := n } := by
        rw [execute, if_pos flag]
      exact ⟨_, onward taken, rfl⟩
  | call =>
      cases holds
      refine ⟨nofun, nofun, fun _ room => ?_, nofun⟩
      have called : machine.execute input (.call n) =
          .ok { machine with pc := n, calls := (machine.pc + 2) :: machine.calls } := by
        rw [execute, if_neg (Nat.not_le.mpr room)]
      exact ⟨_, onward called, rfl⟩
  | locate =>
      cases holds
      refine ⟨nofun, nofun, nofun, fun _ => ⟨_, onward rfl, ?_⟩⟩
      simp [Nat.mod_eq_of_lt fits]
  | _ => cases holds

end Machine

/-- What a loaded image leaves room for. -/
theorem Target.length_code_of_load {target : Target} {input : Array UInt8} {r : Run}
    (h : Run.load target.image input = .ok r) : target.code.length ≤ 4089 := by
  obtain ⟨-, small, -, -⟩ := Run.load_eq_ok_iff.mp h
  simp only [image, List.length_append, Image.length_tag, memorySize] at small
  omega

/-- A name is where the bytes after its last definition begin. -/
theorem label_reference_resolves {source : Text} {target : Target} {line : SourceLine}
    {m : Mnemonic} {operand : Text} (accepted : assemble source = .ok target)
    (listed : line ∈ (Layout.ofSource source).lines) (opcode : line.statement.opcode = m.name)
    (family : m ∈ Mnemonic.addressing) (argument : operand ∈ line.statement.args)
    (notLiteral : Literal.ofToken? operand = none) :
    let addressOf := (Layout.ofSource source).addressOf
    line.statement.args = [operand] ∧
      target.code = (Layout.sourceLines source).flatMap (Layout.emitted addressOf) ∧
      ∃ before after word,
        Layout.sourceLines source = before ++ (operand ++ [':']) :: after ∧
          LineKind.ofLine (operand ++ [':']) = .label operand ∧
          (∀ later ∈ after, LineKind.ofLine later ≠ .label operand) ∧
          line.encode addressOf = .ok word.bytes ∧
          let n := (before.flatMap (Layout.emitted addressOf)).length
          word.address = n % 4096 ∧
            ∀ (given : Array UInt8) (r : Run), Run.load target.image given = .ok r →
              n ≤ 4089 ∧
                ∀ (input : Array UInt8) (machine : Machine), machine.word = word →
                  (m = .jump → ∃ next, machine.step input = .running next ∧ next.pc = n) ∧
                    (m = .branch → machine.flag = true →
                      ∃ next, machine.step input = .running next ∧ next.pc = n) ∧
                    (m = .call → machine.calls.length < callLimit →
                      ∃ next, machine.step input = .running next ∧ next.pc = n) ∧
                    (m = .locate →
                      ∃ next, machine.step input = .running next ∧
                        next.registers.address = n) := by
  intro addressOf
  obtain ⟨encodings, encoded, rfl⟩ := assemble_eq_ok_iff.mp accepted
  obtain ⟨code, reserved⟩ := Layout.emitted_of_encodings encoded
  obtain ⟨bytes, own⟩ := Traversal.exists_of_mem encoded listed
  obtain ⟨e, translated, rfl⟩ := SourceLine.encode_eq_ok_iff.mp own
  obtain ⟨_, name, rule⟩ := Statement.emission_eq_ok_iff.mp translated
  obtain rfl := Mnemonic.name_inj.mp (opcode.symm.trans name)
  obtain ⟨a, _, i, args, resolved, rfl, rfl, holds⟩ := rule.of_addressing family
  obtain rfl : operand = a := by simpa [args] using argument
  obtain ⟨_, found, rfl⟩ := Operand.address_eq_ok_of_not_literal notLiteral resolved
  obtain ⟨before, after, lines, kind, last, rfl⟩ := Layout.addressOf_labelsFrom found
  have emitted :
      0 + (before.map Layout.size).sum = (before.flatMap (Layout.emitted addressOf)).length := by
    rw [List.length_flatMap, Nat.zero_add]
    refine congrArg List.sum (List.map_congr_left fun line hline => (reserved line ?_).symm)
    rw [lines]
    exact List.mem_append_left _ hline
  rw [emitted] at holds
  refine ⟨args, code, before, after, i.encode, lines, kind, last, own, ?_⟩
  have field := Instruction.address_encode holds
  rw [Nat.mod_mod] at field
  refine ⟨field, fun given r loaded => ?_⟩
  have short : (before.flatMap (Layout.emitted addressOf)).length ≤ 4089 := by
    have room : encodings.flatten.length ≤ 4089 := Target.length_code_of_load loaded
    rw [code, lines, List.flatMap_append, List.length_append] at room
    exact Nat.le_trans (Nat.le_add_right _ _) room
  refine ⟨short, fun input machine word => Machine.step_of_address ?_ ?_ input⟩
  · rw [word]
    exact Instruction.decode_encode rule.fitsWord
  · rw [holds, Nat.mod_eq_of_lt (Nat.lt_of_le_of_lt short (by decide))]

/-- Of two definitions, one before the use and one after it, the second counts: three bytes stand
before it, and there the loaded program goes on. -/
theorem label_reference_resolves_forward :
    let source := "a:\nHOPP a\n.DATA 7\na:\nNOPE".toList
    let target : Target :=
      ⟨[0x38, 0x00, 7, 0x0c, 0x00],
        ⟨[(0, ⟨1, 0, "HOPP a".toList⟩), (2, ⟨2, 2, ".DATA 7".toList⟩), (3, ⟨4, 3, "NOPE".toList⟩)],
          by decide⟩⟩
    let addressOf := (Layout.ofSource source).addressOf
    let line : SourceLine := ⟨1, 0, "HOPP a".toList⟩
    let operand := "a".toList
    let word : Word := .ofBytes 0x38 0x00
    let loaded : Run := ⟨.initial (.ofProgram target.code), #[], defaultMaxTicks, 0, .loaded⟩
    (assemble source = .ok target ∧ line ∈ (Layout.ofSource source).lines ∧
        line.statement.opcode = Mnemonic.jump.name ∧ operand ∈ line.statement.args ∧
        Literal.ofToken? operand = none) ∧
      line.encode addressOf = .ok word.bytes ∧ word.address = 3 ∧
      Run.load target.image #[] = .ok loaded ∧ loaded.machine.word = word ∧
      (∃ before after,
        Layout.sourceLines source = before ++ (operand ++ [':']) :: after ∧
          (∀ later ∈ after, LineKind.ofLine later ≠ .label operand) ∧
          (before.flatMap (Layout.emitted addressOf)).length = 3) ∧
      ∃ next, loaded.machine.step #[] = .running next ∧ next.pc = 3 := by
  intro source target addressOf line operand word loaded
  have accepted : assemble source = .ok target := by decide +kernel
  have listed : line ∈ (Layout.ofSource source).lines := by decide +kernel
  have opcode : line.statement.opcode = Mnemonic.jump.name := by decide +kernel
  have argument : operand ∈ line.statement.args := by decide +kernel
  have notLiteral : Literal.ofToken? operand = none := by decide +kernel
  have encoded : line.encode addressOf = .ok word.bytes := by decide +kernel
  have address : word.address = 3 := by decide
  have given : Run.load target.image #[] = .ok loaded := rfl
  have fetched : loaded.machine.word = word :=
    Machine.word_of_program (m := loaded.machine) rfl (by decide)
  obtain ⟨-, -, before, after, _, lines, -, last, encoded', field, reached⟩ :=
    label_reference_resolves accepted listed opcode (by decide) argument notLiteral
  obtain rfl := Word.bytes_inj (Except.ok.inj (encoded.symm.trans encoded'))
  obtain ⟨short, reached⟩ := reached #[] loaded given
  have three : (before.flatMap (Layout.emitted addressOf)).length = 3 := by
    rw [Nat.mod_eq_of_lt (Nat.lt_of_le_of_lt short (by decide))] at field
    exact field.symm.trans address
  obtain ⟨jumps, -⟩ := reached #[] loaded.machine fetched
  exact ⟨⟨accepted, listed, opcode, argument, notLiteral⟩, encoded, address, given, fetched,
    ⟨before, after, lines, last, three⟩, three ▸ jumps rfl⟩

end SledeMachine
