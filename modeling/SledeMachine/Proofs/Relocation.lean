import SledeMachine.Proofs.LineByLine

/-!
Relocation. A source that ends with its last line may be put before another one. If no name is
defined in both, each name keeps its place among the lines of its own source: what the first source
emits stays as it is, and the second is moved up by the bytes of the first. Moving it changes the
instructions that refer to a label and of these only the address.
-/

namespace SledeMachine

/-- Every name in one table stands in another for an address that is moved up by a distance. -/
def Label.Moved (distance : Nat) (addressOf moved : Text → Option Nat) : Prop :=
  ∀ name a, addressOf name = some a → moved name = some (a + distance)

/-- How far the address in an instruction with some operands is moved: a literal stays. -/
def Operand.displacement (distance : Nat) (args : List Text) : Nat :=
  if ∃ operand ∈ args, Literal.ofToken? operand = none then distance else 0

namespace Instruction

/-- The instruction with any address in it moved up by a distance. -/
def moveBy (distance : Nat) : Instruction → Instruction
  | .locate n => .locate ((n + distance) % 4096)
  | .jump n => .jump ((n + distance) % 4096)
  | .branch n => .branch ((n + distance) % 4096)
  | .call n => .call ((n + distance) % 4096)
  | i => i

theorem opClass_moveBy (distance : Nat) (i : Instruction) :
    (i.moveBy distance).opClass = i.opClass := by
  cases i <;> rfl

theorem address?_moveBy (distance : Nat) (i : Instruction) :
    (i.moveBy distance).address? = i.address?.map fun n => (n + distance) % 4096 := by
  cases i <;> rfl

theorem moveBy_zero {i : Instruction} (fits : i.FitsWord) : i.moveBy 0 = i := by
  cases i with
  | locate n | jump n | branch n | call n =>
      rw [moveBy, Nat.add_zero, Nat.mod_eq_of_lt (fits n rfl)]
  | _ => rfl

end Instruction

namespace Emission

def moveBy (distance : Nat) : Emission → Emission
  | .instruction i => .instruction (i.moveBy distance)
  | .data values => .data values

end Emission

section
variable {distance : Nat} {addressOf moved : Text → Option Nat}

theorem Operand.address_moved (moves : Label.Moved distance addressOf moved) {token : Text}
    {n : Nat} (found : address addressOf token = .ok n) :
    address moved token = .ok ((n + displacement distance [token]) % 4096) := by
  cases literal : Literal.ofToken? token with
  | some value =>
      have short := address_lt found
      rw [address_of_literal literal] at found ⊢
      cases found
      simp [displacement, literal, Nat.mod_eq_of_lt short]
  | none =>
      obtain ⟨a, known, rfl⟩ := address_eq_ok_of_not_literal literal found
      simp [address, displacement, literal, moves token a known]

namespace Mnemonic.Emits
variable {m : Mnemonic} {args : List Text} {e : Emission}

theorem moveBy (moves : Label.Moved distance addressOf moved) (h : m.Emits addressOf args e) :
    m.Emits moved args (e.moveBy (Operand.displacement distance args)) := by
  cases h with
  | halt => exact .halt
  | set target literal => exact .set target literal
  | copy target notLiteral source => exact .copy target notLiteral source
  | locate address => exact .locate (Operand.address_moved moves address)
  | load target => exact .load target
  | store source => exact .store source
  | alu left right => exact .alu left right
  | read target => exact .read target
  | write source => exact .write source
  | compare left right => exact .compare left right
  | jump address => exact .jump (Operand.address_moved moves address)
  | branch address => exact .branch (Operand.address_moved moves address)
  | call address => exact .call (Operand.address_moved moves address)
  | ret => exact .ret
  | nop => exact .nop
  | data bytes => exact .data bytes

/-- What is not moved at all or has no address stays the same. -/
theorem moveBy_eq_self {k : Nat} (h : m.Emits addressOf args e)
    (stays : m ∈ addressing → k = 0) : e.moveBy k = e := by
  by_cases family : m ∈ addressing
  · obtain ⟨_, n, i, -, -, rfl, -, -⟩ := h.of_addressing family
    rw [stays family, Emission.moveBy, Instruction.moveBy_zero h.fitsWord]
  · cases h with
    | locate | jump | branch | call => simp [addressing] at family
    | _ => rfl

end Mnemonic.Emits

namespace Layout
variable {line : Text} {bytes : List UInt8}

/-- A line that names a label as an address. -/
def RefersToLabel (line : Text) : Prop :=
  (LineKind.ofLine line).emits = true ∧
    (∃ m ∈ Mnemonic.addressing, (Statement.ofLine line).opcode = m.name) ∧
    ∃ operand ∈ (Statement.ofLine line).args, Literal.ofToken? operand = none

theorem encodeLine_of_stays (moves : Label.Moved distance addressOf moved)
    (stays : RefersToLabel line → distance = 0) (h : encodeLine addressOf line = .ok bytes) :
    encodeLine moved line = .ok bytes := by
  cases emits : (LineKind.ofLine line).emits with
  | false =>
      rw [encodeLine_of_not_emits emits] at h ⊢
      exact h
  | true =>
      rw [encodeLine_of_emits emits, Traversal.map_eq_ok_iff] at h ⊢
      obtain ⟨e, translated, rfl⟩ := h
      obtain ⟨m, opcode, rule⟩ := Statement.emission_eq_ok_iff.mp translated
      -- Only an operand that names a label moves an address, and such a line refers to it.
      have still : m ∈ Mnemonic.addressing →
          Operand.displacement distance (Statement.ofLine line).args = 0 := by
        intro family
        rw [Operand.displacement]
        split
        · rename_i named
          exact stays ⟨emits, ⟨m, family, opcode⟩, named⟩
        · rfl
      have after := rule.moveBy moves
      rw [rule.moveBy_eq_self still] at after
      exact ⟨e, Statement.emission_eq_ok_iff.mpr ⟨m, opcode, after⟩, rfl⟩

theorem encodeLine_of_refers (moves : Label.Moved distance addressOf moved)
    (refers : RefersToLabel line) (h : encodeLine addressOf line = .ok bytes) :
    ∃ v w : Word, bytes = v.bytes ∧ encodeLine moved line = .ok w.bytes ∧
      w.classCode = v.classCode ∧ w.address = (v.address + distance) % 4096 := by
  obtain ⟨emits, ⟨m, family, opcode⟩, named⟩ := refers
  rw [encodeLine_of_emits emits, Traversal.map_eq_ok_iff] at h
  obtain ⟨e, translated, rfl⟩ := h
  obtain ⟨_, name, rule⟩ := Statement.emission_eq_ok_iff.mp translated
  obtain rfl := Mnemonic.name_inj.mp (opcode.symm.trans name)
  have after := rule.moveBy moves
  rw [Operand.displacement, if_pos named] at after
  obtain ⟨_, n, i, -, -, rfl, -, holds⟩ := rule.of_addressing family
  have movedTo : (i.moveBy distance).address? = some ((n + distance) % 4096) := by
    rw [Instruction.address?_moveBy, holds, Option.map_some]
  refine ⟨i.encode, (i.moveBy distance).encode, rfl, ?_, ?_, ?_⟩
  · rw [encodeLine_of_emits emits, Statement.emission_eq_ok_iff.mpr ⟨m, opcode, after⟩]
    rfl
  · rw [Instruction.classCode_encode, Instruction.classCode_encode, Instruction.opClass_moveBy]
  · rw [Instruction.address_encode movedTo, Instruction.address_encode holds, Nat.mod_mod,
      Nat.mod_add_mod]

section
variable (moves : Label.Moved distance addressOf moved) (fine : Encodable addressOf line)
include moves fine

theorem encodable_of_moved : Encodable moved line := by
  obtain ⟨bytes, encoded⟩ := fine
  by_cases refers : RefersToLabel line
  · obtain ⟨_, w, -, after, -⟩ := encodeLine_of_refers moves refers encoded
    exact ⟨w.bytes, after⟩
  · exact ⟨bytes, encodeLine_of_stays moves (absurd · refers) encoded⟩

theorem emitted_of_stays (stays : RefersToLabel line → distance = 0) :
    emitted moved line = emitted addressOf line := by
  obtain ⟨bytes, encoded⟩ := fine
  rw [emitted_of_encodeLine encoded,
    emitted_of_encodeLine (encodeLine_of_stays moves stays encoded)]

theorem emitted_of_refers (refers : RefersToLabel line) :
    ∃ v w : Word, emitted addressOf line = v.bytes ∧ emitted moved line = w.bytes ∧
      w.classCode = v.classCode ∧ w.address = (v.address + distance) % 4096 := by
  obtain ⟨bytes, encoded⟩ := fine
  obtain ⟨v, w, rfl, after, fields⟩ := encodeLine_of_refers moves refers encoded
  exact ⟨v, w, emitted_of_encodeLine encoded, emitted_of_encodeLine after, fields⟩

end
end Layout
end

namespace Layout

theorem mem_labelNames_iff {layout : Layout} {name : Text} :
    name ∈ layout.labelNames ↔ ∃ a, layout.addressOf name = some a := by
  rw [labelNames, List.mem_eraseDups, addressOf, Label.addressOf, ← Option.isSome_iff_exists,
    Option.isSome_map, List.getLast?_isSome]
  simp [List.filter_eq_nil_iff]

/-- After a last line feed there is one more line, which is empty, until something follows. -/
theorem sourceLines_of_ended {a : Text} (ended : a = [] ∨ a.getLast? = some '\n') :
    ∃ lines, sourceLines a = lines ++ [[]] ∧
      ∀ b, sourceLines (a ++ b) = lines ++ sourceLines b := by
  obtain rfl | ended := ended
  · exact ⟨[], rfl, fun b => rfl⟩
  · obtain ⟨text, rfl⟩ := List.getLast?_eq_some_iff.mp ended
    refine ⟨sourceLines text, sourceLines_append_cons text [], fun b => ?_⟩
    rw [List.append_assoc, List.singleton_append, sourceLines_append_cons]

section
variable {a : Text} (ended : a = [] ∨ a.getLast? = some '\n') (b : Text)
include ended

/-- A name defined in the second source stands for its address there, moved up by what is reserved
for the first. -/
theorem addressOf_append (name : Text) :
    (ofSource (a ++ b)).addressOf name =
      (((ofSource b).addressOf name).map (· + ((sourceLines a).map size).sum)).or
        ((ofSource a).addressOf name) := by
  obtain ⟨leading, own, follow⟩ := sourceLines_of_ended ended
  have front : (ofSource a).addressOf name = addressIn leading 0 name := by
    rw [addressOf_ofSource, own, addressIn_append]
    rfl
  have reserved : ((sourceLines a).map size).sum = (leading.map size).sum := by
    rw [own, List.map_append, List.sum_append]
    rfl
  rw [front, reserved, addressOf_ofSource, addressOf_ofSource, follow, addressIn_append,
    addressIn_add]

theorem moved_append_right :
    Label.Moved ((sourceLines a).map size).sum (ofSource b).addressOf
      (ofSource (a ++ b)).addressOf := by
  intro name k known
  rw [addressOf_append ended, known, Option.map_some, Option.some_or]

theorem moved_append_left
    (disjoint : ∀ name ∈ (ofSource a).labelNames, name ∉ (ofSource b).labelNames) :
    Label.Moved 0 (ofSource a).addressOf (ofSource (a ++ b)).addressOf := by
  intro name k known
  have other : (ofSource b).addressOf name = none := by
    have elsewhere := disjoint name (mem_labelNames_iff.mpr ⟨k, known⟩)
    rw [mem_labelNames_iff] at elsewhere
    exact Option.eq_none_iff_forall_ne_some.mpr (not_exists.mp elsewhere)
  rw [addressOf_append ended, other, Option.map_none, Option.none_or, known, Nat.add_zero]

end
end Layout

/-- A source with other labels is assembled behind a source as it is on its own, moved up by the
code in front of it. -/
theorem assemble_append {a b : Text} {first second : Target}
    (ended : a = [] ∨ a.getLast? = some '\n') (front : assemble a = .ok first)
    (back : assemble b = .ok second)
    (disjoint : ∀ name ∈ (Layout.ofSource a).labelNames, name ∉ (Layout.ofSource b).labelNames) :
    let alone := (Layout.ofSource b).addressOf
    let joined := (Layout.ofSource (a ++ b)).addressOf
    let lines := Layout.sourceLines b
    ∃ target, assemble (a ++ b) = .ok target ∧
      second.code = lines.flatMap (Layout.emitted alone) ∧
      target.code = first.code ++ lines.flatMap (Layout.emitted joined) ∧
      ∀ line ∈ lines,
        (¬ Layout.RefersToLabel line →
          Layout.emitted joined line = Layout.emitted alone line) ∧
        (Layout.RefersToLabel line →
          ∃ v w : Word, Layout.emitted alone line = v.bytes ∧
            Layout.emitted joined line = w.bytes ∧ w.classCode = v.classCode ∧
            w.address = (v.address + first.code.length) % 4096) := by
  intro alone joined lines
  have fineFirst := exists_assemble_iff.mp ⟨first, front⟩
  have fineSecond := exists_assemble_iff.mp ⟨second, back⟩
  have movesFirst := Layout.moved_append_left ended b disjoint
  have movesSecond : Label.Moved first.code.length alone joined := by
    rw [code_of_assemble front, Layout.length_flatMap_emitted fineFirst]
    exact Layout.moved_append_right ended b
  obtain ⟨leading, own, follow⟩ := Layout.sourceLines_of_ended ended
  have led {line : Text} (listed : line ∈ leading) :
      Layout.Encodable (Layout.ofSource a).addressOf line := by
    refine fineFirst line ?_
    rw [own]
    exact List.mem_append_left _ listed
  -- The empty line after the last line feed of the first source emits nothing.
  have leadingCode : first.code = leading.flatMap (Layout.emitted joined) := by
    rw [code_of_assemble front, own, List.flatMap_append, List.flatMap_singleton,
      Layout.emitted_of_not_emits rfl, List.append_nil]
    refine (List.flatMap_congr fun line listed => ?_).symm
    exact Layout.emitted_of_stays movesFirst (led listed) fun _ => rfl
  have accepted : ∃ target, assemble (a ++ b) = .ok target := by
    rw [exists_assemble_iff, follow, List.forall_mem_append]
    exact ⟨fun line listed => Layout.encodable_of_moved movesFirst (led listed),
      fun line listed => Layout.encodable_of_moved movesSecond (fineSecond line listed)⟩
  obtain ⟨target, assembled⟩ := accepted
  refine ⟨target, assembled, code_of_assemble back, ?_, fun line listed => ⟨fun stays => ?_, ?_⟩⟩
  · rw [code_of_assemble assembled, follow, List.flatMap_append, leadingCode]
  · exact Layout.emitted_of_stays movesSecond (fineSecond line listed) (absurd · stays)
  · exact Layout.emitted_of_refers movesSecond (fineSecond line listed)

/-- A jump to a label and one to a number: the first is moved, the second is not. -/
theorem assemble_append_moved :
    let a := "a:\nTUR a\n.DATA 7\n".toList
    let b := "HOPP b\nb:\nHOPP 2".toList
    let first : Target :=
      ⟨[0x0a, 0x00, 7], ⟨[(0, ⟨1, 0, "TUR a".toList⟩), (2, ⟨2, 2, ".DATA 7".toList⟩)], by decide⟩⟩
    let second : Target :=
      ⟨[0x28, 0x00, 0x28, 0x00],
        ⟨[(0, ⟨0, 0, "HOPP b".toList⟩), (2, ⟨2, 2, "HOPP 2".toList⟩)], by decide⟩⟩
    (a = [] ∨ a.getLast? = some '\n') ∧ assemble a = .ok first ∧ assemble b = .ok second ∧
      (∀ name ∈ (Layout.ofSource a).labelNames, name ∉ (Layout.ofSource b).labelNames) ∧
      ∃ target, assemble (a ++ b) = .ok target ∧
        target.code = [0x0a, 0x00, 7, 0x58, 0x00, 0x28, 0x00] := by
  intro a b first second
  have ended : a = [] ∨ a.getLast? = some '\n' := by decide
  have front : assemble a = .ok first := by decide +kernel
  have back : assemble b = .ok second := by decide +kernel
  have disjoint :
      ∀ name ∈ (Layout.ofSource a).labelNames, name ∉ (Layout.ofSource b).labelNames := by
    decide +kernel
  obtain ⟨target, accepted, -, code, -⟩ := assemble_append ended front back disjoint
  refine ⟨ended, front, back, disjoint, target, accepted, ?_⟩
  rw [code]
  decide +kernel

end SledeMachine
