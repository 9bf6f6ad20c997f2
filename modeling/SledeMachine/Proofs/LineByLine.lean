import SledeMachine.Proofs.LabelReference

/-!
Assembly line by line. A line is encoded without regard to its number and its address, and a line
that is neither data nor an instruction is as good as one that is encoded as no bytes. So the code
is what all trimmed lines of the source emit, in a row, and an error is that of the first line that
cannot be encoded, numbered by the lines before it. What a name stands for can be read off the
trimmed lines as well, and lines are moved with the labels among them.
-/

namespace SledeMachine

namespace Layout

/-- The bytes that a line of the source is encoded as, none if it is no line that emits. -/
def encodeLine (addressOf : Text → Option Nat) (line : Text) :
    Except StatementError (List UInt8) :=
  if (LineKind.ofLine line).emits then
    ((Statement.ofLine line).emission addressOf).map Emission.bytes
  else .ok []

/-- The line can be encoded, if to no bytes. -/
def Encodable (addressOf : Text → Option Nat) (line : Text) : Prop :=
  ∃ bytes, encodeLine addressOf line = .ok bytes

section
variable {addressOf : Text → Option Nat} {line : Text}

theorem encodeLine_of_emits (h : (LineKind.ofLine line).emits = true) :
    encodeLine addressOf line = ((Statement.ofLine line).emission addressOf).map Emission.bytes :=
  if_pos h

theorem encodeLine_of_not_emits (h : (LineKind.ofLine line).emits = false) :
    encodeLine addressOf line = .ok [] :=
  if_neg (by simp [h])

theorem encodable_of_not_emits (h : (LineKind.ofLine line).emits = false) :
    Encodable addressOf line :=
  ⟨[], encodeLine_of_not_emits h⟩

theorem emitted_eq_encodeLine (addressOf : Text → Option Nat) (line : Text) :
    emitted addressOf line = (encodeLine addressOf line).toOption.getD [] := by
  cases emits : (LineKind.ofLine line).emits with
  | false =>
      rw [emitted_of_not_emits emits, encodeLine_of_not_emits emits]
      rfl
  | true =>
      rw [encodeLine_of_emits emits]
      simp only [emitted, emits]
      cases (Statement.ofLine line).emission addressOf <;> rfl

theorem emitted_of_encodeLine {bytes : List UInt8} (h : encodeLine addressOf line = .ok bytes) :
    emitted addressOf line = bytes := by
  rw [emitted_eq_encodeLine, h]
  rfl

end
end Layout

/-- Number and text of a line only go into its error. -/
theorem SourceLine.encode_eq_mapError {addressOf : Text → Option Nat} {line : SourceLine}
    (emits : line.kind.emits = true) :
    line.encode addressOf =
      (Layout.encodeLine addressOf line.text).mapError
        (AssemblyError.mk line.number line.text) := by
  rw [Layout.encodeLine_of_emits (show (LineKind.ofLine line.text).emits = true from emits), encode,
    statement]
  cases (Statement.ofLine line.text).emission addressOf <;> rfl

namespace Layout
variable {addressOf : Text → Option Nat}

theorem length_of_encodeLine {line : Text} {bytes : List UInt8}
    (h : encodeLine addressOf line = .ok bytes) : bytes.length = size line := by
  cases emits : (LineKind.ofLine line).emits with
  | false =>
      rw [encodeLine_of_not_emits emits, Except.ok.injEq] at h
      rw [← h, size_of_not_emits emits, List.length_nil]
  | true =>
      let placed : SourceLine := ⟨0, 0, line⟩
      have encoded : placed.encode addressOf = .ok bytes := by
        rw [SourceLine.encode_eq_mapError (by exact emits), h]
        rfl
      exact SourceLine.length_encode encoded (by exact emits)

/-- Lines that can all be encoded fill what is reserved for them. -/
theorem length_flatMap_emitted {lines : List Text}
    (fine : ∀ line ∈ lines, Encodable addressOf line) :
    (lines.flatMap (emitted addressOf)).length = (lines.map size).sum := by
  rw [List.length_flatMap]
  refine congrArg List.sum (List.map_congr_left fun line listed => ?_)
  obtain ⟨bytes, encoded⟩ := fine line listed
  rw [emitted_of_encodeLine encoded, length_of_encodeLine encoded]

/-- The error of lines that are numbered from a number on: that of the first line that cannot be
encoded. -/
def FailsFrom (addressOf : Text → Option Nat) (number : Nat) (lines : List Text)
    (e : AssemblyError) : Prop :=
  ∃ before after, lines = before ++ e.text :: after ∧ number + before.length = e.line ∧
    (∀ line ∈ before, Encodable addressOf line) ∧ encodeLine addressOf e.text = .error e.cause

theorem failsFrom_cons {number : Nat} {line : Text} {rest : List Text} {e : AssemblyError} :
    FailsFrom addressOf number (line :: rest) e ↔
      (number = e.line ∧ line = e.text ∧ encodeLine addressOf line = .error e.cause) ∨
        Encodable addressOf line ∧ FailsFrom addressOf (number + 1) rest e := by
  constructor
  · rintro ⟨before, after, split, count, fine, fails⟩
    cases before with
    | nil =>
        cases split
        exact .inl ⟨count, rfl, fails⟩
    | cons first before =>
        cases split
        obtain ⟨own, fine⟩ := List.forall_mem_cons.mp fine
        rw [List.length_cons] at count
        exact .inr ⟨own, before, after, rfl, by omega, fine, fails⟩
  · rintro (⟨count, rfl, fails⟩ | ⟨own, before, after, rfl, count, fine, fails⟩)
    · exact ⟨[], rest, rfl, count, nofun, fails⟩
    · refine ⟨line :: before, after, rfl, ?_, List.forall_mem_cons.mpr ⟨own, fine⟩, fails⟩
      rw [List.length_cons]
      omega

theorem not_failsFrom_nil {number : Nat} {e : AssemblyError} :
    ¬ FailsFrom addressOf number [] e := by
  rintro ⟨before, after, split, -⟩
  simp at split

theorem failsFrom_append {number : Nat} {front back : List Text} {e : AssemblyError} :
    FailsFrom addressOf number (front ++ back) e ↔
      FailsFrom addressOf number front e ∨
        (∀ line ∈ front, Encodable addressOf line) ∧
          FailsFrom addressOf (number + front.length) back e := by
  induction front generalizing number with
  | nil => simp [not_failsFrom_nil]
  | cons line rest ih =>
      rw [List.cons_append, failsFrom_cons, ih, failsFrom_cons, List.forall_mem_cons,
        List.length_cons, Nat.add_right_comm number 1, Nat.add_assoc number]
      tauto

theorem FailsFrom.line_bounds {number : Nat} {lines : List Text} {e : AssemblyError}
    (h : FailsFrom addressOf number lines e) :
    number ≤ e.line ∧ e.line < number + lines.length := by
  obtain ⟨before, after, rfl, count, -⟩ := h
  rw [List.length_append, List.length_cons]
  omega

/-- Where the numbers begin only counts for the number of the line. -/
theorem FailsFrom.renumber {number : Nat} {lines : List Text} {e : AssemblyError}
    (h : FailsFrom addressOf number lines e) (number' : Nat) :
    FailsFrom addressOf number' lines ⟨e.line - number + number', e.text, e.cause⟩ := by
  obtain ⟨before, after, split, count, fine, fails⟩ := h
  refine ⟨before, after, split, ?_, fine, fails⟩
  simp only
  omega

theorem FailsFrom.not_encodable {number : Nat} {lines : List Text} {e : AssemblyError}
    (h : FailsFrom addressOf number lines e) : ∃ line ∈ lines, ¬ Encodable addressOf line := by
  obtain ⟨before, after, rfl, -, -, fails⟩ := h
  refine ⟨e.text, by simp, ?_⟩
  rintro ⟨bytes, fine⟩
  rw [fails] at fine
  cases fine

theorem encodable_or_failsFrom (addressOf : Text → Option Nat) (number : Nat)
    (lines : List Text) :
    (∀ line ∈ lines, Encodable addressOf line) ∨ ∃ e, FailsFrom addressOf number lines e := by
  induction lines generalizing number with
  | nil => exact .inl nofun
  | cons line rest ih =>
      cases own : encodeLine addressOf line with
      | error cause =>
          exact .inr ⟨⟨number, line, cause⟩, failsFrom_cons.mpr (.inl ⟨rfl, rfl, own⟩)⟩
      | ok bytes =>
          obtain others | ⟨e, later⟩ := ih (number + 1)
          · exact .inl (List.forall_mem_cons.mpr ⟨⟨bytes, own⟩, others⟩)
          · exact .inr ⟨e, failsFrom_cons.mpr (.inr ⟨⟨bytes, own⟩, later⟩)⟩

/-- Lines that emit nothing are passed over without an error. -/
theorem mapM_encode_eq_error_iff (lines : List Text) (number address : Nat) {e : AssemblyError} :
    ((place lines number address).filter fun line => line.kind.emits).mapM
        (fun line => line.encode addressOf) = .error e ↔ FailsFrom addressOf number lines e := by
  induction lines generalizing number address with
  | nil => simp [place, FailsFrom, pure, Except.pure]
  | cons line rest ih =>
      rw [failsFrom_cons, ← ih (number + 1) (address + size line), place]
      cases emits : (LineKind.ofLine line).emits with
      | false =>
          rw [List.filter_cons_of_neg (by simpa [SourceLine.kind] using emits),
            encodeLine_of_not_emits emits]
          simp [encodable_of_not_emits emits]
      | true =>
          rw [List.filter_cons_of_pos (by exact emits), List.mapM_cons,
            Traversal.bind_eq_error_iff, SourceLine.encode_eq_mapError (by exact emits)]
          simp only [Encodable]
          cases encodeLine addressOf line with
          | error cause => cases e; simp [Except.mapError]
          | ok bytes => simp [Except.mapError, Traversal.bind_eq_error_iff, pure, Except.pure]

/-- The address a name stands for among lines whose bytes begin at an address. -/
def addressIn : List Text → Nat → Text → Option Nat
  | [], _, _ => none
  | line :: rest, address, name =>
      (addressIn rest (address + size line) name).or
        (if LineKind.ofLine line = .label name then some address else none)

theorem addressOf_labelsFrom_eq (lines : List Text) (number address : Nat) (name : Text) :
    Label.addressOf (labelsFrom lines number address) name = addressIn lines address name := by
  induction lines generalizing number address with
  | nil => rfl
  | cons line rest ih =>
      rw [labelsFrom_cons, addressIn]
      cases LineKind.ofLine line with
      | label other => simp only [Label.addressOf_cons, ih, LineKind.label.injEq]
      | blank | comment | data | instruction => simp [ih]

theorem addressOf_ofSource (source : Text) :
    (ofSource source).addressOf = addressIn (sourceLines source) 0 :=
  funext fun name => addressOf_labelsFrom_eq (sourceLines source) 0 0 name

theorem addressIn_append (front back : List Text) (address : Nat) (name : Text) :
    addressIn (front ++ back) address name =
      (addressIn back (address + (front.map size).sum) name).or (addressIn front address name) := by
  induction front generalizing address with
  | nil => simp [addressIn]
  | cons line rest ih =>
      rw [List.cons_append, addressIn, addressIn, ih, Option.or_assoc, List.map_cons,
        List.sum_cons, Nat.add_assoc]

theorem addressIn_add (lines : List Text) (address distance : Nat) (name : Text) :
    addressIn lines (address + distance) name =
      (addressIn lines address name).map (· + distance) := by
  induction lines generalizing address with
  | nil => rfl
  | cons line rest ih =>
      rw [addressIn, addressIn, Nat.add_right_comm, ih, Option.map_or]
      split <;> rfl

end Layout

/-- Assembly fails with the first line that cannot be encoded. -/
theorem assemble_eq_error_iff {source : Text} {e : AssemblyError} :
    assemble source = .error e ↔
      Layout.FailsFrom (Layout.ofSource source).addressOf 0 (Layout.sourceLines source) e := by
  simp only [assemble, Traversal.bind_eq_error_iff]
  rw [← Layout.mapM_encode_eq_error_iff _ 0 0]
  simp [pure, Except.pure, Layout.ofSource]

/-- Assembly succeeds if every line can be encoded. -/
theorem exists_assemble_iff {source : Text} :
    (∃ target, assemble source = .ok target) ↔
      ∀ line ∈ Layout.sourceLines source,
        Layout.Encodable (Layout.ofSource source).addressOf line := by
  constructor
  · rintro ⟨target, accepted⟩
    obtain all | ⟨e, fails⟩ := Layout.encodable_or_failsFrom (Layout.ofSource source).addressOf 0
      (Layout.sourceLines source)
    · exact all
    · rw [assemble_eq_error_iff.mpr fails] at accepted
      cases accepted
  · intro all
    cases given : assemble source with
    | ok target => exact ⟨target, rfl⟩
    | error e =>
        obtain ⟨line, listed, stuck⟩ := (assemble_eq_error_iff.mp given).not_encodable
        exact absurd (all line listed) stuck

/-- The code is what the lines emit, in order. -/
theorem code_of_assemble {source : Text} {target : Target} (h : assemble source = .ok target) :
    target.code = (Layout.sourceLines source).flatMap
      (Layout.emitted (Layout.ofSource source).addressOf) := by
  obtain ⟨encodings, encoded, rfl⟩ := assemble_eq_ok_iff.mp h
  exact (Layout.emitted_of_encodings encoded).1

end SledeMachine
