import Mathlib.Data.List.DropRight
import SledeMachine.Proofs.LineByLine
import SledeMachine.Proofs.NormalForm

/-!
Edits that leave the program as it is. Blank lines and comments, white space at the ends of a line
and a comment behind a line count for nothing: neither the kind of a line nor its statement depends
on them, and lines that are neither labels nor emit bytes have no effect on the lines around them.
-/

namespace SledeMachine

namespace Text

theorem trim_append {left right : Text} (leftBlank : Blank left) (rightBlank : Blank right)
    (t : Text) : trim (left ++ t ++ right) = trim t := by
  rw [trim, List.append_assoc, List.dropWhile_append_of_pos leftBlank, List.dropWhile_append, trim]
  split
  · rename_i gone
    rw [List.isEmpty_iff.mp gone, List.dropWhile_eq_nil_iff.mpr rightBlank]
  · rw [List.reverse_append, List.dropWhile_append_of_pos (by simpa [Blank] using rightBlank)]

/-- White space is taken off at the end, and none is left to take there if the rest is blank. -/
theorem exists_trim_append (t : Text) :
    ∃ right, Blank right ∧ (trim t = [] → right = []) ∧ t.dropWhile isBlank = trim t ++ right := by
  let right := ((t.dropWhile isBlank).reverse.takeWhile isBlank).reverse
  have blank : Blank right := fun c hc => List.mem_takeWhile_imp (List.mem_reverse.mp hc)
  have whole : t.dropWhile isBlank = trim t ++ right := by
    rw [trim, ← List.reverse_append, List.takeWhile_append_dropWhile, List.reverse_reverse]
  refine ⟨right, blank, fun empty => ?_, whole⟩
  rw [empty, List.nil_append] at whole
  rw [← List.dropWhile_eq_nil_iff.mpr blank, ← whole, List.dropWhile_idempotent]

theorem exists_trim_append_cons {c : Char} (mark : isBlank c = false) (t rest : Text) :
    ∃ rest', trim (t ++ c :: rest) = t.dropWhile isBlank ++ c :: rest' := by
  refine ⟨(rest.reverse.dropWhile isBlank).reverse, ?_⟩
  rw [trim, dropWhile_append_cons mark, List.reverse_append, List.reverse_cons, List.append_assoc,
    List.singleton_append, dropWhile_append_cons mark, List.reverse_append, List.reverse_cons,
    List.reverse_reverse, List.append_assoc, List.singleton_append]

end Text

theorem LineKind.ofLine?_eq_none {line : Text} (filled : line ≠ [])
    (notComment : line.head? ≠ some ';') (notLabel : ∀ name, ofLine line ≠ .label name) :
    Label.ofLine? line = none := by
  cases found : Label.ofLine? line with
  | none => rfl
  | some name =>
      have kind : ofLine line = .label name := by
        simp only [ofLine, if_neg filled, if_neg notComment, found]
      exact absurd kind (notLabel name)

theorem Label.ofLine?_eq_none_of_semicolon {line : Text} (h : ';' ∈ line) :
    ofLine? line = none := by
  cases found : ofLine? line with
  | none => rfl
  | some name =>
      obtain ⟨rfl, -, chars⟩ := ofLine?_eq_some_iff.mp found
      have inName : ';' ∈ name := by simpa using h
      exact absurd (chars ';' inName) (by decide)

namespace Layout

/-- Lines that reserve and emit the same, and are labels of the same name if they are labels. -/
structure Alike (line line' : Text) : Prop where
  size : size line = size line'
  label : ∀ name, LineKind.ofLine line = .label name ↔ LineKind.ofLine line' = .label name
  code : ∀ addressOf, encodeLine addressOf line = encodeLine addressOf line'

/-- A line that is only there for the reader. -/
def Idle (line : Text) : Prop :=
  LineKind.ofLine line = .blank ∨ LineKind.ofLine line = .comment

theorem Idle.not_emits {line : Text} (idle : Idle line) :
    (LineKind.ofLine line).emits = false := by
  obtain kind | kind := idle <;> rw [kind] <;> rfl

namespace Alike
variable {line line' : Text}

theorem refl (line : Text) : Alike line line := ⟨rfl, fun _ => .rfl, fun _ => rfl⟩

theorem of_statement (kind : LineKind.ofLine line = LineKind.ofLine line')
    (statement : Statement.ofLine line = Statement.ofLine line') : Alike line line' := by
  refine ⟨?_, fun name => by rw [kind], fun addressOf => ?_⟩
  · simp only [Layout.size, kind, statement]
  · simp only [encodeLine, kind, statement]

theorem of_idle (idle : Idle line) (idle' : Idle line') : Alike line line' := by
  have nameless {line : Text} (idle : Idle line) (name : Text) :
      LineKind.ofLine line ≠ .label name := by
    obtain kind | kind := idle <;> rw [kind] <;> nofun
  refine ⟨?_, fun name => ?_, fun addressOf => ?_⟩
  · rw [size_of_not_emits idle.not_emits, size_of_not_emits idle'.not_emits]
  · exact iff_of_false (nameless idle name) (nameless idle' name)
  · rw [encodeLine_of_not_emits idle.not_emits, encodeLine_of_not_emits idle'.not_emits]

end Alike

/-- A comment makes a comment of a blank line and leaves any other line as it is. -/
theorem alike_comment {line : Text}
    (notLabel : ∀ name, LineKind.ofLine (Text.trim line) ≠ .label name) (comment : Text) :
    Alike (Text.trim line) (Text.trim (line ++ ';' :: comment)) := by
  obtain ⟨rest, longer⟩ := Text.exists_trim_append_cons (c := ';') (by decide) line comment
  obtain ⟨right, blank, close, whole⟩ := Text.exists_trim_append line
  rw [longer, whole]
  have statement : Statement.ofLine (Text.trim line) =
      Statement.ofLine (Text.trim line ++ right ++ ';' :: rest) := by
    rw [Statement.ofLine_append_comment, Statement.ofLine_append_blank blank]
  cases trimmed : Text.trim line with
  | nil =>
      rw [close trimmed]
      exact .of_idle (.inl rfl) (.inr rfl)
  | cons c core =>
      rw [trimmed] at statement notLabel
      refine .of_statement ?_ statement
      by_cases mark : c = ';'
      · simp [LineKind.ofLine, mark]
      · have own : Label.ofLine? (c :: core) = none :=
          LineKind.ofLine?_eq_none (List.cons_ne_nil _ _) (by simpa using mark) notLabel
        have marked : Label.ofLine? (c :: core ++ right ++ ';' :: rest) = none :=
          Label.ofLine?_eq_none_of_semicolon (by simp)
        rw [LineKind.ofLine_of_statement (by simp) (by simpa using mark) own,
          LineKind.ofLine_of_statement (by simp) (by simpa using mark) marked, statement]

/-- Lines that stand for one another wherever they are in a source. -/
structure Interchangeable (old new : List Text) : Prop where
  reserved : (old.map size).sum = (new.map size).sum
  labels : ∀ address name, addressIn old address name = addressIn new address name
  code : ∀ addressOf, old.flatMap (emitted addressOf) = new.flatMap (emitted addressOf)
  encodable : ∀ addressOf,
    (∀ line ∈ old, Encodable addressOf line) ↔ ∀ line ∈ new, Encodable addressOf line

theorem Alike.emitted {line line' : Text} (h : Alike line line') (addressOf : Text → Option Nat) :
    Layout.emitted addressOf line = Layout.emitted addressOf line' := by
  rw [emitted_eq_encodeLine, emitted_eq_encodeLine, h.code]

theorem Alike.interchangeable {line line' : Text} (h : Alike line line') :
    Interchangeable [line] [line'] where
  reserved := by simp [h.size]
  labels address name := by simp only [addressIn, h.label]
  code addressOf := by simp [h.emitted]
  encodable addressOf := by simp only [List.forall_mem_singleton, Encodable, h.code]

theorem Alike.failsFrom {line line' : Text} (h : Alike line line')
    {addressOf : Text → Option Nat} {number : Nat} {e : AssemblyError}
    (fails : FailsFrom addressOf number [line] e) :
    FailsFrom addressOf number [line'] ⟨e.line, line', e.cause⟩ := by
  obtain ⟨count, -, stuck⟩ | ⟨-, later⟩ := failsFrom_cons.mp fails
  · exact failsFrom_cons.mpr (.inl ⟨count, rfl, by rw [← h.code, stuck]⟩)
  · exact absurd later not_failsFrom_nil

theorem interchangeable_nil_blank : Interchangeable [] [[]] where
  reserved := rfl
  labels _ _ := rfl
  code _ := rfl
  encodable addressOf := by
    have blank : Encodable addressOf [] := encodable_of_not_emits rfl
    simpa using blank

namespace Interchangeable
variable {old mid new : List Text}

theorem symm (h : Interchangeable old new) : Interchangeable new old where
  reserved := h.reserved.symm
  labels address name := (h.labels address name).symm
  code addressOf := (h.code addressOf).symm
  encodable addressOf := (h.encodable addressOf).symm

theorem trans (h : Interchangeable old mid) (h' : Interchangeable mid new) :
    Interchangeable old new where
  reserved := h.reserved.trans h'.reserved
  labels address name := (h.labels address name).trans (h'.labels address name)
  code addressOf := (h.code addressOf).trans (h'.code addressOf)
  encodable addressOf := (h.encodable addressOf).trans (h'.encodable addressOf)

theorem within (h : Interchangeable old new) (before after : List Text) :
    Interchangeable (before ++ old ++ after) (before ++ new ++ after) where
  reserved := by simp only [List.map_append, List.sum_append, h.reserved]
  labels address name := by
    simp only [addressIn_append, List.map_append, List.sum_append, h.reserved, h.labels]
  code addressOf := by simp only [List.flatMap_append, h.code]
  encodable addressOf := by simp only [List.forall_mem_append, h.encodable]

end Interchangeable

section
variable {source edited : Text}
  (h : Interchangeable (sourceLines source) (sourceLines edited))
include h

theorem Interchangeable.addressOf : (ofSource source).addressOf = (ofSource edited).addressOf := by
  rw [addressOf_ofSource, addressOf_ofSource]
  exact funext fun name => h.labels 0 name

theorem Interchangeable.exists_assemble :
    (∃ target, assemble source = .ok target) ↔ ∃ target, assemble edited = .ok target := by
  rw [exists_assemble_iff, exists_assemble_iff, h.encodable, h.addressOf]

theorem Interchangeable.image {target target' : Target} (accepted : assemble source = .ok target)
    (accepted' : assemble edited = .ok target') : target.image = target'.image := by
  rw [Target.image, Target.image, code_of_assemble accepted, code_of_assemble accepted', h.code,
    h.addressOf]

end

/-- The edits of a text that are for its reader only, as what becomes of the lines that are edited.
The lines of a text are not trimmed here. -/
inductive Edit : List Text → List Text → Prop
  | insert {line : Text} (oneLine : '\n' ∉ line) (idle : Idle (Text.trim line)) : Edit [] [line]
  | remove {line : Text} (idle : Idle (Text.trim line)) : Edit [line] []
  | indent {line left right : Text} (leftBlank : Text.Blank left) (rightBlank : Text.Blank right)
      (oneLine : '\n' ∉ left ++ right) : Edit [line] [left ++ line ++ right]
  | outdent {line left right : Text} (leftBlank : Text.Blank left)
      (rightBlank : Text.Blank right) : Edit [left ++ line ++ right] [line]
  | comment {line comment : Text} (oneLine : '\n' ∉ comment)
      (notLabel : ∀ name, LineKind.ofLine (Text.trim line) ≠ .label name) :
      Edit [line] [line ++ ';' :: comment]

/-- The number that a line has after an edit, given the lines before those that are edited. -/
def renumber (before old new : List Text) (number : Nat) : Nat :=
  if number < before.length + old.length then number else number - old.length + new.length

namespace Edit
variable {old new : List Text}

theorem newline_not_mem (edit : Edit old new) (unbroken : ∀ line ∈ old, '\n' ∉ line) :
    ∀ line ∈ new, '\n' ∉ line := by
  cases edit with
  | insert oneLine | remove => simp_all
  | indent _ _ oneLine => simp_all
  | outdent => simp_all
  | comment oneLine => simp_all

theorem interchangeable (edit : Edit old new) :
    Interchangeable (old.map Text.trim) (new.map Text.trim) := by
  cases edit with
  | insert _ idle =>
      exact interchangeable_nil_blank.trans (Alike.of_idle (.inl rfl) idle).interchangeable
  | remove idle =>
      exact (interchangeable_nil_blank.trans
        (Alike.of_idle (.inl rfl) idle).interchangeable).symm
  | indent leftBlank rightBlank | outdent leftBlank rightBlank =>
      rw [List.map_singleton, List.map_singleton, Text.trim_append leftBlank rightBlank]
      exact (Alike.refl _).interchangeable
  | comment _ notLabel => exact (alike_comment notLabel _).interchangeable

section
variable {addressOf : Text → Option Nat} {e : AssemblyError}

theorem failsFrom (edit : Edit old new) {number : Nat}
    (h : FailsFrom addressOf number (old.map Text.trim) e) :
    ∃ text, FailsFrom addressOf number (new.map Text.trim) ⟨e.line, text, e.cause⟩ := by
  cases edit with
  | insert => exact absurd h not_failsFrom_nil
  | remove idle =>
      obtain ⟨line, listed, stuck⟩ := h.not_encodable
      obtain rfl := List.mem_singleton.mp listed
      exact absurd (encodable_of_not_emits idle.not_emits) stuck
  | indent leftBlank rightBlank | outdent leftBlank rightBlank =>
      simp only [List.map_singleton, Text.trim_append leftBlank rightBlank] at h ⊢
      exact ⟨e.text, h⟩
  | comment _ notLabel => exact ⟨_, (alike_comment notLabel _).failsFrom h⟩

/-- A failure stays with its line. -/
theorem failsFrom_within (edit : Edit old new) {before after : List Text}
    (h : FailsFrom addressOf 0 ((before ++ old ++ after).map Text.trim) e) :
    ∃ text, FailsFrom addressOf 0 ((before ++ new ++ after).map Text.trim)
      ⟨renumber before old new e.line, text, e.cause⟩ := by
  have fineNew := (edit.interchangeable.encodable addressOf).mp
  simp only [List.map_append, failsFrom_append, List.forall_mem_append, List.length_append,
    List.length_map] at h ⊢
  obtain (front | ⟨fine, here⟩) | ⟨⟨fine, fineOld⟩, back⟩ := h
  · have earlier := front.line_bounds.2
    rw [List.length_map] at earlier
    rw [renumber, if_pos (by omega)]
    exact ⟨e.text, .inl (.inl front)⟩
  · have earlier := here.line_bounds.2
    rw [List.length_map] at earlier
    rw [renumber, if_pos (by omega)]
    obtain ⟨text, fails⟩ := edit.failsFrom here
    exact ⟨text, .inl (.inr ⟨fine, fails⟩)⟩
  · have later := back.line_bounds.1
    have moved : e.line - (0 + (before.length + old.length)) + (0 + (before.length + new.length)) =
        e.line - old.length + new.length := by omega
    rw [renumber, if_neg (by omega), ← moved]
    exact ⟨e.text, .inr ⟨⟨fine, fineNew fineOld⟩, back.renumber _⟩⟩

end
end Edit

end Layout

/-- What is there for the reader of a source only is without effect on the program. -/
theorem edit_keeps_program {source : Text} {before old new after : List Text}
    (edit : Layout.Edit old new) (lines : source.splitOn '\n' = before ++ old ++ after) :
    let edited := ['\n'].intercalate (before ++ new ++ after)
    (Layout.ofSource source).addressOf = (Layout.ofSource edited).addressOf ∧
      ((∃ target, assemble source = .ok target) ↔ ∃ target, assemble edited = .ok target) ∧
      (∀ target target', assemble source = .ok target → assemble edited = .ok target' →
        target.image = target'.image) ∧
      ∀ e, assemble source = .error e →
        ∃ text, assemble edited =
          .error ⟨Layout.renumber before old new e.line, text, e.cause⟩ := by
  intro edited
  have own : Layout.sourceLines source = (before ++ old ++ after).map Text.trim := by
    rw [Layout.sourceLines, lines]
  have unbroken : ∀ line ∈ before ++ new ++ after, '\n' ∉ line := by
    have all : ∀ line ∈ before ++ old ++ after, '\n' ∉ line := by
      rw [← lines]
      exact fun line => Text.not_mem_of_mem_splitOn
    simp only [List.forall_mem_append] at all ⊢
    exact ⟨⟨all.1.1, edit.newline_not_mem all.1.2⟩, all.2⟩
  -- Without any line left the source has a single one, which is empty.
  have same : Layout.Interchangeable (Layout.sourceLines source) (Layout.sourceLines edited) := by
    have replaced := edit.interchangeable.within (before.map Text.trim) (after.map Text.trim)
    rw [← List.map_append, ← List.map_append, ← List.map_append, ← List.map_append, ← own]
      at replaced
    by_cases rest : before ++ new ++ after = []
    · rw [rest] at replaced
      have blank : Layout.sourceLines edited = [[]] := by
        simp only [edited, rest]
        rfl
      rw [blank]
      exact replaced.trans Layout.interchangeable_nil_blank
    · rwa [Layout.sourceLines_intercalate unbroken rest]
  refine ⟨same.addressOf, same.exists_assemble, fun _ _ => same.image, fun e refused => ?_⟩
  rw [assemble_eq_error_iff, own] at refused
  obtain ⟨text, fails⟩ := edit.failsFrom_within refused
  have rest : before ++ new ++ after ≠ [] := by
    intro gone
    rw [gone] at fails
    exact Layout.not_failsFrom_nil fails
  refine ⟨text, assemble_eq_error_iff.mpr ?_⟩
  rwa [← same.addressOf, Layout.sourceLines_intercalate unbroken rest]

/-- A comment before a faulty line moves the error to the next line. -/
theorem edit_keeps_program_inserted :
    let source := "NOPE\nHALT".toList
    let before := ["NOPE".toList]
    let new := [" ; end".toList]
    let after := ["HALT".toList]
    let cause : StatementError := .unknownOpcode "HALT".toList
    Layout.Edit [] new ∧ source.splitOn '\n' = before ++ [] ++ after ∧
      assemble source = .error ⟨1, "HALT".toList, cause⟩ ∧
      ∃ text, assemble (['\n'].intercalate (before ++ new ++ after)) = .error ⟨2, text, cause⟩ := by
  intro source before new after cause
  have edit : Layout.Edit [] new := .insert (by decide) (.inr (by decide))
  have lines : source.splitOn '\n' = before ++ [] ++ after := by decide
  have refused : assemble source = .error ⟨1, "HALT".toList, cause⟩ := by decide +kernel
  exact ⟨edit, lines, refused, (edit_keeps_program edit lines).2.2.2 _ refused⟩

end SledeMachine
