import Mathlib.Data.List.TakeWhile
import SledeMachine.Layout

/-!
What kind a line is. A label line is a name and a colon, character for character. Of the lines that
are neither blank nor a comment nor a label, those with the opcode of the data directive are data
and all others are instructions.
-/

namespace SledeMachine

/-- A line that is the label of a name: the name and a colon. -/
def Label.Defines (line name : Text) : Prop :=
  line = name ++ [':'] ∧ name ≠ [] ∧ ∀ c ∈ name, isNameChar c = true

theorem Label.ofLine?_eq_some_iff {line name : Text} :
    ofLine? line = some name ↔ Defines line name := by
  rw [ofLine?, Token.whole_eq_some_iff]
  constructor
  · intro h
    simp only [token] at h
    split at h
    · rename_i rest colon
      split at h
      · rename_i named
        cases h
        have parts := List.takeWhile_append_dropWhile (p := isNameChar) (l := line)
        rw [colon] at parts
        exact ⟨parts.symm, named, fun c hc => List.mem_takeWhile_imp hc⟩
      · cases h
    · cases h
  · rintro ⟨rfl, named, chars⟩
    have colon : (name ++ [':']).dropWhile isNameChar = [':'] := by
      rw [List.dropWhile_append_of_pos chars]
      decide
    have front : (name ++ [':']).takeWhile isNameChar = name := by
      rw [List.takeWhile_append_of_pos chars]
      simp [show isNameChar ':' = false by decide]
    simp only [token, colon, front, if_pos named]

namespace LineKind

/-- What the kind of a line says about the line. -/
def Describes (line : Text) : LineKind → Prop
  | .blank => line = []
  | .comment => line.head? = some ';'
  | .label name => Label.Defines line name
  | .data => (Statement.ofLine line).opcode = dataDirective
  | .instruction => (Statement.ofLine line).opcode ≠ dataDirective

theorem describes_ofLine (line : Text) : (ofLine line).Describes line := by
  simp only [ofLine]
  split
  · assumption
  · split
    · assumption
    · split
      · exact Label.ofLine?_eq_some_iff.mp ‹_›
      · split <;> assumption

theorem defines_of_label {line name : Text} (h : ofLine line = .label name) :
    Label.Defines line name := by
  have kind := describes_ofLine line
  rw [h] at kind
  exact kind

theorem ofLine_of_defines {line name : Text} (h : Label.Defines line name) :
    ofLine line = .label name := by
  have label := Label.ofLine?_eq_some_iff.mpr h
  obtain ⟨rfl, named, chars⟩ := h
  have first : (name ++ [':']).head? ≠ some ';' := by
    obtain ⟨c, rest, rfl⟩ := List.exists_cons_of_ne_nil named
    rintro ⟨⟩
    exact absurd (chars _ List.mem_cons_self) (by decide)
  simp only [ofLine, label, if_neg first, if_neg (List.append_ne_nil_of_right_ne_nil name
    (List.cons_ne_nil ':' []))]

theorem opcode_of_data {line : Text} (h : ofLine line = .data) :
    (Statement.ofLine line).opcode = dataDirective := by
  have kind := describes_ofLine line
  rw [h] at kind
  exact kind

theorem opcode_of_instruction {line : Text} (h : ofLine line = .instruction) :
    (Statement.ofLine line).opcode ≠ dataDirective := by
  have kind := describes_ofLine line
  rw [h] at kind
  exact kind

theorem ofLine_of_statement {line : Text} (filled : line ≠ []) (notComment : line.head? ≠ some ';')
    (notLabel : Label.ofLine? line = none) :
    ofLine line =
      if (Statement.ofLine line).opcode = dataDirective then .data else .instruction := by
  simp only [ofLine, if_neg filled, if_neg notComment, notLabel]

/-- A line that is neither blank nor a comment nor a label. -/
structure IsCode (line : Text) : Prop where
  filled : line ≠ []
  notComment : line.head? ≠ some ';'
  notLabel : ∀ name, ¬ Label.Defines line name

theorem emits_ofLine_iff {line : Text} : (ofLine line).emits = true ↔ IsCode line := by
  constructor
  · intro emits
    refine ⟨?_, fun comment => ?_, fun name label => ?_⟩
    · rintro rfl
      cases emits
    · have filled : line ≠ [] := by
        rintro rfl
        cases comment
      simp [ofLine, filled, comment, LineKind.emits] at emits
    · rw [ofLine_of_defines label] at emits
      cases emits
  · rintro ⟨filled, notComment, notLabel⟩
    have unnamed : Label.ofLine? line = none :=
      Option.eq_none_iff_forall_ne_some.mpr fun name label =>
        notLabel name (Label.ofLine?_eq_some_iff.mp label)
    rw [ofLine_of_statement filled notComment unnamed]
    split <;> rfl

end LineKind
end SledeMachine
