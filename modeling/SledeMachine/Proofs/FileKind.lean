import SledeMachine.Proofs.Editing
import SledeMachine.Utf8

/-!
Images and sources are told apart by their front. An image opens with the tag. No source that is
accepted does: its first line would be an instruction, and no opcode begins as the tag does.
-/

namespace SledeMachine

namespace Text

theorem utf8_cons (c : Char) (t : Text) : utf8 (c :: t) = String.utf8EncodeChar c ++ utf8 t :=
  List.flatMap_cons

theorem utf8EncodeChar_of_ascii {c : Char} (ascii : c.toNat < 0x80) :
    String.utf8EncodeChar c = [UInt8.ofNat c.toNat] :=
  if_pos (Nat.le_of_lt_succ ascii)

/-- The first byte of any other character is none of an ASCII character. -/
theorem exists_utf8EncodeChar {c : Char} (other : 0x80 ≤ c.toNat) :
    ∃ first rest, String.utf8EncodeChar c = first :: rest ∧ 0x80 ≤ first.toNat := by
  have other : ¬ c.val.toNat ≤ 127 := Nat.not_le.mpr other
  simp only [String.utf8EncodeChar, if_neg other]
  split
  · refine ⟨_, _, rfl, ?_⟩
    simp only [UInt8.toNat_ofNat']
    omega
  · split
    all_goals
      refine ⟨_, _, rfl, ?_⟩
      simp only [UInt8.toNat_ofNat']
      omega

theorem utf8_prefix_iff {front : Text} (ascii : front.all fun c => c.toNat < 0x80) (t : Text) :
    front.utf8 <+: t.utf8 ↔ front <+: t := by
  induction front generalizing t with
  | nil => simp [utf8]
  | cons c front ih =>
      rw [List.all_cons, Bool.and_eq_true, decide_eq_true_eq] at ascii
      obtain ⟨first, rest⟩ := ascii
      rw [utf8_cons, utf8EncodeChar_of_ascii first, List.singleton_append]
      cases t with
      | nil => simp [utf8]
      | cons d t =>
          rw [utf8_cons, List.cons_prefix_cons, ← ih rest]
          by_cases other : d.toNat < 0x80
          · have same : UInt8.ofNat c.toNat = UInt8.ofNat d.toNat ↔ c = d := by
              rw [← UInt8.toNat_inj, UInt8.toNat_ofNat', UInt8.toNat_ofNat', ← Char.toNat_inj]
              omega
            rw [utf8EncodeChar_of_ascii other, List.singleton_append, List.cons_prefix_cons, same]
          · obtain ⟨byte, more, bytes, high⟩ := exists_utf8EncodeChar (Nat.not_lt.mp other)
            have apart : UInt8.ofNat c.toNat ≠ byte := by
              rw [ne_eq, ← UInt8.toNat_inj, UInt8.toNat_ofNat']
              omega
            have apart' : c ≠ d := by
              rintro rfl
              exact other first
            rw [bytes, List.cons_append, List.cons_prefix_cons]
            simp [apart, apart']

end Text

/-- The characters of the tag. -/
def Image.tagText : Text := ".SLEDE8".toList

theorem Image.utf8_tagText : Text.utf8 tagText = tag := by decide

/-- The data directive alone begins with a point, and goes on otherwise than the tag. -/
theorem Mnemonic.take_name_ne (m : Mnemonic) : m.name.take 2 ≠ ['.', 'S'] := by
  cases m with
  | alu op => cases op <;> decide
  | compare op => cases op <;> decide
  | _ => decide

namespace Layout

theorem not_encodable_of_front (addressOf : Text → Option Nat) (rest : Text) :
    ¬ Encodable addressOf ('.' :: 'S' :: rest) := by
  have notLabel : Label.ofLine? ('.' :: 'S' :: rest) = none := by
    cases found : Label.ofLine? ('.' :: 'S' :: rest) with
    | none => rfl
    | some name =>
        obtain ⟨whole, named, chars⟩ := Label.ofLine?_eq_some_iff.mp found
        cases name with
        | nil => exact absurd rfl named
        | cons c name =>
            cases (List.cons.inj whole).1
            exact absurd (chars '.' List.mem_cons_self) (by decide)
  have emits : (LineKind.ofLine ('.' :: 'S' :: rest)).emits = true := by
    rw [LineKind.ofLine_of_statement (by simp) (by simp) notLabel]
    split <;> rfl
  have opcode : (Statement.ofLine ('.' :: 'S' :: rest)).opcode.take 2 = ['.', 'S'] := by
    simp [Statement.ofLine, Statement.code, show Text.isBlank '.' = false by decide,
      show Text.isBlank 'S' = false by decide]
  have unknown : Mnemonic.ofToken? (Statement.ofLine ('.' :: 'S' :: rest)).opcode = none := by
    refine Mnemonic.ofToken?_eq_none_iff.mpr fun m name => ?_
    exact m.take_name_ne (name ▸ opcode)
  rintro ⟨bytes, encoded⟩
  rw [encodeLine_of_emits emits, Statement.emission, unknown] at encoded
  cases encoded

theorem exists_front_line (rest : Text) :
    ∃ line, '.' :: 'S' :: line ∈ sourceLines ('.' :: 'S' :: rest) := by
  obtain ⟨first, more, pieces⟩ := List.exists_cons_of_ne_nil (List.splitOn_ne_nil '\n' rest)
  obtain ⟨line, trimmed⟩ := Text.exists_trim_append_cons (c := 'S') (by decide) ['.'] first
  refine ⟨line, List.mem_map.mpr ⟨'.' :: 'S' :: first, ?_, trimmed⟩⟩
  rw [List.splitOn_cons_eq_if_modifyHead, List.splitOn_cons_eq_if_modifyHead, pieces]
  exact List.mem_cons_self

end Layout

theorem not_tagged_of_assemble {source : Text} {target : Target}
    (accepted : assemble source = .ok target) :
    ¬ Image.tagText <+: source ∧ ¬ Image.tag <+: source.utf8 := by
  have text : ¬ Image.tagText <+: source := by
    rintro ⟨rest, rfl⟩
    obtain ⟨line, listed⟩ := Layout.exists_front_line ("LEDE8".toList ++ rest)
    exact Layout.not_encodable_of_front _ line
      (exists_assemble_iff.mp ⟨target, accepted⟩ _ listed)
  refine ⟨text, ?_⟩
  rwa [← Image.utf8_tagText, Text.utf8_prefix_iff (by decide)]

end SledeMachine
