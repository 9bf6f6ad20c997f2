import SledeMachine.Proofs.LineKind
import SledeMachine.Proofs.Numeral

/-!
Statements that are written and read back. The words of a statement hold nothing that parts words,
arguments, comments or lines, so a statement made of words is read back from its text, and the text
is a line by itself: it has no break, no blank at an end, and it is no label and no comment.
-/

namespace SledeMachine

namespace Text

theorem isBlank_of_isAlphanum {c : Char} (h : c.isAlphanum = true) : isBlank c = false := by
  have letters := isAlphanum_iff.mp h
  simp only [isBlank, Bool.or_eq_false_iff, Bool.and_eq_false_iff, beq_eq_false_iff_ne,
    decide_eq_false_iff_not]
  omega

/-- A text without blanks at its ends is left as it is. -/
theorem trim_eq_self {t rest front : Text} {c d : Char} (first : t = c :: rest)
    (hc : isBlank c = false) (last : t = front ++ [d]) (hd : isBlank d = false) : trim t = t := by
  have left : t.dropWhile isBlank = t := by
    rw [first, List.dropWhile_cons_of_neg (by simp [hc])]
  have right : t.reverse.dropWhile isBlank = t.reverse := by
    rw [last, List.reverse_append, List.reverse_singleton, List.singleton_append,
      List.dropWhile_cons_of_neg (by simp [hd])]
  rw [trim, left, right, List.reverse_reverse]

namespace IsWord
variable {t : Text} {c : Char}

theorem isAlphanum_or_stop (h : IsWord t) (hc : c ∈ t) : c.isAlphanum = true ∨ c = '.' := by
  simpa only [isWordChar, Bool.or_eq_true, beq_iff_eq] using h.2 c hc

theorem isBlank (h : IsWord t) (hc : c ∈ t) : Text.isBlank c = false := by
  obtain hc | rfl := h.isAlphanum_or_stop hc
  · exact isBlank_of_isAlphanum hc
  · decide

theorem not_mem (h : IsWord t) (letter : c.isAlphanum = false) (stop : c ≠ '.') : c ∉ t := by
  intro hc
  obtain hc | rfl := h.isAlphanum_or_stop hc
  · rw [letter] at hc
    cases hc
  · exact stop rfl

theorem first (h : IsWord t) : ∃ c rest, t = c :: rest ∧ Text.isBlank c = false := by
  obtain ⟨c, rest, rfl⟩ := List.exists_cons_of_ne_nil h.1
  exact ⟨c, rest, rfl, h.isBlank List.mem_cons_self⟩

theorem last (h : IsWord t) : ∃ front c, t = front ++ [c] ∧ Text.isBlank c = false := by
  refine ⟨t.dropLast, t.getLast h.1, (List.dropLast_concat_getLast h.1).symm, ?_⟩
  exact h.isBlank (List.getLast_mem h.1)

end IsWord

theorem mem_commaList {pieces : List Text} {c : Char} (h : c ∈ commaList pieces) :
    c = ',' ∨ c = ' ' ∨ ∃ piece ∈ pieces, c ∈ piece := by
  induction pieces with
  | nil => cases h
  | cons piece rest ih =>
      cases rest with
      | nil =>
          rw [commaList, List.intercalate_singleton] at h
          exact .inr (.inr ⟨piece, List.mem_cons_self, h⟩)
      | cons next rest =>
          rw [commaList, List.intercalate_cons_cons, List.append_assoc, List.mem_append,
            List.mem_append] at h
          obtain h | h | h := h
          · exact .inr (.inr ⟨piece, List.mem_cons_self, h⟩)
          · have comma : c ∈ [',', ' '] := h
            obtain rfl | comma := List.mem_cons.mp comma
            · exact .inl rfl
            · exact .inr (.inl (List.mem_singleton.mp comma))
          · obtain h | h | ⟨other, hother, h⟩ := ih h
            · exact .inl h
            · exact .inr (.inl h)
            · exact .inr (.inr ⟨other, List.mem_cons_of_mem _ hother, h⟩)

theorem filter_commaList {pieces : List Text}
    (solid : ∀ piece ∈ pieces, ∀ c ∈ piece, isBlank c = false) :
    (commaList pieces).filter (fun c => !isBlank c) = [','].intercalate pieces := by
  have own {piece : Text} (solid : ∀ c ∈ piece, isBlank c = false) :
      piece.filter (fun c => !isBlank c) = piece := by
    refine List.filter_eq_self.mpr fun c hc => ?_
    rw [solid c hc]
    rfl
  induction pieces with
  | nil => rfl
  | cons piece rest ih =>
      obtain ⟨first, solid⟩ := List.forall_mem_cons.mp solid
      cases rest with
      | nil => rw [commaList, List.intercalate_singleton, List.intercalate_singleton, own first]
      | cons next rest =>
          have comma : ", ".toList.filter (fun c => !isBlank c) = [','] := by decide
          rw [commaList, List.intercalate_cons_cons, List.intercalate_cons_cons, List.filter_append,
            List.filter_append, own first, comma]
          exact congrArg _ (ih solid)

theorem last_commaList {pieces : List Text} (words : ∀ piece ∈ pieces, IsWord piece)
    (nonempty : pieces ≠ []) :
    ∃ front c, commaList pieces = front ++ [c] ∧ isBlank c = false := by
  induction pieces with
  | nil => exact absurd rfl nonempty
  | cons piece rest ih =>
      obtain ⟨word, words⟩ := List.forall_mem_cons.mp words
      cases rest with
      | nil =>
          rw [commaList, List.intercalate_singleton]
          exact word.last
      | cons next rest =>
          obtain ⟨front, c, text, blank⟩ := ih words (List.cons_ne_nil _ _)
          refine ⟨piece ++ ", ".toList ++ front, c, ?_, blank⟩
          rw [commaList] at text
          rw [commaList, List.intercalate_cons_cons, text, List.append_assoc _ front]

end Text

namespace Statement

/-- A statement as it can be read from a line: nothing in it parts words, arguments or comments,
no argument is empty, and there are none without an opcode. -/
structure Normal (s : Statement) : Prop where
  opcode : ∀ c ∈ s.opcode, Text.isBlank c = false ∧ c ≠ ';'
  args : ∀ a ∈ s.args, a ≠ [] ∧ ∀ c ∈ a, Text.isBlank c = false ∧ c ≠ ';' ∧ c ≠ ','
  empty : s.opcode = [] → s.args = []

/-- The arguments in the text behind an opcode. -/
def operands (t : Text) : List Text :=
  (((t.takeWhile (· ≠ ';')).filter fun c => !Text.isBlank c).splitOn ',').filter (· ≠ [])

/-- A text that does not go on with the opcode in front of it. -/
def Parted (t : Text) : Prop := ∀ c ∈ t.head?, Text.isBlank c = true ∨ c = ';'

theorem ofLine_of_parts {lead opcode t : Text} (blank : ∀ c ∈ lead, Text.isBlank c = true)
    (word : ∀ c ∈ opcode, Text.isBlank c = false ∧ c ≠ ';') (filled : opcode ≠ [])
    (parted : Parted t) : ofLine (lead ++ opcode ++ t) = ⟨opcode, operands t⟩ := by
  have apart : ∀ c ∈ lead, decide (c ≠ ';') = true := by
    intro c hc
    refine decide_eq_true ?_
    rintro rfl
    exact absurd (blank _ hc) (by decide)
  have solid : ∀ c ∈ opcode, (!Text.isBlank c) = true := fun c hc => by simp [(word c hc).1]
  have before : code (lead ++ opcode ++ t) = opcode ++ t.takeWhile (· ≠ ';') := by
    obtain ⟨c, rest, rfl⟩ := List.exists_cons_of_ne_nil filled
    rw [code, List.append_assoc, List.takeWhile_append_of_pos apart,
      List.takeWhile_append_of_pos fun c hc => decide_eq_true (word c hc).2,
      List.dropWhile_append_of_pos blank, List.cons_append, List.dropWhile_cons_of_neg]
    simp [(word c List.mem_cons_self).1]
  -- Before the comment, the text behind the opcode is empty or begins with a blank.
  have behind : (t.takeWhile (· ≠ ';')).takeWhile (fun c => !Text.isBlank c) = [] ∧
      (t.takeWhile (· ≠ ';')).dropWhile (fun c => !Text.isBlank c) = t.takeWhile (· ≠ ';') := by
    cases t with
    | nil => exact ⟨rfl, rfl⟩
    | cons c t =>
        obtain first | rfl := parted c rfl
        · have other : c ≠ ';' := by
            rintro rfl
            exact absurd first (by decide)
          simp [other, first]
        · simp
  rw [ofLine, before, List.takeWhile_append_of_pos solid, List.dropWhile_append_of_pos solid,
    behind.1, behind.2, List.append_nil, operands]

theorem operands_commaList {args : List Text}
    (solid : ∀ a ∈ args, a ≠ [] ∧ ∀ c ∈ a, Text.isBlank c = false ∧ c ≠ ';' ∧ c ≠ ',') :
    operands (' ' :: Text.commaList args) = args := by
  have whole : (' ' :: Text.commaList args).takeWhile (· ≠ ';') = ' ' :: Text.commaList args := by
    refine List.takeWhile_eq_self_iff.mpr fun c hc => decide_eq_true ?_
    rintro rfl
    obtain equal | listed := List.mem_cons.mp hc
    · cases equal
    · obtain equal | equal | ⟨a, ha, hc⟩ := Text.mem_commaList listed
      · cases equal
      · cases equal
      · exact ((solid a ha).2 _ hc).2.1 rfl
  rw [operands, whole, List.filter_cons_of_neg (by decide),
    Text.filter_commaList fun a ha c hc => ((solid a ha).2 c hc).1]
  cases args with
  | nil => rfl
  | cons a rest =>
      have apart : ∀ a' ∈ a :: rest, ',' ∉ a' := fun a' ha hc => ((solid a' ha).2 _ hc).2.2 rfl
      rw [List.splitOn_intercalate ',' apart (List.cons_ne_nil _ _)]
      exact List.filter_eq_self.mpr fun a' ha => decide_eq_true (solid a' ha).1

/-- A statement in normal form is read back from its opcode, a blank and its arguments. -/
theorem Normal.ofLine_written {s : Statement} (h : s.Normal) :
    ofLine (s.opcode ++ ' ' :: Text.commaList s.args) = s := by
  obtain ⟨opcode, args⟩ := s
  cases opcode with
  | nil =>
      obtain rfl := h.empty rfl
      rfl
  | cons c rest =>
      have parted : Parted (' ' :: Text.commaList args) := by
        rintro _ ⟨⟩
        exact .inl (by decide)
      have read := @ofLine_of_parts [] _ _ nofun h.opcode (List.cons_ne_nil c rest) parted
      rw [List.nil_append] at read
      rw [read, operands_commaList h.args]

/-- A statement whose opcode and arguments are words. -/
structure Plain (s : Statement) : Prop where
  opcode : Text.IsWord s.opcode
  args : ∀ a ∈ s.args, Text.IsWord a

namespace Plain
variable {s : Statement}

/-- The text goes on after the opcode with a blank and the arguments, if there are any. -/
theorem text_eq (s : Statement) :
    s.args = [] ∧ s.text = s.opcode ∨
      s.args ≠ [] ∧ s.text = s.opcode ++ ' ' :: Text.commaList s.args := by
  cases args : s.args with
  | nil => exact .inl ⟨rfl, by simp only [text, args]⟩
  | cons a rest => exact .inr ⟨List.cons_ne_nil _ _, by simp only [text, args]⟩

theorem not_mem (h : s.Plain) {c : Char} (letter : c.isAlphanum = false)
    (others : c ∉ ['.', ',', ' ']) : c ∉ s.text := by
  simp only [List.mem_cons, List.not_mem_nil, or_false, not_or] at others
  obtain ⟨stop, comma, blank⟩ := others
  intro hc
  obtain ⟨-, text⟩ | ⟨-, text⟩ := text_eq s
  · rw [text] at hc
    exact h.opcode.not_mem letter stop hc
  · rw [text, List.mem_append, List.mem_cons] at hc
    obtain hc | rfl | hc := hc
    · exact h.opcode.not_mem letter stop hc
    · exact blank rfl
    · obtain rfl | rfl | ⟨a, ha, hc⟩ := Text.mem_commaList hc
      · exact comma rfl
      · exact blank rfl
      · exact (h.args a ha).not_mem letter stop hc

theorem first (h : s.Plain) : ∃ c rest, s.text = c :: rest ∧ Text.isBlank c = false := by
  obtain ⟨c, rest, opcode, blank⟩ := h.opcode.first
  obtain ⟨-, text⟩ | ⟨-, text⟩ := text_eq s
  · exact ⟨c, rest, text.trans opcode, blank⟩
  · exact ⟨c, _, by rw [text, opcode, List.cons_append], blank⟩

theorem last (h : s.Plain) : ∃ front c, s.text = front ++ [c] ∧ Text.isBlank c = false := by
  obtain ⟨-, text⟩ | ⟨nonempty, text⟩ := text_eq s
  · rw [text]
    exact h.opcode.last
  · obtain ⟨front, c, args, blank⟩ := Text.last_commaList h.args nonempty
    exact ⟨s.opcode ++ ' ' :: front, c, by rw [text, args, List.append_assoc]; rfl, blank⟩

theorem trim_text (h : s.Plain) : Text.trim s.text = s.text := by
  obtain ⟨c, rest, first, hc⟩ := h.first
  obtain ⟨front, d, last, hd⟩ := h.last
  exact Text.trim_eq_self first hc last hd

theorem normal (h : s.Plain) : s.Normal where
  opcode c hc := by
    refine ⟨h.opcode.isBlank hc, ?_⟩
    rintro rfl
    exact h.opcode.not_mem (by decide) (by decide) hc
  args a ha := by
    refine ⟨(h.args a ha).1, fun c hc => ⟨(h.args a ha).isBlank hc, ?_, ?_⟩⟩ <;> rintro rfl
    · exact (h.args a ha).not_mem (by decide) (by decide) hc
    · exact (h.args a ha).not_mem (by decide) (by decide) hc
  empty opcode := absurd opcode h.opcode.1

/-- A statement made of words is read back from its text. -/
theorem ofLine_text (h : s.Plain) : ofLine s.text = s := by
  obtain ⟨args, text⟩ | ⟨-, text⟩ := text_eq s
  · have read := @ofLine_of_parts [] _ [] nofun h.normal.opcode h.opcode.1 nofun
    rw [List.nil_append, List.append_nil] at read
    obtain ⟨opcode, _⟩ := s
    subst args
    rw [text, read]
    rfl
  · rw [text, h.normal.ofLine_written]

theorem ofLine?_text (h : s.Plain) : Label.ofLine? s.text = none := by
  refine Option.eq_none_iff_forall_ne_some.mpr fun name label => ?_
  obtain ⟨text, -⟩ := Label.ofLine?_eq_some_iff.mp label
  refine h.not_mem (show ':'.isAlphanum = false by decide) (by decide) ?_
  rw [text]
  exact List.mem_append_right _ List.mem_cons_self

/-- A statement made of words takes up a line by itself, as data or as an instruction. -/
theorem emits_text (h : s.Plain) : (LineKind.ofLine s.text).emits = true := by
  have filled : s.text ≠ [] := by
    obtain ⟨c, rest, first, -⟩ := h.first
    rw [first]
    exact List.cons_ne_nil _ _
  have notComment : s.text.head? ≠ some ';' := fun head =>
    h.not_mem (by decide) (by decide) (List.mem_of_head? head)
  rw [LineKind.ofLine_of_statement filled notComment h.ofLine?_text]
  split <;> rfl

end Plain
end Statement
end SledeMachine
