import SledeMachine.Proofs.Spelling

/-!
Lines as statements. Whatever a line holds, its statement is in normal form, and the statement is
read back from the line that shows it. Nothing in the line matters but the opcode and, up to the
comment, the characters behind it that are not white space: so white space may be put in anywhere
behind the end of the opcode, even within an argument.
-/

namespace SledeMachine

namespace Text

section
variable {p : Char → Bool} {c : Char} (stop : p c = false) (front back : Text)
include stop

theorem dropWhile_append_cons :
    (front ++ c :: back).dropWhile p = front.dropWhile p ++ c :: back := by
  rw [List.dropWhile_append, List.dropWhile_cons_of_neg (by simp [stop])]
  split
  · rename_i gone
    rw [List.isEmpty_iff.mp gone, List.nil_append]
  · rfl

theorem takeWhile_append_cons : (front ++ c :: back).takeWhile p = front.takeWhile p := by
  rw [List.takeWhile_append, List.takeWhile_cons_of_neg (by simp [stop]), List.append_nil]
  split
  · rename_i all
    exact ((List.takeWhile_prefix p).eq_of_length all).symm
  · rfl

end

/-- Text of nothing but white space. -/
def Blank (t : Text) : Prop := ∀ c ∈ t, isBlank c = true

theorem Blank.filter {t : Text} (h : Blank t) : t.filter (fun c => !isBlank c) = [] :=
  List.filter_eq_nil_iff.mpr fun c hc => by simp [h c hc]

theorem Blank.no_comment {t : Text} (h : Blank t) : ∀ c ∈ t, decide (c ≠ ';') = true := by
  intro c hc
  refine decide_eq_true ?_
  rintro rfl
  exact absurd (h _ hc) (by decide)

/-- White space that is put in stands before the comment or within it. -/
theorem exists_takeWhile_insert {inserted : Text} (blank : Blank inserted) (front back : Text) :
    ∃ kept more, Blank kept ∧
      (front ++ back).takeWhile (· ≠ ';') = front.takeWhile (· ≠ ';') ++ more ∧
      (front ++ inserted ++ back).takeWhile (· ≠ ';') =
        front.takeWhile (· ≠ ';') ++ kept ++ more := by
  rw [List.append_assoc, List.takeWhile_append, List.takeWhile_append]
  split
  · rename_i all
    have whole : front.takeWhile (· ≠ ';') = front := (List.takeWhile_prefix _).eq_of_length all
    refine ⟨inserted, back.takeWhile (· ≠ ';'), blank, by rw [whole], ?_⟩
    rw [whole, List.takeWhile_append_of_pos blank.no_comment, List.append_assoc]
  · exact ⟨[], [], nofun, by simp, by simp⟩

theorem mem_of_mem_splitOn {c d : Char} {t line : Text} (h : line ∈ t.splitOn c) (hd : d ∈ line) :
    d ∈ t ∧ d ≠ c := by
  induction t generalizing line with
  | nil => simp_all
  | cons e rest ih =>
      rw [List.splitOn_cons_eq_if_modifyHead] at h
      split at h
      · obtain rfl | h := List.mem_cons.mp h
        · cases hd
        · exact (ih h hd).imp_left (List.mem_cons_of_mem _)
      · rename_i other
        obtain ⟨first, more, pieces⟩ := List.exists_cons_of_ne_nil (List.splitOn_ne_nil c rest)
        rw [pieces] at h ih
        obtain rfl | h := List.mem_cons.mp h
        · obtain rfl | hd := List.mem_cons.mp hd
          · exact ⟨List.mem_cons_self, by simpa using other⟩
          · exact (ih List.mem_cons_self hd).imp_left (List.mem_cons_of_mem _)
        · exact (ih (List.mem_cons_of_mem _ h) hd).imp_left (List.mem_cons_of_mem _)

theorem not_mem_of_mem_splitOn {c : Char} {t line : Text} (h : line ∈ t.splitOn c) : c ∉ line :=
  fun hc => (mem_of_mem_splitOn h hc).2 rfl

end Text

namespace Statement

theorem ofLine_append_comment (line comment : Text) :
    ofLine (line ++ ';' :: comment) = ofLine line := by
  have same : code (line ++ ';' :: comment) = code line := by
    rw [code, Text.takeWhile_append_cons (by decide), code]
  rw [ofLine, ofLine, same]

theorem ofLine_of_blank {line : Text} (blank : Text.Blank (line.takeWhile (· ≠ ';'))) :
    ofLine line = ⟨[], []⟩ := by
  have nothing : code line = [] := List.dropWhile_eq_nil_iff.mpr blank
  rw [ofLine, nothing]
  rfl

theorem blank_of_opcode {line : Text} (opcode : (ofLine line).opcode = []) :
    Text.Blank (line.takeWhile (· ≠ ';')) := by
  refine List.dropWhile_eq_nil_iff.mp ?_
  change (code line).takeWhile _ = [] at opcode
  cases read : code line with
  | nil => exact read
  | cons c rest =>
      have first := List.head?_dropWhile_not Text.isBlank (line.takeWhile (· ≠ ';'))
      rw [code] at read
      rw [read] at first
      rw [code, read] at opcode
      simp_all

theorem normal_ofLine (line : Text) : (ofLine line).Normal where
  opcode c hc := by
    have solid := List.mem_takeWhile_imp hc
    have before := (List.dropWhile_sublist _).subset ((List.takeWhile_sublist _).subset hc)
    exact ⟨by simpa using solid, by simpa using List.mem_takeWhile_imp before⟩
  args a ha := by
    simp only [ofLine, List.mem_filter, decide_eq_true_eq] at ha
    obtain ⟨piece, filled⟩ := ha
    refine ⟨filled, fun c hc => ?_⟩
    obtain ⟨listed, comma⟩ := Text.mem_of_mem_splitOn piece hc
    obtain ⟨behind, solid⟩ := List.mem_filter.mp listed
    have before := (List.dropWhile_sublist _).subset ((List.dropWhile_sublist _).subset behind)
    exact ⟨by simpa using solid, by simpa using List.mem_takeWhile_imp before, comma⟩
  empty opcode := by rw [ofLine_of_blank (blank_of_opcode opcode)]

theorem operands_insert {inserted : Text} (blank : Text.Blank inserted) (front back : Text) :
    operands (front ++ inserted ++ back) = operands (front ++ back) := by
  obtain ⟨kept, more, keptBlank, before, after⟩ := Text.exists_takeWhile_insert blank front back
  rw [operands, operands, before, after, List.filter_append, List.filter_append, keptBlank.filter,
    List.append_nil, List.filter_append]

/-- A line is blank up to the opcode, and the opcode goes no further. -/
theorem exists_parts (line : Text) :
    ∃ lead rest, Text.Blank lead ∧ Parted rest ∧ line = lead ++ (ofLine line).opcode ++ rest := by
  have before : (line.takeWhile (· ≠ ';')).takeWhile Text.isBlank ++ code line =
      line.takeWhile (· ≠ ';') := List.takeWhile_append_dropWhile
  have behind : (ofLine line).opcode ++ (code line).dropWhile (fun c => !Text.isBlank c) =
      code line := List.takeWhile_append_dropWhile
  refine ⟨(line.takeWhile (· ≠ ';')).takeWhile Text.isBlank,
    (code line).dropWhile (fun c => !Text.isBlank c) ++ line.dropWhile (· ≠ ';'),
    fun c hc => List.mem_takeWhile_imp hc, fun c hc => ?_, ?_⟩
  · cases read : (code line).dropWhile (fun c => !Text.isBlank c) with
    | cons d rest =>
        have first := List.head?_dropWhile_not (fun c => !Text.isBlank c) (code line)
        rw [read] at first hc
        cases hc
        exact .inl (by simpa using first)
    | nil =>
        have first := List.head?_dropWhile_not (fun c => decide (c ≠ ';')) line
        rw [read, List.nil_append] at hc
        rw [Option.mem_def.mp hc] at first
        exact .inr (by simpa using first)
  · rw [← List.append_assoc, List.append_assoc _ (ofLine line).opcode, behind, before,
      List.takeWhile_append_dropWhile]

/-- A line and the statement in it. White space may stand before the opcode; behind it, up to a
comment, commas part the arguments, of which empty ones do not count, and white space counts for
nothing, even within an argument. A line without an opcode holds the empty statement. -/
inductive Reads : Text → Statement → Prop
  | empty {lead comment : Text} (blank : Text.Blank lead) (ends : ∀ c ∈ comment.head?, c = ';') :
      Reads (lead ++ comment) ⟨[], []⟩
  | filled {lead opcode body comment : Text} {pieces : List Text} (blank : Text.Blank lead)
      (nonempty : opcode ≠ []) (word : ∀ c ∈ opcode, Text.isBlank c = false ∧ c ≠ ';')
      (parted : ∀ c ∈ body.head?, Text.isBlank c = true) (inside : ∀ c ∈ body, c ≠ ';')
      (ends : ∀ c ∈ comment.head?, c = ';')
      (parts : body.filter (fun c => !Text.isBlank c) = [','].intercalate pieces)
      (apart : ∀ piece ∈ pieces, ',' ∉ piece) :
      Reads (lead ++ opcode ++ (body ++ comment)) ⟨opcode, pieces.filter (· ≠ [])⟩

theorem takeWhile_of_ends {t comment : Text} (inside : ∀ c ∈ t, c ≠ ';')
    (ends : ∀ c ∈ comment.head?, c = ';') : (t ++ comment).takeWhile (· ≠ ';') = t := by
  rw [List.takeWhile_append_of_pos fun c hc => decide_eq_true (inside c hc)]
  cases comment with
  | nil => exact List.append_nil t
  | cons c rest => simp [ends c rfl]

theorem Reads.ofLine_eq {line : Text} {s : Statement} (h : Reads line s) : ofLine line = s := by
  cases h with
  | empty blank ends =>
      refine ofLine_of_blank ?_
      rwa [takeWhile_of_ends (fun c hc => of_decide_eq_true (blank.no_comment c hc)) ends]
  | @filled lead opcode body comment pieces blank nonempty word parted inside ends parts apart =>
      have behind : Parted (body ++ comment) := by
        cases body with
        | nil => exact fun c hc => .inr (ends c hc)
        | cons c rest => exact fun c hc => .inl (parted c hc)
      rw [ofLine_of_parts blank word nonempty behind, operands, takeWhile_of_ends inside ends,
        parts]
      cases pieces with
      | nil => rfl
      | cons piece pieces => rw [List.splitOn_intercalate ',' apart (List.cons_ne_nil _ _)]

theorem reads_ofLine (line : Text) : Reads line (ofLine line) := by
  have ends (t : Text) : ∀ c ∈ (t.dropWhile (· ≠ ';')).head?, c = ';' := by
    intro c hc
    have stops := List.head?_dropWhile_not (fun c => decide (c ≠ ';')) t
    rw [Option.mem_def.mp hc] at stops
    simpa using stops
  by_cases nothing : (ofLine line).opcode = []
  · have blank := blank_of_opcode nothing
    have reads := Reads.empty blank (ends line)
    rwa [List.takeWhile_append_dropWhile, ← ofLine_of_blank blank] at reads
  · obtain ⟨lead, rest, blank, parted, parts⟩ := exists_parts line
    have word := (normal_ofLine line).opcode
    have before : ∀ c ∈ rest.takeWhile (· ≠ ';'), c ≠ ';' := by
      intro c hc
      simpa using List.mem_takeWhile_imp hc
    have behind : ∀ c ∈ (rest.takeWhile (· ≠ ';')).head?, Text.isBlank c = true := by
      cases rest with
      | nil => nofun
      | cons d rest =>
          by_cases other : d = ';'
          · simp [other]
          · simpa [other] using (parted d rfl).resolve_right other
    have reads := Reads.filled blank nothing word behind before (ends rest)
      (List.intercalate_splitOn ',').symm fun _ => Text.not_mem_of_mem_splitOn
    rw [List.takeWhile_append_dropWhile, ← parts] at reads
    exact reads.ofLine_eq ▸ reads

theorem ofLine_eq_iff {line : Text} {s : Statement} : ofLine line = s ↔ Reads line s :=
  ⟨fun h => h ▸ reads_ofLine line, Reads.ofLine_eq⟩

theorem Parted.insert {inserted : Text} (blank : Text.Blank inserted) {front back : Text}
    (h : Parted (front ++ back)) : Parted (front ++ inserted ++ back) := by
  cases front with
  | cons c front => exact h
  | nil =>
      cases inserted with
      | nil => exact h
      | cons c inserted =>
          rintro _ ⟨⟩
          exact .inl (blank c List.mem_cons_self)

section
variable {lead opcode : Text} (before : Text.Blank lead)
include before

/-- An opcode behind nothing but white space is the whole opcode if it is read so. -/
theorem parted_of_opcode {rest : Text} (filled : opcode ≠ [])
    (read : (ofLine (lead ++ opcode ++ rest)).opcode = opcode) : Parted rest := by
  have word := (normal_ofLine (lead ++ opcode ++ rest)).opcode
  obtain ⟨lead', rest', before', parted, parts⟩ := exists_parts (lead ++ opcode ++ rest)
  rw [read] at word parts
  -- The opcode begins with no blank, so both ways the line is cut at the same places.
  have cut {lead : Text} (before : Text.Blank lead) (rest : Text) :
      (lead ++ opcode ++ rest).takeWhile Text.isBlank = lead := by
    obtain ⟨c, more, rfl⟩ := List.exists_cons_of_ne_nil filled
    have first : Text.isBlank c = false := (word c List.mem_cons_self).1
    rw [List.append_assoc, List.takeWhile_append_of_pos before, List.cons_append,
      List.takeWhile_cons_of_neg (by simp [first]), List.append_nil]
  obtain rfl : lead' = lead := by
    rw [← cut before' rest', ← parts, cut before rest]
  rwa [List.append_cancel_left parts]

/-- White space may be put in anywhere behind the end of the opcode. -/
theorem ofLine_insert {front inserted back : Text} (blank : Text.Blank inserted)
    (read : (ofLine (lead ++ opcode ++ front ++ back)).opcode = opcode) :
    ofLine (lead ++ opcode ++ front ++ inserted ++ back) =
      ofLine (lead ++ opcode ++ front ++ back) := by
  have word := (normal_ofLine (lead ++ opcode ++ front ++ back)).opcode
  rw [read] at word
  by_cases empty : opcode = []
  · have nothing := blank_of_opcode (read.trans empty)
    obtain ⟨kept, more, keptBlank, own, longer⟩ :=
      Text.exists_takeWhile_insert blank (lead ++ opcode ++ front) back
    rw [ofLine_of_blank nothing]
    apply ofLine_of_blank
    rw [own] at nothing
    rw [longer]
    simp only [Text.Blank, List.forall_mem_append] at nothing ⊢
    exact ⟨⟨nothing.1, keptBlank⟩, nothing.2⟩
  · rw [List.append_assoc _ front back] at read ⊢
    have parted := parted_of_opcode before empty read
    have longer := ofLine_of_parts before word empty (parted.insert blank)
    rw [← List.append_assoc, ← List.append_assoc] at longer
    rw [longer, operands_insert blank, ofLine_of_parts before word empty parted]

end

theorem ofLine_append_blank {right : Text} (blank : Text.Blank right) (line : Text) :
    ofLine (line ++ right) = ofLine line := by
  obtain ⟨lead, rest, before, -, parts⟩ := exists_parts line
  have same := @ofLine_insert lead (ofLine line).opcode before rest right [] blank
  rw [List.append_nil, List.append_nil, ← parts] at same
  exact same rfl

/-- Every line is read as a statement in normal form, which is read back from what shows it, and
neither a comment nor white space behind the opcode makes a difference. -/
theorem ofLine_normal_form (line : Text) :
    let s := ofLine line
    s.Normal ∧ ofLine (s.opcode ++ ' ' :: Text.commaList s.args) = s ∧
      (∀ comment, ofLine (line ++ ';' :: comment) = s) ∧
      (∃ lead rest, Text.Blank lead ∧ line = lead ++ s.opcode ++ rest) ∧
      ∀ lead front inserted back, Text.Blank lead → Text.Blank inserted →
        line = lead ++ s.opcode ++ front ++ back →
        ofLine (lead ++ s.opcode ++ front ++ inserted ++ back) = s := by
  intro s
  obtain ⟨lead, rest, before, -, parts⟩ := exists_parts line
  refine ⟨normal_ofLine line, (normal_ofLine line).ofLine_written, ofLine_append_comment line,
    ⟨lead, rest, before, parts⟩, fun lead front inserted back before blank parts => ?_⟩
  have same := @ofLine_insert lead s.opcode before front inserted back blank
  rw [← parts] at same
  exact same rfl

/-- A no-break space and a tab within the second argument. -/
theorem ofLine_normal_form_spread :
    let line := " SETT r1, 0x2; two".toList
    let inserted := "\u00a0\t".toList
    (Text.Blank " ".toList ∧ Text.Blank inserted ∧
        line = " ".toList ++ (ofLine line).opcode ++ " r1, 0x".toList ++ "2; two".toList) ∧
      ofLine (" ".toList ++ (ofLine line).opcode ++ " r1, 0x".toList ++ inserted ++
        "2; two".toList) = ofLine line := by
  intro line inserted
  have before : Text.Blank " ".toList := by simp [Text.Blank]; decide
  have blank : Text.Blank inserted := by simp [Text.Blank, inserted]; decide
  have parts : line = " ".toList ++ (ofLine line).opcode ++ " r1, 0x".toList ++
      "2; two".toList := by decide
  exact ⟨⟨before, blank, parts⟩,
    (ofLine_normal_form line).2.2.2.2 _ _ inserted _ before blank parts⟩

end Statement
end SledeMachine
