import SledeMachine.Proofs.DebugMap
import SledeMachine.Proofs.LineByLine

/-!
What is in a debug map. A later line takes the place of an earlier one at the same address, but
lines that take bytes share their address with no line behind them. So what is replaced is never
more than an empty directive, and only the last line of a program can be one that stays: the map
lists every line that emits something, at the number of bytes that come before it, and perhaps an
empty directive behind them all, in the order of the source.
-/

namespace SledeMachine

namespace Layout

/-- The lines that no later line replaces: those that take bytes, and the last. -/
def mapped : List SourceLine → List SourceLine
  | [] => []
  | [last] => [last]
  | line :: next :: rest =>
      if size line.text = 0 then mapped (next :: rest) else line :: mapped (next :: rest)

theorem mapped_sublist (lines : List SourceLine) : (mapped lines).Sublist lines := by
  induction lines using mapped.induct with
  | case1 => exact .slnil
  | case2 last => exact .refl _
  | case3 line next rest empty ih =>
      rw [mapped, if_pos empty]
      exact .cons _ ih
  | case4 line next rest filled ih =>
      rw [mapped, if_neg filled]
      exact .cons_cons _ ih

theorem mem_mapped_iff {lines : List SourceLine} {line : SourceLine} :
    line ∈ mapped lines ↔
      ∃ front back, lines = front ++ line :: back ∧ (0 < size line.text ∨ back = []) := by
  induction lines using mapped.induct with
  | case1 => simp [mapped]
  | case2 last => simp [mapped, List.singleton_eq_append_iff]
  | case3 first next rest empty ih =>
      rw [mapped, if_pos empty, ih]
      constructor
      · rintro ⟨front, back, split, stays⟩
        exact ⟨first :: front, back, congrArg _ split, stays⟩
      · rintro ⟨_ | ⟨_, front⟩, back, split, stays⟩
        · cases split
          simp [empty] at stays
        · exact ⟨front, back, (List.cons.inj split).2, stays⟩
  | case4 first next rest filled ih =>
      rw [mapped, if_neg filled, List.mem_cons, ih]
      constructor
      · rintro (rfl | ⟨front, back, split, stays⟩)
        · exact ⟨[], _, rfl, .inl (Nat.pos_of_ne_zero filled)⟩
        · exact ⟨first :: front, back, congrArg _ split, stays⟩
      · rintro ⟨_ | ⟨_, front⟩, back, split, stays⟩
        · cases split
          exact .inl rfl
        · exact .inr ⟨front, back, (List.cons.inj split).2, stays⟩

/-- The first line that stays has the address of the first line. -/
theorem exists_mapped_cons {address : Nat} {line : SourceLine} {rest : List SourceLine}
    (contiguous : Contiguous address (line :: rest)) :
    ∃ first others, mapped (line :: rest) = first :: others ∧ first.address = address := by
  induction rest generalizing line with
  | nil => exact ⟨line, [], rfl, contiguous.1⟩
  | cons next rest ih =>
      rw [mapped]
      by_cases empty : size line.text = 0
      · rw [if_pos empty]
        have tail := contiguous.2
        rw [empty] at tail
        exact ih tail
      · rw [if_neg empty]
        exact ⟨line, _, rfl, contiguous.1⟩

end Layout

namespace DebugMap

theorem find?_eq_some_iff {map : DebugMap} {key : Nat} {line : SourceLine} :
    map.find? key = some line ↔ (key, line) ∈ map.entries := by
  rw [find?, List.lookup_eq_some_iff]
  constructor
  · rintro ⟨front, back, split, -⟩
    rw [split]
    exact List.mem_append_right _ List.mem_cons_self
  · intro listed
    obtain ⟨front, back, split⟩ := List.append_of_mem listed
    have below := map.sorted
    rw [split] at below
    refine ⟨front, back, split, fun entry earlier => bne_iff_ne.mpr (Nat.ne_of_gt ?_)⟩
    exact (List.pairwise_append.mp below).2.2 entry earlier _ List.mem_cons_self

/-- A layout is kept in its map but for the lines that are replaced. -/
theorem entries_ofLines {address : Nat} {lines : List SourceLine}
    (contiguous : Layout.Contiguous address lines) :
    (ofLines lines).entries = (Layout.mapped lines).map fun line => (line.address, line) := by
  induction lines generalizing address with
  | nil => rfl
  | cons line rest ih =>
      have step : (ofLines (line :: rest)).entries =
          insertBelow line.address line (ofLines rest).entries := rfl
      rw [step, ih contiguous.2, contiguous.1]
      cases rest with
      | nil => rw [Layout.mapped, Layout.mapped, List.map_nil, insertBelow, List.map_singleton,
          contiguous.1]
      | cons next rest =>
          obtain ⟨first, others, stay, begins⟩ := Layout.exists_mapped_cons contiguous.2
          rw [Layout.mapped, stay, List.map_cons, insertBelow, begins]
          by_cases empty : Layout.size line.text = 0
          · simp [empty, begins]
          · rw [if_neg empty, if_pos (by omega), List.map_cons, List.map_cons, contiguous.1, begins]

end DebugMap

namespace Layout

theorem map_text_place (lines : List Text) (number address : Nat) :
    (place lines number address).map SourceLine.text = lines := by
  induction lines generalizing number address with
  | nil => rfl
  | cons line rest ih => rw [place, List.map_cons, ih]

theorem map_number_place (lines : List Text) (number address : Nat) :
    (place lines number address).map SourceLine.number = List.range' number lines.length := by
  induction lines generalizing number address with
  | nil => rfl
  | cons line rest ih => rw [place, List.map_cons, ih, List.length_cons, List.range'_succ]

theorem place_append_cons (before after : List Text) (line : Text) (number address : Nat) :
    place (before ++ line :: after) number address =
      place before number address ++
        ⟨number + before.length, address + (before.map size).sum, line⟩ ::
          place after (number + before.length + 1)
            (address + (before.map size).sum + size line) := by
  induction before generalizing number address with
  | nil => rfl
  | cons first before ih =>
      rw [List.cons_append, place, ih, place, List.length_cons, List.map_cons, List.sum_cons,
        ← Nat.add_assoc address, Nat.add_right_comm number 1, ← Nat.add_assoc number]
      rfl

/-- Number and address of a line are those of the lines before it, counted and added up. -/
theorem eq_of_place_eq {lines : List Text} {number address : Nat} {front back : List SourceLine}
    {line : SourceLine} (h : place lines number address = front ++ line :: back) :
    lines = front.map SourceLine.text ++ line.text :: back.map SourceLine.text ∧
      line.number = number + front.length ∧
      line.address = address + ((front.map SourceLine.text).map size).sum := by
  have split : lines = front.map SourceLine.text ++ line.text :: back.map SourceLine.text := by
    rw [← map_text_place lines number address, h, List.map_append, List.map_cons]
  have placed := h
  rw [split, place_append_cons] at placed
  have length : (place (front.map SourceLine.text) number address).length = front.length := by
    rw [← List.length_map SourceLine.text, map_text_place, List.length_map]
  have own := (List.cons.inj (List.append_inj placed length).2).1
  rw [← own, List.length_map]
  exact ⟨split, rfl, rfl⟩

/-- The lines of a layout that stay in its map, by what is before and behind them in the source. -/
theorem mem_mapped_lines_iff {source : Text} {line : SourceLine} :
    line ∈ mapped (ofSource source).lines ↔
      ∃ before after, sourceLines source = before ++ line.text :: after ∧
        line.number = before.length ∧ line.address = (before.map size).sum ∧
        line.kind.emits = true ∧
        (0 < size line.text ∨ ∀ later ∈ after, (LineKind.ofLine later).emits = false) := by
  rw [mem_mapped_iff, ofSource]
  constructor
  · rintro ⟨front, back, split, stays⟩
    obtain ⟨earlier, others, placed, -, further⟩ := List.filter_eq_append_iff.mp split
    obtain ⟨skipped, later, rfl, -, emits, rest⟩ := List.filter_eq_cons_iff.mp further
    rw [← List.append_assoc] at placed
    obtain ⟨lines, number, address⟩ := eq_of_place_eq placed
    rw [Nat.zero_add] at number address
    refine ⟨_, _, lines, by rw [number, List.length_map], address, emits, ?_⟩
    refine stays.imp_right fun last text listed => ?_
    obtain ⟨other, present, rfl⟩ := List.mem_map.mp listed
    rw [last, List.filter_eq_nil_iff] at rest
    simpa [SourceLine.kind] using rest other present
  · rintro ⟨before, after, lines, number, address, emits, stays⟩
    obtain ⟨_, _, text⟩ := line
    cases number
    cases address
    have placed := place_append_cons before after text 0 0
    rw [Nat.zero_add, Nat.zero_add] at placed
    rw [lines, placed, List.filter_append, List.filter_cons_of_pos (by exact emits)]
    refine ⟨_, _, rfl, stays.imp_right fun last => ?_⟩
    refine List.filter_eq_nil_iff.mpr fun other present => ?_
    have listed := List.mem_map_of_mem (f := SourceLine.text) present
    rw [map_text_place] at listed
    simp [SourceLine.kind, last _ listed]

theorem pairwise_number_lines (source : Text) :
    (ofSource source).lines.Pairwise fun line next => line.number < next.number := by
  refine List.Pairwise.sublist List.filter_sublist ?_
  rw [← List.pairwise_map (R := (· < ·)), map_number_place]
  exact List.pairwise_lt_range'

end Layout

theorem LineKind.emits_eq_false_iff {kind : LineKind} :
    kind.emits = false ↔ kind = .blank ∨ kind = .comment ∨ ∃ name, kind = .label name := by
  cases kind <;> simp [emits]

/-- A line that emits but takes no bytes is a directive without values. -/
theorem SourceLine.size_eq_zero_iff {line : SourceLine} (emits : line.kind.emits = true) :
    Layout.size line.text = 0 ↔ line.kind = .data ∧ line.statement.args = [] := by
  rw [Layout.size, show LineKind.ofLine line.text = line.kind from rfl, statement]
  cases kind : line.kind with
  | data | instruction => simp
  | blank | comment | label _ => simp [kind, LineKind.emits] at emits

section
variable {source : Text} {target : Target} (accepted : assemble source = .ok target)
include accepted

theorem entries_of_assemble :
    target.map.entries =
      (Layout.mapped (Layout.ofSource source).lines).map fun line => (line.address, line) := by
  obtain ⟨_, _, rfl⟩ := assemble_eq_ok_iff.mp accepted
  exact DebugMap.entries_ofLines (Layout.contiguous_lines source)

theorem emitted_ne_nil_iff {line : Text} (listed : line ∈ Layout.sourceLines source) :
    Layout.emitted (Layout.ofSource source).addressOf line ≠ [] ↔ 0 < Layout.size line := by
  obtain ⟨bytes, encoded⟩ := exists_assemble_iff.mp ⟨target, accepted⟩ line listed
  rw [← Layout.length_of_encodeLine encoded, ← Layout.emitted_of_encodeLine encoded,
    List.length_pos_iff]

/-- A line is in the map if it emits something, or if it is a directive that emits nothing and is
behind every other line that takes part in the program. -/
theorem mem_entries_iff {key : Nat} {line : SourceLine} :
    (key, line) ∈ target.map.entries ↔
      ∃ before after, Layout.sourceLines source = before ++ line.text :: after ∧
        line.number = before.length ∧ line.address = key ∧
        key = (before.flatMap (Layout.emitted (Layout.ofSource source).addressOf)).length ∧
        (Layout.emitted (Layout.ofSource source).addressOf line.text ≠ [] ∨
          line.kind = .data ∧ line.statement.args = [] ∧
            ∀ later ∈ after, (LineKind.ofLine later).emits = false) := by
  have fine := exists_assemble_iff.mp ⟨target, accepted⟩
  have mapped : (key, line) ∈ target.map.entries ↔
      line ∈ Layout.mapped (Layout.ofSource source).lines ∧ line.address = key := by
    rw [entries_of_assemble accepted, List.mem_map]
    constructor
    · rintro ⟨other, stays, same⟩
      cases same
      exact ⟨stays, rfl⟩
    · rintro ⟨stays, rfl⟩
      exact ⟨line, stays, rfl⟩
  rw [mapped, Layout.mem_mapped_lines_iff]
  constructor
  · rintro ⟨⟨before, after, lines, number, address, emits, stays⟩, rfl⟩
    have listed : line.text ∈ Layout.sourceLines source := by simp [lines]
    have filled := emitted_ne_nil_iff accepted listed
    rw [lines, List.forall_mem_append] at fine
    refine ⟨before, after, lines, number, rfl, ?_, ?_⟩
    · rw [address, Layout.length_flatMap_emitted fine.1]
    · by_cases taken : 0 < Layout.size line.text
      · exact .inl (filled.mpr taken)
      · obtain ⟨kind, args⟩ := (line.size_eq_zero_iff emits).mp (Nat.eq_zero_of_not_pos taken)
        exact .inr ⟨kind, args, stays.resolve_left taken⟩
  · rintro ⟨before, after, lines, number, rfl, address, stays⟩
    have listed : line.text ∈ Layout.sourceLines source := by simp [lines]
    have filled := emitted_ne_nil_iff accepted listed
    rw [lines, List.forall_mem_append] at fine
    rw [Layout.length_flatMap_emitted fine.1] at address
    refine ⟨⟨before, after, lines, number, address, ?_, ?_⟩, rfl⟩
    · obtain something | ⟨kind, -⟩ := stays
      · by_contra silent
        have silent : line.kind.emits = false := by simpa using silent
        exact something (Layout.emitted_of_not_emits silent)
      · rw [kind]
        rfl
    · exact stays.imp filled.mp fun last => last.2.2

end

/-- The debug map lists the lines that emit something, where they do, and nothing else but an empty
directive at the end. -/
theorem debug_map_exact {source : Text} {target : Target}
    (accepted : assemble source = .ok target) :
    let emitted := Layout.emitted (Layout.ofSource source).addressOf
    target.code = (Layout.sourceLines source).flatMap emitted ∧
      (∀ before text after, Layout.sourceLines source = before ++ text :: after →
        emitted text ≠ [] →
          let address := (before.flatMap emitted).length
          target.map.find? address = some ⟨before.length, address, text⟩) ∧
      (∀ key line, (key, line) ∈ target.map.entries ↔
        ∃ before after, Layout.sourceLines source = before ++ line.text :: after ∧
          line.number = before.length ∧ line.address = key ∧
          key = (before.flatMap emitted).length ∧
          (emitted line.text ≠ [] ∨
            line.kind = .data ∧ line.statement.args = [] ∧ key = target.code.length ∧
              ∀ later ∈ after, LineKind.ofLine later = .blank ∨ LineKind.ofLine later = .comment ∨
                ∃ name, LineKind.ofLine later = .label name)) ∧
      target.map.entries.Pairwise fun a b => a.1 < b.1 ∧ a.2.number < b.2.number := by
  intro emitted
  have code : target.code = (Layout.sourceLines source).flatMap emitted :=
    code_of_assemble accepted
  refine ⟨code, fun before text after lines something => ?_, fun key line => ?_, ?_⟩
  · rw [DebugMap.find?_eq_some_iff, mem_entries_iff accepted]
    exact ⟨before, after, lines, rfl, rfl, rfl, .inl something⟩
  · rw [mem_entries_iff accepted]
    simp only [← LineKind.emits_eq_false_iff]
    refine exists_congr fun before => exists_congr fun after => ?_
    refine and_congr_right fun lines => and_congr_right fun _ => and_congr_right fun _ =>
      and_congr_right fun address => ?_
    -- Of all that comes from an empty directive on, nothing is emitted if no other line emits.
    have ends (kind : line.kind = .data) (args : line.statement.args = [])
        (idle : ∀ later ∈ after, (LineKind.ofLine later).emits = false) :
        key = target.code.length := by
      have rest : after.flatMap emitted = [] :=
        List.flatMap_eq_nil_iff.mpr fun later listed =>
          Layout.emitted_of_not_emits (idle later listed)
      have own : emitted line.text = [] := by
        have empty := (line.size_eq_zero_iff (by rw [kind]; rfl)).mpr ⟨kind, args⟩
        by_contra something
        have := (emitted_ne_nil_iff accepted (by simp [lines])).mp something
        omega
      rw [address, code, lines, List.flatMap_append, List.flatMap_cons, own, rest,
        List.append_nil, List.append_nil]
    constructor
    · exact Or.imp_right fun ⟨kind, args, idle⟩ => ⟨kind, args, ends kind args idle, idle⟩
    · exact Or.imp_right fun ⟨kind, args, _, idle⟩ => ⟨kind, args, idle⟩
  · refine target.map.sorted.and ?_
    rw [entries_of_assemble accepted, List.pairwise_map]
    exact (Layout.pairwise_number_lines source).sublist (Layout.mapped_sublist _)

/-- The directive before the instruction is replaced, and the one at the end stays. -/
theorem debug_map_exact_replaced :
    let source := ".DATA\nNOPE ; hopp\nslutt:\n.DATA ,".toList
    let target : Target :=
      ⟨[0x0c, 0x00],
        ⟨[(0, ⟨1, 0, "NOPE ; hopp".toList⟩), (2, ⟨3, 2, ".DATA ,".toList⟩)], by decide⟩⟩
    assemble source = .ok target ∧
      target.map.find? 0 = some ⟨1, 0, "NOPE ; hopp".toList⟩ ∧
      ∃ before after, Layout.sourceLines source = before ++ ".DATA ,".toList :: after ∧
        before.length = 3 := by
  intro source target
  have accepted : assemble source = .ok target := by decide +kernel
  obtain ⟨-, found, entries, -⟩ := debug_map_exact accepted
  have start : ([".DATA".toList].flatMap
      (Layout.emitted (Layout.ofSource source).addressOf)).length = 0 := by decide +kernel
  have first := found [".DATA".toList] "NOPE ; hopp".toList ["slutt:".toList, ".DATA ,".toList]
    (by decide) (by decide +kernel)
  rw [start] at first
  obtain ⟨before, after, lines, number, -⟩ :=
    (entries 2 ⟨3, 2, ".DATA ,".toList⟩).mp (by decide)
  exact ⟨accepted, first, before, after, lines, number.symm⟩

end SledeMachine
