import SledeMachine.DebugMap
import SledeMachine.Proofs.Placement

/-!
Looking up lines in a debug map. The map of a list of lines has at each address the last line that
stands there. Of the lines of a layout, one that takes bytes is followed only by lines at higher
addresses, so it is the one that is found at its address, whatever empty directives stand before
it.
-/

namespace SledeMachine
namespace DebugMap

theorem lookup_cons (entry : Nat × SourceLine) (rest : List (Nat × SourceLine)) (b : Nat) :
    (entry :: rest).lookup b = if b = entry.1 then some entry.2 else rest.lookup b := by
  rw [List.lookup_cons]
  by_cases same : b = entry.1
  · simp [same]
  · simp [same, beq_eq_false_iff_ne.mpr same]

theorem lookup_insertBelow (address : Nat) (line : SourceLine) {entries : List (Nat × SourceLine)}
    (sorted : entries.Pairwise fun a b => a.1 < b.1) (b : Nat) :
    (insertBelow address line entries).lookup b =
      (entries.lookup b).or (if b = address then some line else none) := by
  induction entries with
  | nil => rw [insertBelow, lookup_cons, List.lookup_nil, Option.none_or]
  | cons first rest ih =>
      obtain ⟨above, sorted⟩ := List.pairwise_cons.mp sorted
      rw [insertBelow]
      by_cases less : address < first.1
      · rw [if_pos less, lookup_cons]
        by_cases same : b = address
        -- All entries are above the new one, so its address was free.
        · have absent : (first :: rest).lookup b = none := by
            refine List.lookup_eq_none_iff.mpr fun entry hentry => bne_iff_ne.mpr ?_
            obtain rfl | hentry := List.mem_cons.mp hentry
            · omega
            · have := above entry hentry
              omega
          rw [if_pos same, if_pos same, absent, Option.none_or]
        · rw [if_neg same, if_neg same, Option.or_none]
      · rw [if_neg less]
        by_cases taken : address = first.1
        · rw [if_pos taken]
          by_cases same : b = address
          · rw [lookup_cons, if_pos (same.trans taken), Option.some_or]
          · rw [if_neg same, Option.or_none]
        · rw [if_neg taken, lookup_cons, lookup_cons, ih sorted]
          by_cases same : b = first.1
          · rw [if_pos same, if_pos same, Option.some_or]
          · rw [if_neg same, if_neg same]

theorem find?_ofLines_cons (line : SourceLine) (rest : List SourceLine) (b : Nat) :
    (ofLines (line :: rest)).find? b =
      ((ofLines rest).find? b).or (if b = line.address then some line else none) :=
  lookup_insertBelow line.address line (ofLines rest).sorted b

theorem find?_ofLines_eq_none {lines : List SourceLine} {b : Nat}
    (h : ∀ line ∈ lines, b < line.address) : (ofLines lines).find? b = none := by
  induction lines with
  | nil => rfl
  | cons line rest ih =>
      obtain ⟨above, others⟩ := List.forall_mem_cons.mp h
      rw [find?_ofLines_cons, ih others, if_neg (Nat.ne_of_lt above), Option.none_or]

/-- A line that is found is one of the lines, and stands at the address. -/
theorem mem_of_find?_ofLines {lines : List SourceLine} {b : Nat} {line : SourceLine}
    (h : (ofLines lines).find? b = some line) : line ∈ lines ∧ line.address = b := by
  induction lines with
  | nil => cases h
  | cons first rest ih =>
      rw [find?_ofLines_cons, Option.or_eq_some_iff] at h
      obtain later | ⟨-, own⟩ := h
      · exact (ih later).imp_left (List.mem_cons_of_mem _)
      · split at own <;> cases own
        exact ⟨List.mem_cons_self, Eq.symm ‹_›⟩

/-- A line that takes bytes is the one that is found at its address. -/
theorem find?_of_contiguous {lines : List SourceLine} {address : Nat}
    (contiguous : Layout.Contiguous address lines) {line : SourceLine} (listed : line ∈ lines)
    (filled : 0 < Layout.size line.text) :
    (ofLines lines).find? line.address = some line := by
  induction lines generalizing address with
  | nil => cases listed
  | cons first rest ih =>
      rw [find?_ofLines_cons]
      obtain rfl | listed := List.mem_cons.mp listed
      · have above : ∀ other ∈ rest, line.address < other.address := fun other hother => by
          have := contiguous.2.le_address other hother
          have := contiguous.1
          omega
        rw [find?_ofLines_eq_none above, if_pos rfl, Option.none_or]
      · rw [ih contiguous.2 listed, Option.some_or]

end DebugMap
end SledeMachine
