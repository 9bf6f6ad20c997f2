import SledeMachine.Layout

/-!
The debug map of a program: for an address, the source line whose bytes begin there. Entries are
kept in the order of their addresses and no address has two. Where several lines share an address
the last of them stays.
-/

namespace SledeMachine

structure DebugMap where
  entries : List (Nat × SourceLine)
  sorted : entries.Pairwise fun a b => a.1 < b.1
  deriving DecidableEq

namespace DebugMap

def empty : DebugMap := ⟨[], .nil⟩

def find? (map : DebugMap) (address : Nat) : Option SourceLine :=
  map.entries.lookup address

/-- Adds a line to sorted entries unless its address is taken. -/
def insertBelow (address : Nat) (line : SourceLine) :
    List (Nat × SourceLine) → List (Nat × SourceLine)
  | [] => [(address, line)]
  | entry :: rest =>
      if address < entry.1 then (address, line) :: entry :: rest
      else if address = entry.1 then entry :: rest
      else entry :: insertBelow address line rest

theorem mem_insertBelow {address : Nat} {line : SourceLine} {entries : List (Nat × SourceLine)}
    {entry : Nat × SourceLine} (h : entry ∈ insertBelow address line entries) :
    entry = (address, line) ∨ entry ∈ entries := by
  induction entries with
  | nil => simpa [insertBelow] using h
  | cons first rest ih =>
      unfold insertBelow at h
      split at h
      · simpa using h
      · split at h
        · exact .inr h
        · rcases List.mem_cons.mp h with rfl | h
          · exact .inr List.mem_cons_self
          · exact (ih h).imp_right (List.mem_cons_of_mem _)

theorem sorted_insertBelow (address : Nat) (line : SourceLine)
    {entries : List (Nat × SourceLine)} (h : entries.Pairwise fun a b => a.1 < b.1) :
    (insertBelow address line entries).Pairwise fun a b => a.1 < b.1 := by
  induction entries with
  | nil => simp [insertBelow]
  | cons first rest ih =>
      obtain ⟨head, tail⟩ := List.pairwise_cons.mp h
      unfold insertBelow
      split
      · refine List.pairwise_cons.mpr ⟨fun entry hm => ?_, h⟩
        rcases List.mem_cons.mp hm with rfl | hm
        · assumption
        · exact Nat.lt_trans ‹_› (head entry hm)
      · split
        · exact h
        · refine List.pairwise_cons.mpr ⟨fun entry hm => ?_, ih tail⟩
          rcases mem_insertBelow hm with rfl | hm
          · simp only
            omega
          · exact head entry hm

/-- Adds a line at an address unless a line is there already. -/
def insertIfNew (map : DebugMap) (address : Nat) (line : SourceLine) : DebugMap :=
  ⟨insertBelow address line map.entries, sorted_insertBelow address line map.sorted⟩

/-- The map of lines at given addresses; of several at one address the last stays. -/
def ofList (lines : List (Nat × SourceLine)) : DebugMap :=
  lines.foldr (fun entry map => map.insertIfNew entry.1 entry.2) empty

/-- The map of lines that each stand at their own address. -/
def ofLines (lines : List SourceLine) : DebugMap :=
  ofList (lines.map fun line => (line.address, line))

end DebugMap
end SledeMachine
