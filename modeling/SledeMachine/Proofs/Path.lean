import Mathlib.Data.List.Basic
import Mathlib.Data.List.Induction
import SledeMachine.Proofs.Directory
import SledeMachine.Proofs.NormalForm

/-!
The file name of a path, and what becomes of it with another extension. A path either leads to no
file name, and then it stays as it is, or its last component that leads anywhere is the name: then
the new path is put together from the components before it and the changed name.
-/

namespace SledeMachine

namespace Text

theorem takeWhile_reverse_append_cons {c : Char} {piece : Text} (inside : c ∉ piece)
    (front : Text) : (front ++ c :: piece).reverse.takeWhile (· ≠ c) = piece.reverse := by
  have apart : ∀ d ∈ piece.reverse, decide (d ≠ c) = true := by
    intro d hd
    refine decide_eq_true ?_
    rintro rfl
    exact inside (List.mem_reverse.mp hd)
  rw [List.reverse_append, List.reverse_cons, List.append_assoc,
    List.takeWhile_append_of_pos apart]
  simp

theorem intercalate_concat_append (separator : Text) (lead : List Text) (piece last : Text) :
    separator.intercalate (lead ++ [piece ++ last]) =
      separator.intercalate (lead ++ [piece]) ++ last := by
  induction lead with
  | nil => simp only [List.nil_append, List.intercalate_singleton]
  | cons first lead ih =>
      rw [List.cons_append, List.cons_append, List.intercalate_cons_of_ne_nil (by simp), ih,
        List.intercalate_cons_of_ne_nil (by simp), ← List.append_assoc]

/-- What is put behind a text without a separator belongs to its last piece. -/
theorem exists_splitOn_append (c : Char) (front : Text) :
    ∃ lead piece, ∀ last, c ∉ last → (front ++ last).splitOn c = lead ++ [piece ++ last] := by
  obtain none | ⟨lead, piece, pieces⟩ := List.eq_nil_or_concat' (front.splitOn c)
  · exact absurd none (List.splitOn_ne_nil c front)
  · refine ⟨lead, piece, fun last inside => ?_⟩
    have whole : front = [c].intercalate (lead ++ [piece]) := by
      rw [← pieces, List.intercalate_splitOn]
    rw [whole, ← intercalate_concat_append, List.splitOn_intercalate c ?_ (by simp)]
    intro line mem
    obtain mem | mem := List.mem_append.mp mem
    · exact not_mem_of_mem_splitOn (pieces ▸ List.mem_append_left _ mem)
    · have own : c ∉ piece := not_mem_of_mem_splitOn (pieces ▸ List.mem_concat_self)
      rw [List.mem_singleton.mp mem, List.mem_append, not_or]
      exact ⟨own, inside⟩

end Text

namespace Path

/-- A path that leads to no file name: all of it is skipped, or it goes up at its end. -/
def Nameless (path : Text) : Prop :=
  ∃ lead skipped : List Text, path.splitOn '/' = lead ++ skipped ∧
    (∀ c ∈ skipped, c = [] ∨ c = ['.']) ∧ (lead = [] ∨ ∃ above, lead = above ++ [['.', '.']])

/-- A path that leads to a file name, with the components before it and those that are skipped
behind it. -/
structure Named (path : Text) (lead : List Text) (name : Text) (skipped : List Text) : Prop where
  splits : path.splitOn '/' = lead ++ name :: skipped
  skips : ∀ c ∈ skipped, c = [] ∨ c = ['.']
  proper : IsName name

variable {path name extension : Text} {lead skipped : List Text}

theorem components_eq (parts : path.splitOn '/' = lead ++ skipped)
    (skips : ∀ c ∈ skipped, c = [] ∨ c = ['.'])
    (ends : ∀ last ∈ lead.getLast?, ¬ (last = [] ∨ last = ['.'])) :
    components path = lead.reverse := by
  have all : ∀ c ∈ skipped.reverse, decide (c = [] ∨ c = ['.']) = true :=
    fun c mem => decide_eq_true (skips c (List.mem_reverse.mp mem))
  rw [components, parts, List.reverse_append, List.dropWhile_append_of_pos all]
  obtain rfl | ⟨above, last, rfl⟩ := List.eq_nil_or_concat' lead
  · rfl
  · have last : ¬ (last = [] ∨ last = ['.']) := ends last (by simp)
    rw [List.reverse_concat, List.dropWhile_cons_of_neg (by simpa using last)]

theorem nameless_or_named (path : Text) :
    Nameless path ∨ ∃ lead name skipped, Named path lead name skipped := by
  have split : path.splitOn '/' = path.splitOn '/' ++ [] := (List.append_nil _).symm
  have none : ∀ c ∈ ([] : List Text), c = [] ∨ c = ['.'] := by simp
  -- The induction takes the skipped components off the end, one at a time.
  suffices ∀ lead skipped, path.splitOn '/' = lead ++ skipped →
      (∀ c ∈ skipped, c = [] ∨ c = ['.']) →
      Nameless path ∨ ∃ lead name skipped, Named path lead name skipped from
    this _ _ split none
  intro lead
  induction lead using List.reverseRecOn with
  | nil => exact fun skipped parts skips => .inl ⟨[], skipped, parts, skips, .inl rfl⟩
  | append_singleton lead last ih =>
      intro skipped parts skips
      by_cases skip : last = [] ∨ last = ['.']
      · refine ih (last :: skipped) (parts.trans (List.append_cons _ _ _).symm) fun c mem => ?_
        obtain rfl | mem := List.mem_cons.mp mem
        · exact skip
        · exact skips c mem
      by_cases up : last = ['.', '.']
      · exact .inl ⟨lead ++ [last], skipped, parts, skips, .inr ⟨lead, up ▸ rfl⟩⟩
      · have parts : path.splitOn '/' = lead ++ last :: skipped :=
          parts.trans (List.append_cons _ _ _).symm
        exact .inr ⟨lead, last, skipped, parts, skips, by simp_all [IsName]⟩

theorem Nameless.exists_getLast? (nameless : Nameless path) :
    ∃ last, ¬ IsName last ∧ (path.splitOn '/').getLast? = some last := by
  obtain ⟨lead, skipped, parts, skips, ends⟩ := nameless
  obtain rfl | ⟨before, last, rfl⟩ := List.eq_nil_or_concat' skipped
  · obtain rfl | ⟨above, rfl⟩ := ends
    · exact absurd parts (List.splitOn_ne_nil '/' path)
    · exact ⟨['.', '.'], by decide, by rw [parts, List.append_nil, List.getLast?_concat]⟩
  · refine ⟨last, ?_, by rw [parts, ← List.append_assoc, List.getLast?_concat]⟩
    obtain rfl | rfl := skips last List.mem_concat_self <;> decide

/-- Nothing is read from a path without a file name. -/
theorem Nameless.read_ne_ok (nameless : Nameless path) (d : Directory) (bytes : List UInt8) :
    d.read path ≠ .ok bytes := by
  intro held
  obtain ⟨name, last, proper⟩ := Directory.getLast?_of_read held
  obtain ⟨_, improper, last'⟩ := nameless.exists_getLast?
  obtain rfl := Option.some.inj (last.symm.trans last')
  exact improper proper

theorem Nameless.withExtension_eq_self (nameless : Nameless path) (extension : Text) :
    withExtension path extension = path := by
  obtain ⟨_, skipped, parts, skips, rfl | ⟨above, rfl⟩⟩ := nameless
  · rw [withExtension, components_eq parts skips (by simp)]
    rfl
  · rw [withExtension, components_eq parts skips (by simp), List.reverse_concat]
    exact if_pos rfl

theorem Named.withExtension_eq (named : Named path lead name skipped) (extension : Text) :
    withExtension path extension =
      ['/'].intercalate (lead ++ [stem name ++ '.' :: extension]) := by
  have proper := named.proper
  simp only [IsName, List.mem_cons, List.not_mem_nil, or_false, not_or] at proper
  have parts : path.splitOn '/' = (lead ++ [name]) ++ skipped :=
    named.splits.trans (List.append_cons _ _ _)
  have read : components path = name :: lead.reverse := by
    rw [components_eq parts named.skips (by simpa using ⟨proper.1, proper.2.1⟩),
      List.reverse_concat]
  rw [withExtension, read]
  simp only [if_neg proper.2.2, List.reverse_cons, List.reverse_reverse]

theorem stem_append {before : Text} (filled : before ≠ []) (point : '.' ∉ extension) :
    stem (before ++ '.' :: extension) = before := by
  have last : ((before ++ '.' :: extension).reverse.takeWhile (· ≠ '.')).length =
      extension.length := by
    rw [Text.takeWhile_reverse_append_cons point, List.length_reverse]
  have length : (before ++ '.' :: extension).length - extension.length - 1 = before.length := by
    rw [List.length_append, List.length_cons]
    omega
  simp only [stem, last, length, List.take_left]
  refine if_neg ?_
  rintro (short | empty)
  · rw [List.length_append, List.length_cons] at short
    omega
  · exact filled empty

theorem stem_of_ne_nil (filled : name ≠ []) : stem name ≠ [] ∧ stem name <+: name := by
  simp only [stem]
  split_ifs with whole
  · exact ⟨filled, List.prefix_refl name⟩
  · exact ⟨fun empty => whole (.inr empty), List.take_prefix _ _⟩

theorem Named.filled (named : Named path lead name skipped) : name ≠ [] := by
  rintro rfl
  exact named.proper List.mem_cons_self

theorem Named.not_mem_stem (named : Named path lead name skipped) : '/' ∉ stem name := by
  have inside : '/' ∉ name :=
    Text.not_mem_of_mem_splitOn (named.splits ▸ List.mem_append_right _ List.mem_cons_self)
  exact fun found => inside ((stem_of_ne_nil named.filled).2.subset found)

theorem Named.splitOn_withExtension (named : Named path lead name skipped)
    (slash : '/' ∉ extension) :
    (withExtension path extension).splitOn '/' = lead ++ [stem name ++ '.' :: extension] := by
  rw [named.withExtension_eq, List.splitOn_intercalate '/' ?_ (by simp)]
  intro piece mem
  obtain mem | mem := List.mem_append.mp mem
  · exact Text.not_mem_of_mem_splitOn (named.splits ▸ List.mem_append_left _ mem)
  · simp only [List.mem_singleton.mp mem, List.mem_append, List.mem_cons, not_or]
    exact ⟨named.not_mem_stem, by decide, slash⟩

/-- A path stays as it is if it has no name to extend, or gets the extension that it has, behind a
name that is not empty. -/
theorem withExtension_eq_self_iff (filled : extension ≠ []) (point : '.' ∉ extension)
    (slash : '/' ∉ extension) :
    withExtension path extension = path ↔
      Nameless path ∨ ∃ front c, c ≠ '/' ∧ path = front ++ c :: '.' :: extension := by
  constructor
  · intro same
    obtain nameless | ⟨lead, name, skipped, named⟩ := nameless_or_named path
    · exact .inl nameless
    obtain empty | ⟨before, c, last⟩ := List.eq_nil_or_concat' (stem name)
    · exact absurd empty (stem_of_ne_nil named.filled).1
    refine .inr ⟨['/'].intercalate (lead ++ [before]), c, ?_, ?_⟩
    · rintro rfl
      exact named.not_mem_stem (last ▸ List.mem_concat_self)
    · rw [← same, named.withExtension_eq, last, List.append_assoc,
        Text.intercalate_concat_append]
      rfl
  · rintro (nameless | ⟨front, c, hc, rfl⟩)
    · exact nameless.withExtension_eq_self extension
    obtain ⟨lead, piece, split⟩ := Text.exists_splitOn_append '/' front
    have parts := split (c :: '.' :: extension) (by simp [hc.symm, slash])
    -- The name is longer than any component that is none.
    have long : 3 ≤ (piece ++ c :: '.' :: extension).length := by
      have := List.length_pos_iff.mpr filled
      simp only [List.length_append, List.length_cons]
      omega
    have short : ∀ other ∈ ([[], ['.'], ['.', '.']] : List Text), other.length < 3 := by decide
    have named : Named (front ++ c :: '.' :: extension) lead (piece ++ c :: '.' :: extension) [] :=
      ⟨parts, by simp, fun mem => absurd (short _ mem) (by omega)⟩
    have stemmed : stem (piece ++ c :: '.' :: extension) = piece ++ [c] := by
      rw [List.append_cons]
      exact stem_append (by simp) point
    rw [named.withExtension_eq, stemmed, ← List.append_cons, ← parts, List.intercalate_splitOn]

end Path
end SledeMachine
