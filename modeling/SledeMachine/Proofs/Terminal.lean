import Mathlib.Data.List.Nodup
import SledeMachine.Proofs.ScriptLine
import SledeMachine.Shell

/-!
The shell of a terminal is one that a session can rely on. Quotes, backslashes, comments and
backspaces have their own meaning in a line; in a line without them blanks and tabs part the words.
A command is found among those whose names begin with a word if it is the only one there.
-/

namespace SledeMachine
namespace Session

section
variable {word : Text} {command : Command}

namespace Command

theorem mem_candidates : command ∈ candidates word ↔ word <+: command.name := by
  have listed : command ∈ all := by cases command <;> decide
  rw [candidates, List.mem_filter, List.isPrefixOf_iff_prefix]
  exact and_iff_right listed

theorem candidates_eq_singleton_iff : candidates word = [command] ↔ Named word command := by
  constructor
  · intro single
    have member (other : Command) : word <+: other.name ↔ other = command := by
      rw [← mem_candidates, single, List.mem_singleton]
    exact ⟨(member command).mpr rfl, fun other => (member other).mp⟩
  · rintro ⟨begins, only⟩
    have distinct : (candidates word).Nodup := List.Nodup.filter _ (by decide)
    refine List.perm_singleton.mp ((List.perm_ext_iff_of_nodup distinct (by simp)).mpr ?_)
    intro other
    rw [mem_candidates, List.mem_singleton]
    exact ⟨only other, fun same => same ▸ begins⟩

end Command

theorem wordsAfter_cons {c : Char} (plain : ordinary c = true) (begun : Option Text) (rest : Text) :
    TypedLine.wordsAfter begun .plain (c :: rest) =
      if c = ' ' ∨ c = '\t' then
        (TypedLine.wordsAfter none .plain rest).map ((begun.map List.reverse).toList ++ ·)
      else TypedLine.wordsAfter (some (c :: begun.getD [])) .plain rest := by
  simp only [ordinary, decide_eq_true_eq, List.mem_cons, not_or] at plain
  obtain ⟨escape, mark, single, double, -⟩ := plain
  rw [TypedLine.wordsAfter]
  · simp [mark, single, double]
  · exact fun same _ => escape same
  · exact fun _ _ same _ => escape same

theorem exists_pieces (t : Text) : ∃ first more, pieces t = first :: more :=
  List.exists_cons_of_ne_nil (List.splitOnP_ne_nil _ t)

/-- The word that is begun goes on with the first piece. -/
theorem wordsAfter_of_ordinary {t : Text} (plain : t.all ordinary = true) {begun : Option Text}
    (filled : begun ≠ some []) {first : Text} {more : List Text}
    (parts : pieces t = first :: more) :
    TypedLine.wordsAfter begun .plain t =
      some ((((begun.getD []).reverse ++ first) :: more).filter (· ≠ [])) := by
  induction t generalizing begun first more with
  | nil =>
      obtain ⟨rfl, rfl⟩ := List.cons.inj (List.splitOnP_nil.symm.trans parts)
      cases begun with
      | none => rfl
      | some word =>
          have filled : word ≠ [] := by simpa using filled
          simp [TypedLine.wordsAfter, filled]
  | cons c t ih =>
      rw [List.all_cons, Bool.and_eq_true] at plain
      obtain ⟨next, rest, later⟩ := exists_pieces t
      rw [pieces, List.splitOnP_cons_eq_if_modifyHead, ← pieces, later] at parts
      rw [wordsAfter_cons plain.1]
      split
      · rename_i blank
        rw [if_pos (decide_eq_true blank)] at parts
        obtain ⟨rfl, rfl⟩ := List.cons.inj parts
        rw [ih plain.2 (by simp) later]
        cases begun with
        | none => simp
        | some word =>
            have filled : word ≠ [] := by simpa using filled
            simp [filled]
      · rename_i solid
        rw [if_neg (by simpa using solid)] at parts
        obtain ⟨rfl, rfl⟩ := List.cons.inj parts
        rw [ih plain.2 (by simp) later]
        simp

namespace Shell

theorem typedWords_of_blank {typed : Text} (blank : typed.all Text.isBlank = true) :
    typedWords typed = .ok [] := by
  have kept : TypedLine.settle typed = typed := by
    refine TypedLine.settle_of_not_mem fun found => ?_
    exact absurd (List.all_eq_true.mp blank _ found) (by decide)
  simp only [typedWords, kept, blank, if_true]

theorem typedWords_of_ordinary {typed : Text} (plain : typed.all ordinary = true)
    (filled : typed.all Text.isBlank = false) :
    typedWords typed = .ok ((pieces typed).filter (· ≠ [])) := by
  have kept : TypedLine.settle typed = typed := by
    refine TypedLine.settle_of_not_mem fun found => ?_
    exact absurd (List.all_eq_true.mp plain _ found) (by decide)
  obtain ⟨first, more, parts⟩ := exists_pieces typed
  have read : TypedLine.words? typed = some ((pieces typed).filter (· ≠ [])) := by
    rw [TypedLine.words?, wordsAfter_of_ordinary plain (by simp) parts, parts]
    rfl
  simp only [typedWords, kept, filled, read, Bool.false_eq_true, if_false]

theorem resolveWords_of_named (named : Command.Named word command) (args : List Text) :
    resolveWords (word :: args) =
      match command.arguments with
      | some expected =>
          if args.length = expected.length then .ok (command, args)
          else .error (arityLines command expected args.length)
      | none => .ok (command, args) := by
  have single := Command.candidates_eq_singleton_iff.mpr named
  cases asks : command.arguments <;> simp only [resolveWords, single, asks]

theorem lawful_terminal : terminal.Lawful where
  blank := typedWords_of_blank
  parted := typedWords_of_ordinary
  wordless := ⟨[], rfl⟩
  named named takes := by
    refine (resolveWords_of_named named _).trans ?_
    split
    · rename_i expected asks
      exact if_pos (takes expected asks)
    · rfl
  miscounted := by
    intro word command args named miscounts
    have read := resolveWords_of_named named args
    cases asks : command.arguments with
    | none => simp [Command.Takes, asks] at miscounts
    | some expected =>
        have differ : args.length ≠ expected.length := by
          simpa [Command.Takes, asks] using miscounts
        rw [asks] at read
        exact ⟨_, read.trans (if_neg differ)⟩
  unresolved := by
    intro word args unknown
    refine ⟨unknownLines word (Command.candidates word), ?_⟩
    change resolveWords (word :: args) = _
    rw [resolveWords]
    split
    · rename_i command single
      exact absurd (Command.candidates_eq_singleton_iff.mp single) (unknown command)
    · rfl

end Shell

end

end Session
end SledeMachine
