import SledeMachine.Grapheme
import SledeMachine.Utf8

/-!
A line as it was typed. A backspace takes back the cluster typed before it. What is left is
divided into words by blanks and tabs; a backslash or quotes take the meaning from the characters
that would divide, and a number sign where a word could begin makes the rest of the line a
comment. Between single quotes nothing has a meaning, between double quotes a backslash keeps its
own before all but four characters.
-/

namespace SledeMachine
namespace TypedLine

def backspace : Char := '\x08'

/-- Takes off the front the characters that hold the first so many bytes. -/
def dropBytes : Nat → Text → Text
  | _, [] => []
  | count, c :: rest => if count = 0 then c :: rest else dropBytes (count - c.utf8Size) rest

/-- What was typed so far and the sizes of its clusters, both last first. A size is kept in one
byte, so a longer cluster is taken back only by what its size exceeds a multiple of 256. -/
structure Draft where
  text : Text
  sizes : List Nat
  deriving DecidableEq, Repr

namespace Draft

def empty : Draft := ⟨[], []⟩

def type (d : Draft) (cluster : Text) : Draft :=
  if cluster = [backspace] then
    match d.sizes with
    | [] => d
    | size :: sizes => ⟨dropBytes size d.text, sizes⟩
  else ⟨cluster.reverse ++ d.text, cluster.utf8.length % 256 :: d.sizes⟩

end Draft

/-- The line that a typed line leaves. -/
def settle (typed : Text) : Text :=
  ((Grapheme.clusters typed).foldl Draft.type .empty).text.reverse

theorem text_foldl_type {clusters : List Text} (h : [backspace] ∉ clusters) (d : Draft) :
    (clusters.foldl Draft.type d).text = clusters.flatten.reverse ++ d.text := by
  induction clusters generalizing d with
  | nil => rfl
  | cons cluster rest ih =>
      obtain ⟨hne, hrest⟩ := not_or.mp (mt List.mem_cons.mpr h)
      rw [List.foldl_cons, ih hrest, Draft.type, if_neg (Ne.symm hne)]
      simp

/-- A line that was typed without a backspace stays as it is. -/
theorem settle_of_not_mem {typed : Text} (h : backspace ∉ typed) : settle typed = typed := by
  have hc : [backspace] ∉ Grapheme.clusters typed := fun hm =>
    h (Grapheme.flatten_clusters typed ▸ List.mem_flatten.mpr ⟨_, hm, List.mem_singleton_self _⟩)
  rw [settle, text_foldl_type hc, Grapheme.flatten_clusters]
  simp [Draft.empty]

/-- What the characters read so far leave open. -/
inductive Mode
  | plain
  | single
  | double
  deriving DecidableEq, Repr

/-- The words of a text that continues a line. `word` is the word begun, last character first. The
result is nothing if a quote is not closed. -/
def wordsAfter (word : Option Text) : Mode → Text → Option (List Text)
  | .plain, [] => some (word.map List.reverse).toList
  | .plain, ['\\'] => some [('\\' :: word.getD []).reverse]
  | .plain, '\\' :: c :: rest => wordsAfter (some (c :: word.getD [])) .plain rest
  | .plain, c :: rest =>
      if c = ' ' ∨ c = '\t' then
        (wordsAfter none .plain rest).map ((word.map List.reverse).toList ++ ·)
      else if c = '#' ∧ word = none then some []
      else if c = '\'' then wordsAfter (some (word.getD [])) .single rest
      else if c = '"' then wordsAfter (some (word.getD [])) .double rest
      else wordsAfter (some (c :: word.getD [])) .plain rest
  | _, [] => none
  | .single, c :: rest =>
      if c = '\'' then wordsAfter word .plain rest
      else wordsAfter (some (c :: word.getD [])) .single rest
  | .double, '\\' :: c :: rest =>
      if "$`\"\\".toList.contains c then wordsAfter (some (c :: word.getD [])) .double rest
      else wordsAfter (some (c :: '\\' :: word.getD [])) .double rest
  | .double, c :: rest =>
      if c = '"' then wordsAfter word .plain rest
      else wordsAfter (some (c :: word.getD [])) .double rest

/-- The words of a line, or nothing if a quote is not closed. -/
def words? (line : Text) : Option (List Text) := wordsAfter none .plain line

end TypedLine
end SledeMachine
