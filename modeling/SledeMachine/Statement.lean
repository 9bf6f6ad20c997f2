import SledeMachine.Text

/-!
Statements: an opcode and its arguments, as the words of a line. A line is read up to the first
semicolon. Its first word is the opcode; in what follows, white space counts for nothing and
commas part the arguments, of which empty ones are dropped. Every line is a statement, if one
without a meaning, and a statement is written back as the opcode and a list of arguments.
-/

namespace SledeMachine

structure Statement where
  opcode : Text
  args : List Text
  deriving DecidableEq, Repr

namespace Statement

/-- The part of a line before the comment, from its first word on. -/
def code (line : Text) : Text :=
  (line.takeWhile (· ≠ ';')).dropWhile Text.isBlank

def ofLine (line : Text) : Statement where
  opcode := (code line).takeWhile fun c => !Text.isBlank c
  args :=
    let rest := ((code line).dropWhile fun c => !Text.isBlank c).filter fun c => !Text.isBlank c
    (rest.splitOn ',').filter (· ≠ [])

/-- The line that shows a statement: an opcode alone, or followed by its arguments. -/
def text (s : Statement) : Text :=
  match s.args with
  | [] => s.opcode
  | args => s.opcode ++ ' ' :: Text.commaList args

end Statement
end SledeMachine
