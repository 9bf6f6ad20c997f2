import SledeMachine.Session
import SledeMachine.TypedLine

/-!
The shell of a terminal. A line is divided into words as it was typed, and its first word stands for
the command whose name it begins, if there is exactly one. What is wrong with a line is said in
answer to it.
-/

namespace SledeMachine
namespace Session

namespace Command

/-- Every command, sorted by name. -/
def all : List Command :=
  [.backtrace, .proceed, .halt, .help, .output, .peek, .registers, .quit, .step]

def summary : Command → Text
  | .step => "Step one instruction".toList
  | .proceed => "Continue until the program halts or faults".toList
  | .registers => "Print the value of all registers".toList
  | .peek => "Peek a value from memory".toList
  | .backtrace => "Print the call stack".toList
  | .output => "Print everything written so far".toList
  | .halt => "Stop debugging".toList
  | .help => "Show this help message".toList
  | .quit => "Quit repl".toList

/-- The commands whose names begin with a word. -/
def candidates (word : Text) : List Command := all.filter fun c => word.isPrefixOf c.name

end Command

namespace Shell

def helpLines : List Text :=
  "Available commands:".toList ::
    Command.all.map fun c =>
      "  ".toList ++ Text.fillRight ' ' 17
        (c.name ++ ' ' :: " ".toList.intercalate (c.arguments.getD [])) ++ c.summary

def arityLines (command : Command) (expected : List Text) (got : Nat) : List Text :=
  [ "Error: wrong number of arguments: got ".toList ++ Text.decimal got ++
      ", expected ".toList ++ Text.decimal expected.length,
    "Usage:".toList,
    "  ".toList ++ command.name ++ ' ' :: " ".toList.intercalate expected ]

def unknownLines (word : Text) (candidates : List Command) : List Text :=
  let names :=
    if candidates.length ≤ 1 then []
    else "Candidates:".toList :: candidates.map fun c => "  ".toList ++ c.name
  ("Command not found: ".toList ++ word) :: names ++
    ["Use 'help' to see available commands.".toList]

/-- The words of a line as it was typed. A blank line has none. -/
def typedWords (typed : Text) : Except (List Text) (List Text) :=
  let line := TypedLine.settle typed
  if line.all Text.isBlank then .ok []
  else match TypedLine.words? line with
    | some words => .ok words
    | none => .error ["Error: missing closing quote".toList]

/-- The command that words name, with the arguments they give it. -/
def resolveWords : List Text → Except (List Text) (Command × List Text)
  | [] => .error []
  | word :: args =>
      match Command.candidates word with
      | [command] =>
          match command.arguments with
          | some expected =>
              if args.length = expected.length then .ok (command, args)
              else .error (arityLines command expected args.length)
          | none => .ok (command, args)
      | candidates => .error (unknownLines word candidates)

def terminal : Shell where
  words := typedWords
  resolve := resolveWords
  help := helpLines

end Shell
end Session
end SledeMachine
