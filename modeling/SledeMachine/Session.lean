import SledeMachine.Transcript

/-!
Debugging sessions: single steps through a program by commands that are read line by line. What
command a line stands for is told by a shell. Commands that inspect the machine, and lines that
stand for no command, leave the run as it is; only stepping and continuing pull. All that a session
writes goes to the diagnostics.
-/

namespace SledeMachine

structure Session where
  run : Run
  map : DebugMap
  deriving DecidableEq

namespace Session

inductive Command
  | step
  | proceed
  | registers
  | peek
  | backtrace
  | output
  | halt
  | help
  | quit
  deriving DecidableEq, Repr

namespace Command

def name : Command → Text
  | .step => "s".toList
  | .proceed => "c".toList
  | .registers => "pr".toList
  | .peek => "peek".toList
  | .backtrace => "bt".toList
  | .output => "out".toList
  | .halt => "halt".toList
  | .help => "help".toList
  | .quit => "quit".toList

/-- The arguments that a command asks for, or nothing if it takes any. -/
def arguments : Command → Option (List Text)
  | .peek => some ["addr:String".toList]
  | .help | .quit => none
  | _ => some []

end Command

/-- What makes commands of typed lines. A line that stands for none is answered with some lines. -/
structure Shell where
  /-- The words of a typed line. -/
  words : Text → Except (List Text) (List Text)
  /-- The command that words ask for, with its arguments. -/
  resolve : List Text → Except (List Text) (Command × List Text)
  /-- What is shown on request. -/
  help : List Text

/-- What a typed line asks for. -/
def Shell.read (shell : Shell) (typed : Text) : Except (List Text) (Command × List Text) := do
  shell.resolve (← shell.words typed)

/-- What is written for a pull, given the run after it. -/
def endLines (map : DebugMap) (pull : Pull) (after : Run) : Transcript :=
  match pull with
  | some (.ok _) => []
  | some (.error fault) =>
      .err ("error: ".toList ++ fault.message) ::
        match fault.pc?.bind map.find? with
        | some line => [.err ("  at ".toList ++ line.citation)]
        | none => []
  | none =>
      [.err ("program halted at pc=".toList ++ Text.address after.machine.pc ++
        " after ".toList ++ Text.decimal after.ticks ++ " ticks".toList)]

/-- Pulls once. The result says whether there was a snapshot. -/
def step (s : Session) : Bool × Session × Transcript :=
  let (pull, after) := s.run.next
  let written := s.run.events.map .log ++ endLines s.map pull after
  (pull matches some (.ok _), { s with run := after }, written)

/-- Pulls until there is no snapshot. -/
def runOn (s : Session) : Session × Transcript :=
  let (log, fault, last) :=
    s.run.drain (fun (log : Array Piece) before _ => log ++ before.events.map Piece.log) #[]
  ({ s with run := last }, log.toList ++ endLines s.map (fault.map .error) last)

def registerLines (s : Session) : Transcript :=
  let m := s.run.machine
  let rows := (List.finRange 16).map fun r =>
    Piece.err ('r' :: Text.fillRight ' ' 2 (Text.decimal r.val) ++ '=' ::
      Text.byte (m.registers.get r) ++ " (".toList ++
      Text.decimal (m.registers.get r).toNat ++ ")".toList)
  rows ++
    [ .err ("pc=".toList ++ Text.address m.pc),
      .err ("flag=".toList ++ (if m.flag then "true" else "false").toList),
      .err ("ticks=".toList ++ Text.decimal s.run.ticks) ]

/-- The address that a token names: a literal inside memory. -/
def addressOf? (token : Text) : Option Nat :=
  match Literal.ofToken? token with
  | some value => if 0 ≤ value ∧ value < memorySize then some value.toNat else none
  | none => none

def peekLines (s : Session) (token : Text) : Transcript :=
  match addressOf? token with
  | some a =>
      [.err (Text.address a ++ '=' :: Text.byte (s.run.machine.memory.read a))]
  | none => [.err ("Error: not an address: ".toList ++ token)]

/-- The calls not yet returned from, innermost first; each stands one word before its return
address. -/
def callLines (s : Session) : Transcript :=
  (s.run.machine.calls.zipIdx).map fun (back, depth) =>
    let site := back - 2
    let source :=
      match s.map.find? site with
      | some line => "  ".toList ++ line.citation
      | none => []
    .err ('#' :: Text.decimal depth ++ ' ' :: Text.address site ++ source)

def outputLines (s : Session) : Transcript :=
  let bytes := s.run.machine.output.toList
  [.err (Text.byteList bytes), .err (Utf8.lossy bytes)]

/-- Carries out a command with the right number of arguments. The result says whether the session
goes on. -/
def perform (shell : Shell) (s : Session) (command : Command) (args : List Text) :
    Bool × Session × Transcript :=
  match command with
  | .step =>
      let (_, after, written) := s.step
      (true, after, written)
  | .proceed =>
      let (after, written) := s.runOn
      (true, after, written)
  | .registers => (true, s, s.registerLines)
  | .peek => (true, s, args.flatMap s.peekLines)
  | .backtrace => (true, s, s.callLines)
  | .output => (true, s, s.outputLines)
  | .help => (true, s, shell.help.map .err)
  | .halt | .quit => (false, s, [])

/-- Answers a line as it was typed. The result says whether the session goes on. -/
def answer (shell : Shell) (s : Session) (typed : Text) : Bool × Session × Transcript :=
  match shell.read typed with
  | .ok (command, args) => s.perform shell command args
  | .error shown => (true, s, shown.map .err)

/-- Whether the program has ended. -/
def ended (s : Session) : Bool :=
  match s.run.phase with
  | .loaded | .paused => false
  | .halted | .faulted => true

/-- What is written before a line is read. -/
def prompt (s : Session) : Transcript :=
  [.err "Next instruction:".toList, .err (s.run.machine.describe s.map)]

/-- Reads lines until the program has ended, a command ends the session or no line is left. -/
def converse (shell : Shell) (s : Session) (lines : List Text) : Session × Transcript :=
  if s.ended then (s, [.err []])
  else match lines with
    | [] => (s, .err [] :: s.prompt)
    | line :: rest =>
        let (more, after, written) := s.answer shell line
        if more then
          let (last, later) := after.converse shell rest
          (last, .err [] :: s.prompt ++ written ++ later)
        else (after, .err [] :: s.prompt ++ written)

/-- Opens a session on a freshly loaded program by stopping at its first instruction. The result
says whether it has one. -/
def start (s : Session) : Bool × Session × Transcript :=
  let (more, first, written) := s.step
  (more, first, .err "SLEDE8 Debug REPL".toList :: written)

/-- A whole session over the given lines. -/
def hold (shell : Shell) (s : Session) (lines : List Text) : Session × Transcript :=
  let (more, first, opening) := s.start
  if more then
    let (last, later) := first.converse shell lines
    (last, opening ++ later)
  else (first, opening)

end Session
end SledeMachine
