import SledeMachine.CommandLine.Arguments
import SledeMachine.CommandLine.Task
import SledeMachine.Directory
import SledeMachine.Listing
import SledeMachine.Shell

/-!
The five commands. Each reads its files through a given function and answers with what it wrote
and how it ended, or with what it still needs: a file to be written, or lines to be read. A
program file is an image if it begins with the tag and is taken for source text otherwise.
-/

namespace SledeMachine
namespace CommandLine

abbrev Reader := Text → Except FileError (List UInt8)

/-- A binary image, and its debug map if it was assembled from source. -/
structure Program where
  image : List UInt8
  map : DebugMap
  deriving DecidableEq

def readFile (read : Reader) (path : Text) : Task (List UInt8) :=
  Task.ofExcept (fun e => ⟨"failed to read ".toList ++ path, some e.message⟩) (read path)

def assembleFile (path source : Text) : Task Target := do
  Task.write ((assemblyEvents source).map .log)
  Task.ofExcept (fun e => ⟨"failed to assemble ".toList ++ path, some e.message⟩)
    (assemble source)

def openProgram (read : Reader) (path : Text) : Task Program := do
  let bytes ← readFile read path
  if Image.tag.isPrefixOf bytes then
    Task.write [.log (.tookForImage path)]
    return ⟨bytes, .empty⟩
  else
    let source ← Task.ofExcept
      (fun e : Utf8.Error =>
        ⟨path ++ " is neither an image nor UTF-8 source".toList, some e.message⟩)
      (Utf8.decode bytes)
    let target ← assembleFile path source
    return ⟨target.image, target.map⟩

def readInput (read : Reader) (source : Option InputSource) : Task (List UInt8) :=
  match source with
  | some (.text text) => return text.utf8
  | some (.file path) => readFile read path
  | none => return []

/-- The program of an execution, loaded with its input and budget, and its debug map. -/
def prepare (read : Reader) (x : Execution) : Task (Run × DebugMap) := do
  let program ← openProgram read x.program
  let input ← readInput read x.input
  Task.write ((Run.loadEvents program.image).map .log)
  let run ← Task.ofExcept (fun e : LoadError => ⟨e.message, none⟩)
    (Run.load program.image input.toArray)
  return (run.withMaxTicks x.maxTicks, program.map)

/-- The failure of a command by a fault, after the source line at fault if it is known. -/
def failWith (map : DebugMap) (fault : Fault) : Task Unit := do
  match fault.pc?.bind map.find? with
  | some line => Task.write [.log (.faultLine line)]
  | none => pure ()
  Task.fail fault.message none

def runProgram (read : Reader) (x : Execution) (hex : Bool) : Task Unit := do
  let (run, map) ← prepare read x
  let (log, fault, last) :=
    run.drain (fun (log : Array Piece) before _ => log ++ before.events.map Piece.log) #[]
  Task.write log.toList
  match fault with
  | some fault => failWith map fault
  | none =>
      let bytes := last.machine.output.toList
      Task.write
        [ if hex then .outLine (Text.byteList bytes) else .out bytes,
          .log (.stopped last.machine.pc) ]

/-- The two lines for a snapshot. -/
def snapshotLines (map : DebugMap) (m : Machine) : Transcript :=
  [ .outLine (m.describe map),
    .outLine ("    regs=".toList ++ Text.byteList m.registers.values.toList ++ " in=".toList ++
      Text.decimal m.inputPos ++ " out=".toList ++ Text.byteList m.output.toList ++
      " stack=".toList ++ Text.decimal m.calls.length) ]

/-- What is written for a pull. Every pull but the first waits for the clock. -/
def pullLines (map : DebugMap) (period : Option Nat) (before : Run) (pull : Pull) :
    Transcript :=
  let wait :=
    match period with
    | some nanoseconds => if before.phase = .loaded then [] else [Piece.wait nanoseconds]
    | none => []
  let lines :=
    match pull with
    | some (.ok m) => wait ++ snapshotLines map m
    | some (.error _) => wait
    | none => []
  before.events.map Piece.log ++ lines

def traceProgram (read : Reader) (x : Execution) (rate : Option Rate) : Task Unit := do
  let (run, map) ← prepare read x
  let period ←
    match rate with
    | some rate =>
        some <$> Task.ofExcept (fun e : RateError => ⟨e.message, e.cause?⟩) rate.period
    | none => pure none
  let (written, fault, last) :=
    run.drain
      (fun (acc : Array Piece) before pull => acc ++ pullLines map period before pull) #[]
  Task.write written.toList
  match fault with
  | some fault => failWith map fault
  | none => pure ()
  match last.final? with
  | some m =>
      Task.write
        [.outLine ("halted at pc=".toList ++ Text.address m.pc ++ " after ".toList ++
          Text.decimal last.ticks ++ " ticks, output ".toList ++ Text.byteList m.output.toList)]
  | none => pure ()

def listProgram (read : Reader) (path : Text) : Task Unit := do
  let program ← openProgram read path
  match Image.program? program.image with
  | some code =>
      Task.write ((disassemble program.map code).map fun row => .outLine row.display)
  | none => Task.fail LoadError.unsupportedFormat.message none

/-- The image that the source file assembles to. The text of a file that is not UTF-8 is not
examined further. -/
def assembleSource (read : Reader) (path : Text) : Task (List UInt8) := do
  let bytes ← readFile read path
  let source ← Task.ofExcept
    (fun _ : Utf8.Error =>
      ⟨"failed to read ".toList ++ path, some "stream did not contain valid UTF-8".toList⟩)
    (Utf8.decode bytes)
  return (← assembleFile path source).image

/-- What is left to do for a command. -/
inductive Reply
  | done (report : Report)
  /-- A file is to be written. -/
  | write (written : Transcript) (path : Text) (bytes : List UInt8)
  /-- A debugging session is to be held. -/
  | converse (written : Transcript) (session : Session)

def defaultOutput (source : Text) : Text := Path.withExtension source "s8".toList

def reply (read : Reader) (command : Command) : Reply :=
  match command with
  | .asm source output =>
      let task := assembleSource read source
      match task.result with
      | .ok image => .write task.written (output.getD (defaultOutput source)) image
      | .error _ => .done (task.bind fun _ => Task.pure ()).report
  | .run x hex => .done (runProgram read x hex).report
  | .trace x rate => .done (traceProgram read x rate).report
  | .debug x =>
      let task := prepare read x
      match task.result with
      | .ok (run, map) => .converse task.written ⟨run, map⟩
      | .error _ => .done (task.bind fun _ => Task.pure ()).report
  | .disasm program => .done (listProgram read program).report

/-- The report on a command whose file was written or could not be. -/
def afterWrite {α : Type} (written : Transcript) (path : Text) (size : Nat)
    (outcome : Except FileError α) : Report :=
  let task : Task Unit := do
    Task.write written
    let _ ← Task.ofExcept
      (fun e : FileError => ⟨"failed to write ".toList ++ path, some e.message⟩) outcome
    Task.write [.log (.wrote size path)]
  task.report

/-- The lines of the text that a session reads. -/
def inputLines (t : Text) : List Text :=
  match t.splitOn '\n' with
  | [] => []
  | lines =>
      let ended := lines.dropLast.map fun line =>
        if line.getLast? = some '\r' then line.dropLast else line
      let last := lines.getLastD []
      ended ++ if last = [] then [] else [last]

/-- Carries out a command in a directory, with the text that it may read lines from. -/
def execute (directory : Directory) (input : Text) (command : Command) : Report × Directory :=
  match reply directory.read command with
  | .done report => (report, directory)
  | .write written path bytes =>
      let outcome := directory.write path bytes
      let after :=
        match outcome with
        | .ok changed => changed
        | .error _ => directory
      (afterWrite written path bytes.length outcome, after)
  | .converse written session =>
      (⟨written ++ (session.hold .terminal (inputLines input)).2, 0⟩, directory)

end CommandLine
end SledeMachine
