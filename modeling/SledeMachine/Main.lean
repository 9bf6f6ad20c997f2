import SledeMachine.CommandLine.Commands
import SledeMachine.CommandLine.Usage

/-!
The program itself: it reads the files that a command asks for, carries the command out and prints
its transcript as it goes. A debugging session reads its lines one by one.
-/

namespace SledeMachine
namespace CommandLine

/-- A failure of the system by its number. Some numbers arrive negated. -/
def errorOfCode (code : UInt32) (details : String) : FileError :=
  let number := if code < 0x80000000 then code else 0 - code
  match number with
  | 2 => .notFound
  | 20 => .notDirectory
  | 21 => .isDirectory
  | 36 => .nameTooLong
  | _ => .other (details ++ " (os error " ++ toString number ++ ")").toList

def fileError (e : IO.Error) : FileError :=
  match e with
  | .noFileOrDirectory _ code details | .inappropriateType _ code details
  | .permissionDenied _ code details | .invalidArgument _ code details
  | .alreadyExists _ code details | .resourceExhausted _ code details =>
      errorOfCode code details
  | .unsupportedOperation code details | .hardwareFault code details
  | .resourceBusy code details | .otherError code details => errorOfCode code details
  | other => .other other.toString.toList

def readPath (path : Text) : IO (Except FileError (List UInt8)) := do
  try
    let bytes ← IO.FS.readBinFile (String.ofList path)
    return .ok bytes.toList
  catch e => return .error (fileError e)

def writePath (path : Text) (bytes : List UInt8) : IO (Except FileError Unit) := do
  try
    IO.FS.writeBinFile (String.ofList path) bytes.toByteArray
    return .ok ()
  catch e => return .error (fileError e)

def printPiece (threshold : Level) (piece : Piece) : IO Unit := do
  match piece with
  | .out bytes =>
      let out ← IO.getStdout
      out.write bytes.toByteArray
      out.flush
  | .err line => IO.eprintln (String.ofList line)
  | .log event =>
      match Piece.logLine threshold event with
      | some line => IO.eprintln (String.ofList line)
      | none => return
  | .wait nanoseconds => IO.sleep (UInt32.ofNat (nanoseconds / 1000000))

def printTranscript (threshold : Level) (t : Transcript) : IO Unit :=
  t.forM (printPiece threshold)

/-- The files that a command reads. -/
def inputPaths : Command → List Text
  | .asm source _ => [source]
  | .disasm program => [program]
  | .run x _ | .trace x _ | .debug x =>
      match x.input with
      | some (.file path) => [x.program, path]
      | _ => [x.program]

partial def converseLoop (threshold : Level) (s : Session) : IO Unit := do
  IO.eprintln ""
  if s.ended then return
  printTranscript threshold s.prompt
  let line ← (← IO.getStdin).getLine
  if line.isEmpty then return
  let (more, after, written) := s.answer .terminal ((inputLines line.toList).headD [])
  printTranscript threshold written
  if more then converseLoop threshold after

def converse (threshold : Level) (s : Session) : IO Unit := do
  let (more, first, opening) := s.start
  printTranscript threshold opening
  if more then converseLoop threshold first

def printReport (threshold : Level) (report : Report) : IO UInt32 := do
  printTranscript threshold report.transcript
  return UInt32.ofNat report.exit

def runMain (args : List String) : IO UInt32 := do
  match parse (args.map String.toList) with
  | .error refusal => printReport .info refusal.report
  | .ok invocation =>
      let contents ← (inputPaths invocation.command).mapM fun path => do
        return (path, ← readPath path)
      let read : Reader := fun path => (contents.lookup path).getD (.error .notFound)
      match reply read invocation.command with
      | .done report => printReport invocation.threshold report
      | .write written path bytes =>
          let outcome ← writePath path bytes
          printReport invocation.threshold (afterWrite written path bytes.length outcome)
      | .converse written session =>
          printTranscript invocation.threshold written
          converse invocation.threshold session
          return 0

end CommandLine
end SledeMachine

def main (args : List String) : IO UInt32 := SledeMachine.CommandLine.runMain args
