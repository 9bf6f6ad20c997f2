import SledeMachine.Event
import SledeMachine.Rate

/-!
The arguments of the command line. Options may stand before and after positional arguments; a
value follows its option as the next argument, after an equals sign, or, for an option of one
letter, at once. Every argument after a lone `--` is positional. Each command has its own options;
those on logging are understood by all of them and before the command as well, and then what
follows the command counts.
-/

namespace SledeMachine
namespace CommandLine

inductive InputSource
  | text (text : Text)
  | file (path : Text)
  deriving DecidableEq, Repr

/-- What is to be run, on which input and for how long. -/
structure Execution where
  program : Text
  input : Option InputSource
  maxTicks : Nat
  deriving DecidableEq, Repr

inductive Command
  | asm (source : Text) (output : Option Text)
  | run (execution : Execution) (hex : Bool)
  | trace (execution : Execution) (rate : Option Rate)
  | debug (execution : Execution)
  | disasm (program : Text)
  deriving DecidableEq, Repr

structure Invocation where
  /-- The least urgent level of log records that are shown. -/
  threshold : Level
  command : Command
  deriving DecidableEq, Repr

/-- Why arguments are no invocation: they are wrong, or they ask for information. -/
inductive Refusal
  | usage
  | help
  | version
  deriving DecidableEq, Repr

/-- A number below 2^64 in decimal, with at most a plus sign. -/
def count? (t : Text) : Option Nat :=
  let digits :=
    match t with
    | '+' :: rest => rest
    | rest => rest
  let value := Nat.ofDigitChars 10 digits 0
  if digits ≠ [] ∧ digits.all Char.isDigit ∧ value < Nat.pow 2 64 then some value else none

inductive Switch
  | verbose | quiet | help | version | output | input | inputFile | maxTicks | hex | hz
  deriving DecidableEq, Repr

namespace Switch

def name : Switch → Text
  | .verbose => "verbose".toList
  | .quiet => "quiet".toList
  | .help => "help".toList
  | .version => "version".toList
  | .output => "output".toList
  | .input => "input".toList
  | .inputFile => "input-file".toList
  | .maxTicks => "max-ticks".toList
  | .hex => "hex".toList
  | .hz => "hz".toList

def letter : Switch → Option Char
  | .verbose => some 'v'
  | .quiet => some 'q'
  | .help => some 'h'
  | .version => some 'V'
  | .output => some 'o'
  | _ => none

def takesValue : Switch → Bool
  | .output | .input | .inputFile | .maxTicks | .hz => true
  | .verbose | .quiet | .help | .version | .hex => false

/-- Whether a text is a value for the switch. A path has at least one character. -/
def accepts (s : Switch) (value : Text) : Bool :=
  match s with
  | .output | .inputFile => value ≠ []
  | .maxTicks => (count? value).isSome
  | .hz => (Binary64.ofText? value).isSome
  | _ => true

end Switch

/-- The switches found so far, with their values, and the positional arguments. -/
structure Found where
  switches : List (Switch × Text)
  positional : List Text
  deriving DecidableEq, Repr

namespace Found

def empty : Found := ⟨[], []⟩

def has (found : Found) (s : Switch) : Bool := found.switches.any (·.1 = s)

def value? (found : Found) (s : Switch) : Option Text := found.switches.lookup s

def count (found : Found) (s : Switch) : Nat := found.switches.countP (·.1 = s)

/-- Takes note of a switch. None but the verbose one may be repeated. -/
def note (found : Found) (s : Switch) (value : Text) : Except Refusal Found :=
  match s with
  | .help => .error .help
  | .version => .error .version
  | _ =>
      if (s ≠ .verbose ∧ found.has s) ∨ ¬ s.accepts value then .error .usage
      else .ok { found with switches := found.switches ++ [(s, value)] }

/-- Reads the body of an argument that begins with two dashes. A switch whose value is still to
come is handed back. -/
def long (allowed : List Switch) (found : Found) (body : Text) :
    Except Refusal (Found × Option Switch) := do
  match allowed.find? fun s => s.name = body.takeWhile (· ≠ '=') with
  | none => throw .usage
  | some s =>
      match s.takesValue, body.dropWhile (· ≠ '=') with
      | true, [] => return (found, some s)
      | true, _ :: value => return (← found.note s value, none)
      | false, [] => return (← found.note s [], none)
      | false, _ :: _ => throw .usage

/-- Reads the letters of an argument that begins with one dash. -/
def letters (allowed : List Switch) (found : Found) :
    List Char → Except Refusal (Found × Option Switch)
  | [] => .ok (found, none)
  | c :: rest =>
      match allowed.find? fun s => s.letter = some c with
      | none => .error .usage
      | some s =>
          if s.takesValue then
            match rest with
            | [] => .ok (found, some s)
            | '=' :: value => (found.note s value).map fun f => (f, none)
            | value => (found.note s value).map fun f => (f, none)
          else
            match found.note s [] with
            | .ok found => letters allowed found rest
            | .error e => .error e

/-- Scans arguments. `pending` is a switch that the last one left without its value. With `stop`,
scanning ends at the first positional argument, which is left over with all that follow it; else
a second one is refused where it stands. -/
def scan (allowed : List Switch) (stop : Bool) (pending : Option Switch) (found : Found) :
    List Text → Except Refusal (Found × List Text)
  | [] => if pending.isSome then .error .usage else .ok (found, [])
  | arg :: rest =>
      match pending, arg with
      | some s, _ =>
          if arg.head? = some '-' ∧ arg ≠ ['-'] then .error .usage
          else
            match found.note s arg with
            | .ok found => scan allowed stop none found rest
            | .error e => .error e
      | none, ['-', '-'] =>
          if stop then .error .usage
          else .ok ({ found with positional := found.positional ++ rest }, [])
      | none, '-' :: '-' :: body =>
          match found.long allowed body with
          | .ok (found, pending) => scan allowed stop pending found rest
          | .error e => .error e
      | none, '-' :: c :: cs =>
          match found.letters allowed (c :: cs) with
          | .ok (found, pending) => scan allowed stop pending found rest
          | .error e => .error e
      | none, _ =>
          if stop then .ok (found, arg :: rest)
          else if found.positional ≠ [] then .error .usage
          else scan allowed stop none { found with positional := [arg] } rest

/-- The one positional argument that every command takes, a path. -/
def path (found : Found) : Except Refusal Text :=
  match found.positional with
  | [p] => if p = [] then .error .usage else .ok p
  | _ => .error .usage

def execution (found : Found) : Except Refusal Execution := do
  let program ← found.path
  let input ←
    match found.value? .input, found.value? .inputFile with
    | some _, some _ => throw .usage
    | some text, none => pure (some (InputSource.text text))
    | none, some path => pure (some (InputSource.file path))
    | none, none => pure none
  let maxTicks := ((found.value? .maxTicks).bind count?).getD defaultMaxTicks
  return { program, input, maxTicks }

/-- The threshold that logging switches ask for before and after the command. -/
def threshold (before after : Found) : Level :=
  if before.has .quiet ∨ after.has .quiet then .warn
  else
    let verbosity := if after.has .verbose then after.count .verbose else before.count .verbose
    match verbosity with
    | 0 => .info
    | 1 => .debug
    | _ => .trace

end Found

def logging : List Switch := [.verbose, .quiet, .help]

def executing : List Switch := logging ++ [.input, .inputFile, .maxTicks]

def commandNames : List Text :=
  ["asm", "run", "trace", "debug", "disasm", "help"].map String.toList

/-- The command of a name, on the arguments that follow it. Help may be asked for on one command. -/
def readCommand (name : Text) (args : List Text) : Except Refusal (Found × Command) := do
  if name = "asm".toList then
    let (found, _) ← Found.empty.scan (logging ++ [.output]) false none args
    return (found, .asm (← found.path) (found.value? .output))
  else if name = "run".toList then
    let (found, _) ← Found.empty.scan (executing ++ [.hex]) false none args
    return (found, .run (← found.execution) (found.has .hex))
  else if name = "trace".toList then
    let (found, _) ← Found.empty.scan (executing ++ [.hz]) false none args
    return (found, .trace (← found.execution) ((found.value? .hz).bind Binary64.ofText?))
  else if name = "debug".toList then
    let (found, _) ← Found.empty.scan executing false none args
    return (found, .debug (← found.execution))
  else if name = "disasm".toList then
    let (found, _) ← Found.empty.scan logging false none args
    return (found, .disasm (← found.path))
  else if name = "help".toList then
    match args with
    | [] => throw .help
    | [topic] => if topic ∈ commandNames then throw .help else throw .usage
    | _ => throw .usage
  else throw .usage

/-- The invocation that arguments stand for. -/
def parse (args : List Text) : Except Refusal Invocation := do
  let (before, rest) ← Found.empty.scan (logging ++ [.version]) true none args
  match rest with
  | [] => throw .usage
  | name :: rest =>
      let (after, command) ← readCommand name rest
      return { threshold := Found.threshold before after, command }

end CommandLine
end SledeMachine
