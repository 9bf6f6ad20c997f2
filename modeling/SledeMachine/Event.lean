import SledeMachine.Assembly
import SledeMachine.Description
import SledeMachine.Run

/-!
The log. Assembling and running say what they do in events, each with a level and a text. Events
are computed beside the results they report on, from the same values, and have no influence on
them; whoever wants no log does not ask for one.
-/

namespace SledeMachine

inductive Level
  | error | warn | info | debug | trace
  deriving DecidableEq, Repr

namespace Level

/-- Levels from the most urgent on. -/
def rank : Level → Nat
  | .error => 1
  | .warn => 2
  | .info => 3
  | .debug => 4
  | .trace => 5

def name : Level → String
  | .error => "error"
  | .warn => "warn"
  | .info => "info"
  | .debug => "debug"
  | .trace => "trace"

end Level

inductive Event
  | redefined (label : Label) (old : Nat)
  | laidOut (lines labels : Nat)
  | encoded (address : Nat) (bytes : List UInt8) (line : Text)
  | assembled (size : Nat)
  | loaded (size : Nat)
  | executing (pc : Nat) (i : Instruction)
  | faulted (ticks : Nat) (fault : Fault)
  | halted (ticks : Nat)
  | leftMemory (ticks : Nat)
  | tookForImage (path : Text)
  | wrote (size : Nat) (path : Text)
  | faultLine (line : SourceLine)
  | stopped (pc : Nat)
  deriving DecidableEq, Repr

namespace Event

def level : Event → Level
  | .faultLine _ => .error
  | .redefined _ _ => .warn
  | .wrote _ _ => .info
  | .encoded _ _ _ | .executing _ _ => .trace
  | .laidOut _ _ | .assembled _ | .loaded _ | .faulted _ _ | .halted _ | .leftMemory _
  | .tookForImage _ | .stopped _ => .debug

def text : Event → Text
  | .redefined label old =>
      "label ".toList ++ label.name ++ " redefined on line ".toList ++
        Text.decimal (label.line + 1) ++ " (".toList ++ Text.address old ++ " -> ".toList ++
        Text.address label.address ++ ")".toList
  | .laidOut lines labels =>
      "preprocessed ".toList ++ Text.decimal lines ++ " lines, found ".toList ++
        Text.decimal labels ++ " labels".toList
  | .encoded address bytes line =>
      Text.address address ++ ": ".toList ++ Text.byteList bytes ++ "  ".toList ++ line
  | .assembled size => "assembled ".toList ++ Text.decimal size ++ " bytes".toList
  | .loaded size => "loaded ".toList ++ Text.decimal size ++ " bytes of program".toList
  | .executing pc i => ">>> ".toList ++ Text.address pc ++ ": ".toList ++ i.text
  | .faulted ticks fault =>
      "program faulted after ".toList ++ Text.decimal ticks ++ " ticks: ".toList ++ fault.message
  | .halted ticks => "program halted after ".toList ++ Text.decimal ticks ++ " ticks".toList
  | .leftMemory ticks =>
      "program ran off the end of memory after ".toList ++ Text.decimal ticks ++ " ticks".toList
  | .tookForImage path => path ++ " is a binary image".toList
  | .wrote size path =>
      "wrote ".toList ++ Text.decimal size ++ " bytes to ".toList ++ path
  | .faultLine line => line.citation
  | .stopped pc => "halted at pc=".toList ++ Text.address pc

end Event

namespace Label

/-- A warning for each of the labels that an earlier one names already. -/
def redefinitions (earlier : List Label) : List Label → List Event
  | [] => []
  | label :: rest =>
      let later := redefinitions (earlier ++ [label]) rest
      match addressOf earlier label.name with
      | some old => .redefined label old :: later
      | none => later

end Label

namespace Layout

def events (layout : Layout) : List Event := Label.redefinitions [] layout.labels

/-- One event for each line up to the first that has no encoding, and one for the whole if
there is none such. -/
def encodingEvents (addressOf : Text → Option Nat) (size : Nat) : List SourceLine → List Event
  | [] => [.assembled size]
  | line :: rest =>
      match line.encode addressOf with
      | .ok bytes =>
          .encoded line.address bytes line.text ::
            encodingEvents addressOf (size + bytes.length) rest
      | .error _ => []

end Layout

/-- The events of assembling a source. -/
def assemblyEvents (source : Text) : List Event :=
  let layout := Layout.ofSource source
  layout.events ++ .laidOut layout.lines.length layout.labelNames.length ::
    Layout.encodingEvents layout.addressOf Image.tag.length layout.lines

namespace Run

/-- The events of loading an image. -/
def loadEvents (image : List UInt8) : List Event :=
  match Image.program image with
  | .ok _ => [.loaded image.length]
  | .error _ => []

/-- The events of handing out the machine: only its leaving memory is one. -/
def offerEvents (r : Run) : List Event :=
  if memorySize ≤ r.machine.pc then [.leftMemory r.ticks] else []

/-- The events of the next pull. An instruction is reported before it is executed, if the word is
one. -/
def events (r : Run) : List Event :=
  match r.phase with
  | .loaded => r.offerEvents
  | .paused =>
      (r.machine.current?.map fun i => Event.executing r.machine.pc i).toList ++
        match r.machine.step r.input with
        | .running machine => { r with machine }.offerEvents
        | .halted _ => [.halted r.ticks]
        | .faulted fault _ => [.faulted r.ticks fault]
  | .halted | .faulted => []

end Run
end SledeMachine
