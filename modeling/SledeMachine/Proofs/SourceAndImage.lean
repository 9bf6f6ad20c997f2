import SledeMachine.Proofs.Completion
import SledeMachine.Proofs.OutputFile

/-!
A source file and the image that it is assembled to. A program that was opened from the one and a
program that was opened from the other differ in nothing but the debug map, and the debug map is
only asked for the source lines that traces cite and that go to the log. So running either prints
the same, and tracing either prints the same lines, of which some cite a source line in the one.
-/

namespace SledeMachine
namespace CommandLine

section
variable {read : Reader} {path source : Text} {target : Target}

theorem assembleFile_of_ok (path : Text) (accepted : assemble source = .ok target) :
    assembleFile path source = ⟨(assemblyEvents source).map .log, .ok target⟩ := by
  simp only [assembleFile, accepted, Task.write, Task.ofExcept, bind, Task.bind, Except.mapError,
    List.append_nil]

theorem openProgram_source (text : read path = .ok source.utf8)
    (accepted : assemble source = .ok target) :
    openProgram read path =
      ⟨(assemblyEvents source).map .log, .ok ⟨target.image, target.map⟩⟩ := by
  have kind : Image.tag.isPrefixOf source.utf8 = false := by
    rw [Bool.eq_false_iff, ne_eq, List.isPrefixOf_iff_prefix]
    exact (not_tagged_of_assemble accepted).2
  simp only [openProgram, readFile, text, Task.ofExcept, bind, Task.bind, Except.mapError, kind,
    Utf8.decode_utf8, assembleFile_of_ok path accepted, pure, Task.pure]
  simp

theorem openProgram_image {image : List UInt8} (bytes : read path = .ok image)
    (tagged : Image.tag <+: image) :
    openProgram read path = ⟨[.log (.tookForImage path)], .ok ⟨image, .empty⟩⟩ := by
  have kind : Image.tag.isPrefixOf image = true := List.isPrefixOf_iff_prefix.mpr tagged
  simp only [openProgram, readFile, bytes, Task.ofExcept, bind, Task.bind, Except.mapError, kind,
    Task.write, pure, Task.pure, if_true]
  simp

theorem logs_readInput (read : Reader) (input : Option InputSource) :
    (readInput read input).written.Logs := by
  obtain _ | (text | path) := input <;> exact Transcript.logs_nil

end

/-- The failure by a fault prints nothing, whatever line is known. -/
theorem failWith_alike {same : List UInt8 → List UInt8 → Prop} {related : Unit → Unit → Prop}
    (map map' : DebugMap) (fault : Fault) :
    Task.Alike same related (failWith map fault) (failWith map' fault) := by
  have fails (map : DebugMap) :
      (failWith map fault).written.printed = [] ∧ ∃ e, (failWith map fault).result = .error e := by
    rw [failWith]
    split <;> exact ⟨rfl, _, rfl⟩
  obtain ⟨quiet, e, failed⟩ := fails map
  obtain ⟨quiet', e', failed'⟩ := fails map'
  refine ⟨?_, .inr ⟨e, e', failed, failed'⟩⟩
  rw [quiet, quiet']
  exact .nil

/-- What a description says before the source line. -/
def described (address : Nat) (word instruction : Text) : Text :=
  "[pc=".toList ++ Text.address address ++ "] ".toList ++ word ++ " --> ".toList ++ instruction

/-- What a description says of the source line. -/
def cited (map : DebugMap) (address : Nat) : Text :=
  match map.find? address with
  | some line => "    ; ".toList ++ line.citation
  | none => []

/-- What a description says after the source line. -/
def flagMark (flag : Bool) : Text := if flag then "  [flag]".toList else []

/-- A line with and without the source line that it cites, which is that of the address. -/
inductive Annotates (map : DebugMap) : Text → Text → Prop
  | plain (line : Text) : Annotates map line line
  | cited {address : Nat} {line : SourceLine} (listed : map.find? address = some line)
      (word instruction : Text) (flag : Bool) :
      Annotates map
        (described address word instruction ++ ("    ; ".toList ++ line.citation) ++ flagMark flag)
        (described address word instruction ++ flagMark flag)

/-- What a description says of the instruction that is next. -/
inductive Shows (m : Machine) : Text → Prop
  | instruction {i : Instruction} (next : m.current? = some i) : Shows m i.text
  | invalid (unknown : m.current? = none) : Shows m "<invalid>".toList

theorem Shows.eq_text {m : Machine} {i : Instruction} {t : Text} (shows : Shows m t)
    (next : m.current? = some i) : t = i.text := by
  cases shows with
  | instruction other => rw [Option.some.inj (other.symm.trans next)]
  | invalid unknown => cases unknown.symm.trans next

/-- What a description shows of the instruction. -/
def shown (m : Machine) : Text :=
  match m.current? with
  | some i => i.text
  | none => "<invalid>".toList

theorem shows_shown (m : Machine) : Shows m (shown m) := by
  rw [shown]
  cases next : m.current? with
  | some i => exact .instruction next
  | none => exact .invalid next

theorem describe_eq (map : DebugMap) (m : Machine) :
    m.describe map = described m.pc (Text.hex 4 m.word.toNat) (shown m) ++ cited map m.pc ++
      flagMark m.flag := rfl

theorem annotates_describe (map : DebugMap) (m : Machine) :
    Annotates map (m.describe map) (m.describe .empty) := by
  have nothing : cited .empty m.pc = [] := rfl
  rw [describe_eq, describe_eq, nothing, List.append_nil, cited]
  cases listed : map.find? m.pc with
  | none =>
      rw [List.append_nil]
      exact .plain _
  | some line => exact .cited listed _ (shown m) m.flag

/-- Lines that are printed at the same place, of which the first may cite its source. -/
def Cites (map : DebugMap) (bytes bytes' : List UInt8) : Prop :=
  ∃ line line', Annotates map line line' ∧
    bytes = (line ++ ['\n']).utf8 ∧ bytes' = (line' ++ ['\n']).utf8

theorem Cites.plain (map : DebugMap) (line : Text) :
    Cites map (line ++ ['\n']).utf8 (line ++ ['\n']).utf8 :=
  ⟨line, line, .plain line, rfl, rfl⟩

/-- A pull is written as nothing but logs and pauses, and behind them the lines of a snapshot. -/
theorem printed_pullLines (map : DebugMap) (period : Option Nat) (before : Run) (pull : Pull) :
    Transcript.printed (pullLines map period before pull) =
      match pull with
      | some (.ok m) => Transcript.printed (snapshotLines map m)
      | _ => [] := by
  unfold pullLines
  rw [Transcript.printed_append, Transcript.printed_log, List.nil_append]
  by_cases fresh : before.phase = .loaded
  all_goals
    simp only [fresh, if_true, if_false]
    obtain _ | (fault | m) := pull <;> cases period <;> rfl

theorem pullLines_alike (map : DebugMap) (period : Option Nat) (before : Run) (pull : Pull) :
    List.Forall₂ (Cites map) (Transcript.printed (pullLines map period before pull))
      (Transcript.printed (pullLines .empty period before pull)) := by
  rw [printed_pullLines, printed_pullLines]
  obtain _ | (fault | m) := pull
  · exact .nil
  · exact .nil
  · exact .cons ⟨_, _, annotates_describe map m, rfl, rfl⟩ (.cons (.plain map _) .nil)

/-- The clock of a trace at a rate, or none. -/
def clock (rate : Option Rate) : Task (Option Nat) :=
  match rate with
  | some rate => some <$> Task.ofExcept (fun e : RateError => ⟨e.message, e.cause?⟩) rate.period
  | none => pure none

/-- What a trace ends with. -/
def endTrace (map : DebugMap) (fault : Option Fault) (last : Run) : Task Unit := do
  match fault with
  | some fault => failWith map fault
  | none => pure ()
  match last.final? with
  | some m =>
      Task.write
        [.outLine ("halted at pc=".toList ++ Text.address m.pc ++ " after ".toList ++
          Text.decimal last.ticks ++ " ticks, output ".toList ++ Text.byteList m.output.toList)]
  | none => pure ()

/-- A trace from a prepared run on, with its period. -/
def traceFrom (map : DebugMap) (period : Option Nat) (run : Run) : Task Unit := do
  let (written, fault, last) :=
    run.drain (fun (acc : Array Piece) before pull => acc ++ pullLines map period before pull) #[]
  Task.write written.toList
  endTrace map fault last

theorem traceProgram_eq (read : Reader) (x : Execution) (rate : Option Rate) :
    traceProgram read x rate =
      prepare read x >>= fun (run, map) =>
        clock rate >>= fun period => traceFrom map period run := by
  cases rate <;> rfl

theorem silent_clock (rate : Option Rate) : (clock rate).written.printed = [] := by
  cases rate with
  | none => rfl
  | some rate =>
      rw [clock]
      cases rate.period <;> rfl

theorem endTrace_alike (map map' : DebugMap) (fault : Option Fault) (last : Run) :
    Task.Alike (Cites map) Eq (endTrace map fault last) (endTrace map' fault last) := by
  have closing : Task.Alike (Cites map) Eq (endTrace map none last) (endTrace map none last) := by
    unfold endTrace
    dsimp only
    split
    · exact Task.Alike.write (.cons (.plain map _) .nil)
    · exact Task.Alike.of_silent rfl
  cases fault with
  | none => exact closing
  | some fault => exact (failWith_alike map map' fault).bind fun _ _ (_ : True) => closing

theorem traceFrom_alike (map : DebugMap) (period : Option Nat) (run : Run) :
    Task.Alike (Cites map) Eq (traceFrom map period run) (traceFrom .empty period run) := by
  let related (s t : Array Piece) : Prop :=
    List.Forall₂ (Cites map) (Transcript.printed s.toList) (Transcript.printed t.toList)
  have keeps (s t : Array Piece) (before : Run) (pull : Pull) (h : related s t) :
      related (s ++ pullLines map period before pull)
        (t ++ pullLines .empty period before pull) := by
    simp only [related, Array.toList_appendList, Transcript.printed_append]
    exact List.rel_append h (pullLines_alike map period before pull)
  -- The run does not depend on what is noted of it, so both traces come to the same end.
  obtain ⟨lines, rest⟩ := Run.drain_related keeps (s := #[]) (t := #[]) .nil run
  simp only [traceFrom, ← rest]
  exact (Task.Alike.write lines).bind fun _ _ _ => endTrace_alike map .empty _ _

section
variable {read : Reader} {path other source : Text} {target : Target}
  (text : read path = .ok source.utf8) (accepted : assemble source = .ok target)
  (image : read other = .ok target.image) {input : Option InputSource} {maxTicks : Nat}
include text accepted image

/-- Runs are prepared from a source and from its image to be the same, but for the debug map. -/
theorem prepare_alike {same : List UInt8 → List UInt8 → Prop} :
    Task.Alike same (fun p q => p.1 = q.1 ∧ p.2 = target.map ∧ q.2 = .empty)
      (prepare read ⟨path, input, maxTicks⟩) (prepare read ⟨other, input, maxTicks⟩) := by
  have opened : Task.Alike same
      (fun p q => p = ⟨target.image, target.map⟩ ∧ q = ⟨target.image, .empty⟩)
      (openProgram read path) (openProgram read other) := by
    rw [openProgram_source text accepted, openProgram_image image (List.prefix_append _ _)]
    refine ⟨?_, .inl ⟨_, _, rfl, rfl, rfl, rfl⟩⟩
    rw [Transcript.printed_log]
    exact .nil
  refine opened.bind ?_
  rintro _ _ ⟨rfl, rfl⟩
  refine (Task.Alike.of_silent (logs_readInput read input).printed).bind ?_
  rintro bytes _ rfl
  refine (Task.Alike.of_silent (Transcript.printed_log _)).bind ?_
  rintro _ _ -
  refine (Task.Alike.ofExcept _ _).bind ?_
  rintro run _ rfl
  exact ⟨.nil, .inl ⟨_, _, rfl, rfl, rfl, rfl, rfl⟩⟩

theorem runProgram_alike (hex : Bool) :
    Task.Alike Eq Eq (runProgram read ⟨path, input, maxTicks⟩ hex)
      (runProgram read ⟨other, input, maxTicks⟩ hex) := by
  refine (prepare_alike text accepted image).bind ?_
  rintro ⟨run, map⟩ ⟨_, _⟩ ⟨rfl, -, -⟩
  dsimp only
  generalize run.drain _ _ = ended
  obtain ⟨log, fault, last⟩ := ended
  refine (Task.Alike.write (List.forall₂_refl _)).bind ?_
  rintro _ _ -
  cases fault with
  | some fault => exact failWith_alike _ _ fault
  | none => exact Task.Alike.write (List.forall₂_refl _)

theorem traceProgram_alike (rate : Option Rate) :
    Task.Alike (Cites target.map) Eq (traceProgram read ⟨path, input, maxTicks⟩ rate)
      (traceProgram read ⟨other, input, maxTicks⟩ rate) := by
  rw [traceProgram_eq, traceProgram_eq]
  refine (prepare_alike text accepted image).bind ?_
  rintro ⟨run, _⟩ ⟨_, _⟩ ⟨rfl, rfl, rfl⟩
  refine (Task.Alike.of_silent (silent_clock rate)).bind ?_
  rintro period _ rfl
  exact traceFrom_alike _ _ _

end

/-- Lines one below the other, as they are printed. -/
def printedLines (lines : List Text) : List UInt8 :=
  lines.flatMap fun line => Text.utf8 (line ++ ['\n'])

theorem exists_printedLines {map : DebugMap} {pieces pieces' : List (List UInt8)}
    (h : List.Forall₂ (Cites map) pieces pieces') :
    ∃ lines lines', List.Forall₂ (Annotates map) lines lines' ∧
      pieces.flatten = printedLines lines ∧ pieces'.flatten = printedLines lines' := by
  induction h with
  | nil => exact ⟨[], [], .nil, rfl, rfl⟩
  | cons first _ ih =>
      obtain ⟨line, line', annotates, rfl, rfl⟩ := first
      obtain ⟨lines, lines', rest, printed, printed'⟩ := ih
      exact ⟨line :: lines, line' :: lines', .cons annotates rest, by simp [printedLines, printed],
        by simp [printedLines, printed']⟩

/-- Assembling writes the image to the file that the output leads to, and leaves the source. -/
theorem execute_asm {d : Directory} {path source name : Text} {output : Option Text}
    {target : Target} (text : d.read path = .ok source.utf8)
    (accepted : assemble source = .ok target)
    (leads : d.resolve (output.getD (defaultOutput path)) = .ok (.entry name false))
    (input : Text) :
    (execute d input (.asm path output)).1.exit = 0 ∧
      (execute d input (.asm path output)).2 = d.put name target.image := by
  obtain ⟨after, wrote, exit, rfl⟩ | ⟨e, failed, -⟩ :=
    execute_asm_of_assembles ⟨source, text, accepted⟩ input output
  · rw [Directory.write_eq_put leads] at wrote
    exact ⟨exit, (Except.ok.inj wrote).symm⟩
  · rw [Directory.write_eq_put leads] at failed
    cases failed

/-- An image that was assembled from a source file runs as the source file does. -/
theorem image_runs_as_source {d : Directory} {path source name : Text} {output : Option Text}
    {target : Target} (text : d.read path = .ok source.utf8)
    (accepted : assemble source = .ok target)
    (leads : d.resolve (output.getD (defaultOutput path)) = .ok (.entry name false))
    (elsewhere : d.resolve path ≠ .ok (.entry name false)) (typed : Text) :
    let other := output.getD (defaultOutput path)
    let made := execute d typed (.asm path output)
    let report (command : Command) := (execute made.2 typed command).1
    (¬ Image.tagText <+: source ∧ ¬ Image.tag <+: source.utf8 ∧ Image.tag <+: target.image) ∧
      (made.1.exit = 0 ∧ made.2.read path = .ok source.utf8 ∧
        made.2.read other = .ok target.image) ∧
      ((openProgram made.2.read path).result = .ok ⟨target.image, target.map⟩ ∧
        (openProgram made.2.read other).result = .ok ⟨target.image, .empty⟩) ∧
      ∀ (input : Option InputSource) (maxTicks : Nat),
        (∀ hex,
          let own := report (.run ⟨path, input, maxTicks⟩ hex)
          let also := report (.run ⟨other, input, maxTicks⟩ hex)
          own.transcript.output = also.transcript.output ∧ own.exit = also.exit) ∧
        ∀ rate,
          let own := report (.trace ⟨path, input, maxTicks⟩ rate)
          let also := report (.trace ⟨other, input, maxTicks⟩ rate)
          own.exit = also.exit ∧ ∃ lines lines', List.Forall₂ (Annotates target.map) lines lines' ∧
            own.transcript.output = printedLines lines ∧
            also.transcript.output = printedLines lines' := by
  intro other made report
  obtain ⟨exit, after⟩ := execute_asm text accepted leads typed
  have kept : made.2.read path = .ok source.utf8 := by
    rw [after]
    exact Directory.read_put_of_ne text elsewhere _
  have image : made.2.read other = .ok target.image := by
    rw [after]
    exact Directory.read_put leads _
  have tagged : Image.tag <+: target.image := List.prefix_append _ _
  obtain ⟨noTag, noTagBytes⟩ := not_tagged_of_assemble accepted
  refine ⟨⟨noTag, noTagBytes, tagged⟩, ⟨exit, kept, image⟩, ?_, fun input maxTicks => ⟨?_, ?_⟩⟩
  · rw [openProgram_source kept accepted, openProgram_image image tagged]
    exact ⟨rfl, rfl⟩
  · intro hex own also
    obtain ⟨exits, printed⟩ := (runProgram_alike kept accepted image hex).report
    rw [Transcript.output_eq_flatten, Transcript.output_eq_flatten]
    exact ⟨congrArg _ (List.forall₂_eq_eq_eq ▸ printed), exits⟩
  · intro rate own also
    obtain ⟨exits, printed⟩ := (traceProgram_alike kept accepted image rate).report
    rw [Transcript.output_eq_flatten, Transcript.output_eq_flatten]
    exact ⟨exits, exists_printedLines printed⟩

/-- Without a given output the image goes beside the source. -/
theorem image_runs_as_source_beside :
    let source : Text := "SKRIV r2\nSTOPP".toList
    let target : Target :=
      ⟨[0x16, 0x02, 0x00, 0x00],
        ⟨[(0, ⟨0, 0, "SKRIV r2".toList⟩), (2, ⟨1, 2, "STOPP".toList⟩)], by decide⟩⟩
    let path := "p.asm".toList
    let name := "p.s8".toList
    let d : Directory := ⟨[(path, source.utf8)]⟩
    let made := execute d [] (.asm path none)
    let report (program : Text) := (execute made.2 [] (.run ⟨program, none, 1000⟩ false)).1
    (d.read path = .ok source.utf8 ∧ assemble source = .ok target ∧
        d.resolve (defaultOutput path) = .ok (.entry name false) ∧
        d.resolve path ≠ .ok (.entry name false)) ∧
      made.2.read name = .ok target.image ∧
      (report path).transcript.output = (report name).transcript.output := by
  intro source target path name d made report
  have text : d.read path = .ok source.utf8 := by decide +kernel
  have accepted : assemble source = .ok target := by decide +kernel
  have leads : d.resolve (defaultOutput path) = .ok (.entry name false) := by decide +kernel
  have elsewhere : d.resolve path ≠ .ok (.entry name false) := by decide +kernel
  obtain ⟨-, ⟨-, -, image⟩, -, same⟩ :=
    @image_runs_as_source d path source name none target text accepted leads elsewhere []
  exact ⟨⟨text, accepted, leads, elsewhere⟩, image, ((same none 1000).1 false).1⟩

end CommandLine
end SledeMachine
