import SledeMachine.Proofs.SourceAndImage
import SledeMachine.Proofs.Visits

/-!
Running and tracing side by side. Both prepare a program in the same way, pull it until it ends and
log each pull alike. A run prints what the program has written, once it has halted; a trace prints
every snapshot on the way and at last a line about the halt. What keeps the one from its end keeps
the other from it, and both say so in the same words.
-/

namespace SledeMachine

namespace Transcript

/-- What is left of a transcript without its pauses. -/
def unpaced (t : Transcript) : Transcript :=
  t.filter fun
    | .wait _ => false
    | _ => true

theorem unpaced_append (s t : Transcript) : unpaced (s ++ t) = unpaced s ++ unpaced t :=
  List.filter_append _ _

theorem unpaced_flatMap {α : Type} (f : α → Transcript) (xs : List α) :
    unpaced (xs.flatMap f) = xs.flatMap fun x => unpaced (f x) :=
  List.filter_flatMap

theorem unpaced_log (events : List Event) : unpaced (events.map .log) = events.map .log := by
  simp [unpaced]

theorem output_append (s t : Transcript) : output (s ++ t) = output s ++ output t :=
  List.flatMap_append

theorem diagnostics_append (threshold : Level) (s t : Transcript) :
    diagnostics threshold (s ++ t) = diagnostics threshold s ++ diagnostics threshold t :=
  List.flatMap_append

theorem diagnostics_flatMap {α : Type} (threshold : Level) (f : α → Transcript) (xs : List α) :
    diagnostics threshold (xs.flatMap f) = xs.flatMap fun x => diagnostics threshold (f x) :=
  List.flatMap_assoc

theorem printed_flatMap {α : Type} (f : α → Transcript) (xs : List α) :
    printed (xs.flatMap f) = xs.flatMap fun x => printed (f x) :=
  List.filterMap_flatMap ..

end Transcript

namespace CommandLine
open Transcript

section
variable (map : DebugMap) (period : Option Nat) (before : Run) (pull : Pull)

/-- A pause is all that a period adds to what is written for a pull. -/
theorem unpaced_pullLines :
    unpaced (pullLines map period before pull) = pullLines map none before pull := by
  unfold pullLines
  rw [unpaced_append, unpaced_log]
  by_cases fresh : before.phase = .loaded
  all_goals
    simp only [fresh, if_true, if_false]
    obtain _ | (fault | m) := pull <;> cases period <;> rfl

/-- A pull is logged in a trace as it is in a run. -/
theorem diagnostics_pullLines (threshold : Level) :
    diagnostics threshold (pullLines map period before pull) =
      diagnostics threshold (before.events.map .log) := by
  unfold pullLines
  rw [diagnostics_append, List.append_right_eq_self]
  by_cases fresh : before.phase = .loaded
  all_goals
    simp only [fresh, if_true, if_false]
    obtain _ | (fault | m) := pull <;> cases period <;> rfl

end

/-- What a run writes on the way to its end. -/
def runPieces (seen : List (Run × Pull)) : Transcript :=
  seen.flatMap fun pulled => pulled.1.events.map .log

/-- What a trace writes on the way to the end. -/
def tracePieces (map : DebugMap) (period : Option Nat) (seen : List (Run × Pull)) : Transcript :=
  seen.flatMap fun pulled => pullLines map period pulled.1 pulled.2

section
variable (map : DebugMap) (period : Option Nat) (seen : List (Run × Pull))

theorem unpaced_tracePieces :
    unpaced (tracePieces map period seen) = tracePieces map none seen := by
  simp only [tracePieces, unpaced_flatMap, unpaced_pullLines]

theorem diagnostics_tracePieces (threshold : Level) :
    diagnostics threshold (tracePieces map period seen) =
      diagnostics threshold (runPieces seen) := by
  simp only [tracePieces, runPieces, diagnostics_flatMap, diagnostics_pullLines]

theorem printed_runPieces : printed (runPieces seen) = [] := by
  rw [runPieces, printed_flatMap, List.flatMap_eq_nil_iff]
  exact fun pulled _ => printed_log pulled.1.events

/-- A trace prints the snapshots among what the pulls have given. -/
theorem printed_tracePieces :
    printed (tracePieces map period seen) =
      printed ((snapshots (seen.map Prod.snd)).flatMap (snapshotLines map)) := by
  simp only [tracePieces, printed_flatMap, printed_pullLines]
  induction seen with
  | nil => rfl
  | cons pulled seen ih =>
      rw [List.flatMap_cons, ih]
      obtain ⟨before, _ | (fault | m)⟩ := pulled
      all_goals rfl

end

theorem unpaced_of_logs {t : Transcript} (h : t.Logs) : unpaced t = t := by
  obtain ⟨events, rfl⟩ := h
  exact unpaced_log events

section
variable (read : Reader)

theorem logs_openProgram (path : Text) : Logs (openProgram read path).written := by
  unfold openProgram
  refine Task.logs_bind logs_nil fun bytes => ?_
  split
  · exact ⟨[_], rfl⟩
  · refine Task.logs_bind logs_nil fun source => ?_
    exact Task.logs_bind (Task.logs_bind ⟨_, rfl⟩ fun _ => logs_nil) fun target => logs_nil

theorem logs_prepare (x : Execution) : Logs (prepare read x).written := by
  unfold prepare
  refine Task.logs_bind (logs_openProgram read x.program) fun program => ?_
  refine Task.logs_bind (logs_readInput read x.input) fun input => ?_
  refine Task.logs_bind ⟨_, rfl⟩ fun _ => ?_
  exact Task.logs_bind logs_nil fun run => logs_nil

/-- A run that has been prepared has not been pulled. -/
theorem fresh_of_prepare {x : Execution} {run : Run} {map : DebugMap}
    (h : (prepare read x).result = .ok (run, map)) : run.phase = .loaded ∧ run.ticks = 0 := by
  obtain ⟨program, -, h⟩ := Task.result_bind_eq_ok_iff.mp h
  obtain ⟨input, -, h⟩ := Task.result_bind_eq_ok_iff.mp h
  obtain ⟨-, -, h⟩ := Task.result_bind_eq_ok_iff.mp h
  obtain ⟨loaded, given, h⟩ := Task.result_bind_eq_ok_iff.mp h
  cases h
  obtain ⟨code, -, -, rfl⟩ := Run.load_eq_ok_iff.mp (Task.result_ofExcept_eq_ok_iff.mp given)
  exact ⟨rfl, rfl⟩

end

/-- How a command ends that fails by a fault: with the source line at fault, if the map has one, and
the text of the error. -/
def faultReport (map : DebugMap) (fault : Fault) : Transcript :=
  match fault.pc?.bind map.find? with
  | some line => [.log (.faultLine line), .err ("Error: ".toList ++ fault.message)]
  | none => [.err ("Error: ".toList ++ fault.message)]

/-- What a trace prints of snapshots: for each of them a line about where it is and what it is about
to execute and a line about what it holds, and nothing else. -/
inductive Recounts (map : DebugMap) : List Machine → List Text → Prop
  | nil : Recounts map [] []
  | cons {m : Machine} {past : List Machine} {instruction : Text} {lines : List Text}
      (shows : Shows m instruction) (rest : Recounts map past lines) :
      Recounts map (m :: past)
        ((described m.pc (Text.hex 4 m.word.toNat) instruction ++ cited map m.pc ++
            flagMark m.flag) ::
          ("    regs=".toList ++ Text.byteList m.registers.values.toList ++ " in=".toList ++
            Text.decimal m.inputPos ++ " out=".toList ++ Text.byteList m.output.toList ++
            " stack=".toList ++ Text.decimal m.calls.length) :: lines)

/-- The last line of a trace of a program that halts. -/
def haltLine (m : Machine) (ticks : Nat) : Text :=
  "halted at pc=".toList ++ Text.address m.pc ++ " after ".toList ++ Text.decimal ticks ++
    " ticks, output ".toList ++ Text.byteList m.output.toList

theorem execute_run (d : Directory) (typed : Text) (x : Execution) (hex : Bool) :
    (execute d typed (.run x hex)).1 = (runProgram d.read x hex).report :=
  rfl

/-- A run of a prepared program. -/
def runFrom (map : DebugMap) (hex : Bool) (run : Run) : Task Unit := do
  let (log, fault, last) :=
    run.drain (fun (log : Array Piece) before _ => log ++ before.events.map Piece.log) #[]
  Task.write log.toList
  match fault with
  | some fault => failWith map fault
  | none =>
      let bytes := last.machine.output.toList
      Task.write
        [ if hex then .outLine (Text.byteList bytes) else .out bytes,
          .log (.stopped last.machine.pc) ]

theorem runProgram_eq (read : Reader) (x : Execution) (hex : Bool) :
    runProgram read x hex = prepare read x >>= fun (run, map) => runFrom map hex run :=
  rfl

theorem failWith_eq (map : DebugMap) (fault : Fault) :
    failWith map fault =
      ⟨((fault.pc?.bind map.find?).map fun line => .log (.faultLine line)).toList,
        .error ⟨fault.message, none⟩⟩ := by
  unfold failWith
  cases fault.pc?.bind map.find? <;> rfl

theorem report_failWith (map : DebugMap) (fault : Fault) :
    (failWith map fault).report = ⟨faultReport map fault, 1⟩ := by
  rw [failWith_eq, faultReport]
  cases fault.pc?.bind map.find? <;> rfl

theorem endTrace_of_fault (map : DebugMap) (fault : Fault) (last : Run) :
    endTrace map (some fault) last = failWith map fault := by
  unfold endTrace
  dsimp only
  rw [failWith_eq, Task.bind_of_error rfl]

section
variable {map : DebugMap} {run : Run} {m : Machine} {fault : Fault} (hex : Bool)
  (period : Option Nat)

theorem report_runFrom_of_ok (halts : run.finish = .ok m) :
    (runFrom map hex run).report =
      ⟨runPieces run.visited ++
        [ if hex then .outLine (Text.byteList m.output.toList) else .out m.output.toList,
          .log (.stopped m.pc) ], 0⟩ := by
  rw [runFrom, Run.drain_of_finish_ok (fun before _ => before.events.map Piece.log) halts,
    ← Run.machine_of_finish_ok halts]
  rfl

theorem report_runFrom_of_error (faults : run.finish = .error fault) :
    (runFrom map hex run).report = ⟨runPieces run.visited ++ faultReport map fault, 1⟩ := by
  rw [runFrom, Run.drain_of_finish_error (fun before _ => before.events.map Piece.log) faults]
  dsimp only
  rw [Task.report_bind_of_ok rfl, report_failWith]
  rfl

theorem report_traceFrom_of_ok (halts : run.finish = .ok m)
    (halted : run.pullAll.2.phase = .halted) :
    (traceFrom map period run).report =
      ⟨tracePieces map period run.visited ++ [.outLine (haltLine m run.pullAll.2.ticks)], 0⟩ := by
  rw [traceFrom, Run.drain_of_finish_ok (pullLines map period) halts,
    ← Run.machine_of_finish_ok halts]
  simp only [endTrace, Run.final?, halted]
  rfl

theorem report_traceFrom_of_error (faults : run.finish = .error fault) :
    (traceFrom map period run).report =
      ⟨tracePieces map period run.visited ++ faultReport map fault, 1⟩ := by
  rw [traceFrom, Run.drain_of_finish_error (pullLines map period) faults]
  dsimp only
  rw [endTrace_of_fault, Task.report_bind_of_ok rfl, report_failWith]
  rfl

end

theorem unpaced_failure (failure : Failure) : unpaced failure.transcript = failure.transcript := by
  rw [Failure.transcript]
  split <;> rfl

section
variable (map : DebugMap) (fault : Fault)

theorem printed_faultReport : printed (faultReport map fault) = [] := by
  rw [faultReport]
  split <;> rfl

theorem unpaced_faultReport : unpaced (faultReport map fault) = faultReport map fault := by
  rw [faultReport]
  split <;> rfl

end

theorem output_outLines (lines : List Text) : output (lines.map .outLine) = printedLines lines :=
  List.flatMap_map ..

theorem printedLines_append (lines more : List Text) :
    printedLines (lines ++ more) = printedLines lines ++ printedLines more :=
  List.flatMap_append

namespace Recounts
variable {map : DebugMap} {past : List Machine} {lines : List Text}

theorem length_eq (h : Recounts map past lines) : lines.length = 2 * past.length := by
  induction h with
  | nil => rfl
  | cons _ _ ih => rw [List.length_cons, List.length_cons, List.length_cons, ih, Nat.mul_succ]

/-- Its lines are what a trace prints of the snapshots. -/
theorem exists_printed (map : DebugMap) (past : List Machine) :
    ∃ lines, Recounts map past lines ∧
      output (past.flatMap (snapshotLines map)) = printedLines lines := by
  induction past with
  | nil => exact ⟨[], .nil, rfl⟩
  | cons m past ih =>
      obtain ⟨lines, rest, printed⟩ := ih
      refine ⟨_, .cons (shows_shown m) rest, ?_⟩
      rw [List.flatMap_cons, output_append, printed, snapshotLines, describe_eq]
      exact (congrArg (· ++ printedLines lines) (output_outLines [_, _])).trans
        (printedLines_append [_, _] lines).symm

end Recounts

/-- How a run and the traces of a program end, whatever the period of the traces. -/
inductive Ends (prepared : Task (Run × DebugMap)) : Report → (Option Nat → Report) → Prop
  | refused {failure : Failure} (refused : prepared.result = .error failure) :
      Ends prepared ⟨prepared.written ++ failure.transcript, 1⟩
        fun _ => ⟨prepared.written ++ failure.transcript, 1⟩
  | halts {run : Run} {map : DebugMap} {past : List Machine} {m : Machine}
      (ready : prepared.result = .ok (run, map)) (items : run.pullAll.1 = past.map .ok)
      (halts : run.finish = .ok m) :
      Ends prepared
        ⟨prepared.written ++ (runPieces run.visited ++
          [.outLine (Text.byteList m.output.toList), .log (.stopped m.pc)]), 0⟩
        fun period => ⟨prepared.written ++ (tracePieces map period run.visited ++
          [.outLine (haltLine m past.length)]), 0⟩
  | faults {run : Run} {map : DebugMap} {past : List Machine} {fault : Fault}
      (ready : prepared.result = .ok (run, map))
      (items : run.pullAll.1 = past.map .ok ++ [.error fault]) :
      Ends prepared ⟨prepared.written ++ (runPieces run.visited ++ faultReport map fault), 1⟩
        fun period =>
          ⟨prepared.written ++ (tracePieces map period run.visited ++ faultReport map fault), 1⟩

theorem ends_of_prepare (read : Reader) (x : Execution) :
    Ends (prepare read x) (runProgram read x true).report fun period =>
      (prepare read x >>= fun (run, map) => traceFrom map period run).report := by
  rw [runProgram_eq]
  cases ended : (prepare read x).result with
  | error failure =>
      simp only [Task.report_bind_of_error ended]
      exact .refused ended
  | ok ready =>
      obtain ⟨run, map⟩ := ready
      obtain ⟨fresh, unused⟩ := fresh_of_prepare read ended
      simp only [Task.report_bind_of_ok ended]
      obtain ⟨past, ⟨items, halted, halts⟩ | ⟨fault, items, -, faults⟩⟩ :=
        run.pullAll_ends (.inl fresh)
      · -- No tick is spent but on a snapshot, since nothing is used up where a program halts.
        have counted : run.pullAll.2.ticks = past.length := by
          rw [Run.ticks_pullAll items, unused, Nat.zero_add]
        simp only [report_runFrom_of_ok _ halts, report_traceFrom_of_ok _ halts halted, counted]
        exact .halts ended items halts
      · simp only [report_runFrom_of_error _ faults, report_traceFrom_of_error _ faults]
        exact .faults ended items

section
variable {prepared : Task (Run × DebugMap)} {ran : Report} {trace : Option Nat → Report}

theorem Ends.exit_iff (h : Ends prepared ran trace) (period : Option Nat) :
    ran.exit = 0 ↔ (trace period).exit = 0 := by
  cases h <;> rfl

/-- The period does nothing but pause. -/
theorem Ends.unpaced (h : Ends prepared ran trace) (quiet : Logs prepared.written)
    (period : Option Nat) :
    (trace none).exit = (trace period).exit ∧
      (trace none).transcript = (trace period).transcript.unpaced := by
  cases h with
  | refused => simp only [unpaced_append, unpaced_of_logs quiet, unpaced_failure, and_self]
  | halts =>
      simp only [unpaced_append, unpaced_of_logs quiet, unpaced_tracePieces, true_and]
      rfl
  | faults =>
      simp only [unpaced_append, unpaced_of_logs quiet, unpaced_tracePieces, unpaced_faultReport,
        and_self]

theorem Ends.of_success (h : Ends prepared ran trace) (quiet : Logs prepared.written)
    (exit : ran.exit = 0) (period : Option Nat) :
    ∃ run map, ∃ past : List Machine, ∃ m lines, prepared.result = .ok (run, map) ∧
      run.pullAll.1 = past.map .ok ∧ run.finish = .ok m ∧
      ran.transcript.output = printedLines [Text.byteList m.output.toList] ∧
      Recounts map past lines ∧ lines.length = 2 * past.length ∧
      (trace period).transcript.output = printedLines (lines ++ [haltLine m past.length]) := by
  cases h with
  | refused | faults => cases exit
  | @halts run map past m ready items halts =>
      obtain ⟨lines, recounts, printed⟩ := Recounts.exists_printed map past
      have given : snapshots (run.pullAll.1.map some) = past := by rw [items, snapshots_map_ok]
      refine ⟨run, map, past, m, lines, ready, items, halts, ?_, recounts, recounts.length_eq, ?_⟩
      · simp only [output_eq_flatten, printed_append, quiet.printed, printed_runPieces,
          List.nil_append]
        rfl
      · rw [printedLines_append, ← printed]
        simp only [output_eq_flatten, printed_append, quiet.printed, printed_tracePieces,
          Run.snapshots_visited, given, List.nil_append, List.flatten_append]
        rfl

theorem Ends.of_failure (h : Ends prepared ran trace) (quiet : Logs prepared.written)
    (exit : ran.exit ≠ 0) (period : Option Nat) :
    ran.exit = 1 ∧ (trace period).exit = 1 ∧ ran.transcript.output = [] ∧
      (∀ threshold, ran.transcript.diagnostics threshold =
        (trace period).transcript.diagnostics threshold) ∧
      ((∃ failure, prepared.result = .error failure ∧ trace period = ran ∧
          ran.transcript = prepared.written ++ failure.transcript) ∨
        ∃ run map, ∃ past : List Machine, ∃ fault lines, prepared.result = .ok (run, map) ∧
          run.pullAll.1 = past.map .ok ++ [.error fault] ∧
          Recounts map past lines ∧ lines.length = 2 * past.length ∧
          (trace period).transcript.output = printedLines lines ∧
          faultReport map fault <:+ ran.transcript ∧
          faultReport map fault <:+ (trace period).transcript) := by
  cases h with
  | halts => exact absurd rfl exit
  | refused refused =>
      refine ⟨rfl, rfl, ?_, fun _ => rfl, .inl ⟨_, refused, rfl, rfl⟩⟩
      simp only [output_eq_flatten, printed_append, quiet.printed, Failure.printed_transcript,
        List.append_nil, List.flatten_nil]
  | @faults run map past fault ready items =>
      have given : snapshots (run.pullAll.1.map some) = past := by
        rw [items, List.map_append, List.map_singleton, Run.snapshots_concat, snapshots_map_ok]
        exact List.append_nil past
      obtain ⟨lines, recounts, printed⟩ := Recounts.exists_printed map past
      refine ⟨rfl, rfl, ?_, fun threshold => ?_,
        .inr ⟨run, map, past, fault, lines, ready, items, recounts, recounts.length_eq, ?_, ?_, ?_⟩⟩
      · simp only [output_eq_flatten, printed_append, quiet.printed, printed_runPieces,
          printed_faultReport, List.append_nil, List.flatten_nil]
      · simp only [diagnostics_append, diagnostics_tracePieces]
      · rw [← printed]
        simp only [output_eq_flatten, printed_append, quiet.printed, printed_tracePieces,
          Run.snapshots_visited, given, printed_faultReport, List.append_nil, List.nil_append]
      · exact (List.suffix_append _ _).trans (List.suffix_append _ _)
      · exact (List.suffix_append _ _).trans (List.suffix_append _ _)

end

theorem exists_clock {rate : Option Rate}
    (accepted : ∀ own, rate = some own → ∃ period, own.period = .ok period) :
    ∃ period, clock rate = pure period := by
  cases rate with
  | none => exact ⟨none, rfl⟩
  | some own =>
      obtain ⟨period, h⟩ := accepted own rfl
      refine ⟨some period, ?_⟩
      rw [clock, h]
      rfl

theorem traceProgram_of_clock {rate : Option Rate} {period : Option Nat}
    (h : clock rate = pure period) (read : Reader) (x : Execution) :
    traceProgram read x rate =
      prepare read x >>= fun (run, map) => traceFrom map period run := by
  rw [traceProgram_eq, h]
  rfl

/-- Running a program and tracing it, at any rate or at none, come to the same end. -/
theorem run_agrees_with_trace {rate : Option Rate}
    (accepted : ∀ own, rate = some own → ∃ period, own.period = .ok period)
    (d : Directory) (typed : Text) (x : Execution) :
    let prepared := prepare d.read x
    let report (command : Command) := (execute d typed command).1
    let ran := report (.run x true)
    let traced := report (.trace x rate)
    let plain := report (.trace x none)
    (plain.exit = traced.exit ∧ plain.transcript = traced.transcript.unpaced) ∧
      (ran.exit = 0 ↔ traced.exit = 0) ∧
      (ran.exit = 0 → ∃ run map, ∃ past : List Machine, ∃ m lines,
        prepared.result = .ok (run, map) ∧
        run.pullAll.1 = past.map .ok ∧ run.finish = .ok m ∧
        ran.transcript.output = printedLines [Text.byteList m.output.toList] ∧
        Recounts map past lines ∧ lines.length = 2 * past.length ∧
        traced.transcript.output = printedLines (lines ++ [haltLine m past.length])) ∧
      (ran.exit ≠ 0 → ran.exit = 1 ∧ traced.exit = 1 ∧ ran.transcript.output = [] ∧
        (∀ threshold,
          ran.transcript.diagnostics threshold = traced.transcript.diagnostics threshold) ∧
        ((∃ failure, prepared.result = .error failure ∧ traced = ran ∧
            ran.transcript = prepared.written ++ failure.transcript) ∨
          ∃ run map, ∃ past : List Machine, ∃ fault lines, prepared.result = .ok (run, map) ∧
            run.pullAll.1 = past.map .ok ++ [.error fault] ∧
            Recounts map past lines ∧ lines.length = 2 * past.length ∧
            traced.transcript.output = printedLines lines ∧
            faultReport map fault <:+ ran.transcript ∧
            faultReport map fault <:+ traced.transcript)) := by
  intro prepared report ran traced plain
  obtain ⟨period, paced⟩ := exists_clock accepted
  have ends := ends_of_prepare d.read x
  have quiet : Logs prepared.written := logs_prepare d.read x
  have at_period : traced = (prepared >>= fun (run, map) => traceFrom map period run).report :=
    congrArg Task.report (traceProgram_of_clock paced d.read x)
  rw [at_period]
  exact ⟨ends.unpaced quiet period, ends.exit_iff period,
    fun exit => ends.of_success quiet exit period, fun exit => ends.of_failure quiet exit period⟩

/-- A program that writes one byte and halts, traced at four instructions a second: two lines for
each of its two snapshots and one about the halt. -/
theorem run_agrees_with_trace_paced :
    let d : Directory := ⟨[("p.asm".toList, Text.utf8 "SKRIV r2\nSTOPP".toList)]⟩
    let x : Execution := ⟨"p.asm".toList, none, 1000⟩
    let rate : Rate := .finite false 4503599627370496 (-50)
    let ran := (execute d [] (.run x true)).1
    let traced := (execute d [] (.trace x (some rate))).1
    let zeros := "00, 00, 00, 00, 00, 00, 00, 00, 00, 00, 00, 00, 00, 00, 00, 00".toList
    rate.period = .ok 250000000 ∧ ran.exit = 0 ∧ traced.exit = 0 ∧
      ran.transcript.output = Text.utf8 "[00]\n".toList ∧
      traced.transcript.output = Text.utf8
        ("[pc=0x000] 0216 --> SKRIV r2    ; line 1: SKRIV r2\n".toList ++
          "    regs=[".toList ++ zeros ++ "] in=0 out=[] stack=0\n".toList ++
          "[pc=0x002] 0000 --> STOPP    ; line 2: STOPP\n".toList ++
          "    regs=[".toList ++ zeros ++ "] in=0 out=[00] stack=0\n".toList ++
          "halted at pc=0x004 after 2 ticks, output [00]\n".toList) := by
  intro d x rate ran traced zeros
  let m₀ : Machine := ⟨0, false, .zero, .ofProgram [0x16, 0x02, 0x00, 0x00], #[], 0, []⟩
  let m₁ : Machine := { m₀ with pc := 2, output := #[0] }
  let m₂ : Machine := { m₁ with pc := 4 }
  let r : Run := ⟨m₀, #[], 1000, 0, .loaded⟩
  let r₀ : Run := ⟨m₀, #[], 1000, 1, .paused⟩
  let r₁ : Run := ⟨m₁, #[], 1000, 2, .paused⟩
  let r₂ : Run := ⟨m₂, #[], 1000, 2, .halted⟩
  let map : DebugMap :=
    ⟨[(0, ⟨0, 0, "SKRIV r2".toList⟩), (2, ⟨1, 2, "STOPP".toList⟩)], by decide⟩
  have write : m₀.current? = some (.write 2) :=
    (Machine.current?_of_program (m := m₀) rfl (by decide)).trans (by decide)
  have halt : m₁.current? = some .halt :=
    (Machine.current?_of_program (m := m₁) rfl (by decide)).trans (by decide)
  have first : r.next = (some (.ok m₀), r₀) := rfl
  have second : r₀.next = (some (.ok m₁), r₁) := Run.next_of_current (r := r₀) rfl write
  have third : r₁.next = (none, r₂) := Run.next_of_current (r := r₁) rfl halt
  have halts : r.finish = .ok m₂ := by
    rw [Run.finish_of_snapshot first, Run.finish_of_snapshot second, Run.finish_of_none third]
  have period : rate.period = .ok 250000000 := by decide +kernel
  have text : d.read x.program = .ok (Text.utf8 "SKRIV r2\nSTOPP".toList) := by decide +kernel
  have accepted : assemble "SKRIV r2\nSTOPP".toList = .ok ⟨[0x16, 0x02, 0x00, 0x00], map⟩ := by
    decide +kernel
  have ready : (prepare d.read x).result = .ok (r, map) := by
    rw [prepare, openProgram_source text accepted]
    rfl
  have exit : ran.exit = 0 := by
    rw [show ran = (runProgram d.read x true).report from execute_run d [] x true, runProgram_eq,
      Task.report_bind_of_ok ready, report_runFrom_of_ok true halts]
  have paced : ∀ own, some rate = some own → ∃ period, own.period = .ok period := by
    intro own same
    cases same
    exact ⟨_, period⟩
  obtain ⟨-, exits, success, -⟩ := run_agrees_with_trace paced d [] x
  obtain ⟨run, _, past, m, lines, ready', items, halts', printed, recounts, -, printed'⟩ :=
    success exit
  cases ready.symm.trans ready'
  cases halts.symm.trans halts'
  rw [Run.pullAll_of_some first, Run.pullAll_of_some second, Run.pullAll_of_none third] at items
  have items : [m₀, m₁].map Except.ok = past.map Except.ok := items
  obtain rfl := List.map_injective_iff.mpr (fun _ _ => Except.ok.inj) items
  refine ⟨period, exit, exits.mp exit, printed.trans (by decide +kernel), printed'.trans ?_⟩
  obtain _ | ⟨shows, rest⟩ := recounts
  obtain _ | ⟨shows', rest⟩ := rest
  cases rest
  obtain rfl := shows.eq_text write
  obtain rfl := shows'.eq_text halt
  rw [Machine.word_of_program (m := m₀) rfl (by decide),
    Machine.word_of_program (m := m₁) rfl (by decide)]
  decide +kernel

end CommandLine
end SledeMachine
