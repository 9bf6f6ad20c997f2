import SledeMachine.Proofs.Bounds
import SledeMachine.Proofs.PullRule

/-!
Pulls that fail. An instruction that cannot be executed leaves the machine as it was, save that the
counter has moved past it, and costs no tick of its own; which fault it is follows from the
instruction and from what it asks for. When the ticks are used up it is the other way round: the
instruction that waited has been executed in full, and it is the next one that is not handed out.
-/

namespace SledeMachine

namespace Machine
variable {input : Array UInt8} {m last : Machine} {fault : Fault}

/-- The fault of a step tells what was wrong with it. -/
theorem step_faulted_kind (step : m.step input = .faulted fault last) :
    (fault = .segmentation m.pc ↔ m.current? = none ∨ m.current? = some .ret ∧ m.calls = []) ∧
      (fault = .readPastEnd m.pc ↔
        (∃ a, m.current? = some (.read a)) ∧ input.size ≤ m.inputPos) ∧
      (fault = .tooManyCalls m.pc ↔
        (∃ n, m.current? = some (.call n)) ∧ callLimit ≤ m.calls.length) := by
  have kind (other : Fault) : fault = other ↔ ∃ last, m.step input = .faulted other last := by
    simp [step]
  refine ⟨?_, ?_, ?_⟩
  · rw [kind, step_segmentation_iff, eq_self, true_and]
  · rw [kind, step_readPastEnd_iff, eq_self, true_and]
  · rw [kind, step_tooManyCalls_iff, eq_self, true_and]

end Machine

namespace Run

/-- Before its first snapshot a run stands at its first machine, and then at what the instruction
of the last snapshot leads to. -/
theorem Driven.upcoming_running {first r : Run} {pulls : List Pull} {m : Machine}
    (fresh : first.phase = .loaded) (driven : first.Driven pulls r) (continues : r.Continues)
    (upcoming : r.upcoming = .running m) :
    pulls = [] ∧ m = first.machine ∨
      ∃ earlier s, pulls = earlier ++ [some (.ok s)] ∧ s.step first.input = .running m := by
  cases continues with
  | inl untouched =>
      have stands := driven.stands fresh
      simp only [Stands, untouched] at stands
      simp only [Run.upcoming, untouched, Outcome.running.injEq] at upcoming
      exact .inl ⟨stands.1, upcoming ▸ stands.2⟩
  | inr paused =>
      obtain ⟨earlier, last⟩ := (driven.pending_iff fresh).mp paused
      simp only [Run.upcoming, paused, driven.input_eq] at upcoming
      exact .inr ⟨earlier, r.machine, last, upcoming⟩

end Run

/-- A pull that fails has either moved the counter past the instruction of the last snapshot and
done nothing else, or has executed that instruction and found no tick for what follows. -/
theorem failing_pull_leaves {image : List UInt8} {input : Array UInt8} {r current after : Run}
    {pulls : List Pull} {fault : Fault} (loaded : Run.load image input = .ok r)
    (driven : r.Driven pulls current) (fails : current.next = (some (.error fault), after)) :
    after.phase = .faulted ∧
      (∀ pc, fault.pc? = some pc →
        ∃ earlier m, pulls = earlier ++ [some (.ok m)] ∧ pc = m.pc ∧
          after.machine = { m with pc := pc + 2 } ∧ after.ticks = current.ticks ∧
          (fault = .segmentation pc ↔
            m.current? = none ∨ m.current? = some .ret ∧ m.calls = []) ∧
          (fault = .readPastEnd pc ↔
            (∃ a, m.current? = some (.read a)) ∧ m.inputPos = input.size) ∧
          (fault = .tooManyCalls pc ↔
            (∃ n, m.current? = some (.call n)) ∧ m.calls.length = 1000)) ∧
      ∀ budget, fault = .exhausted budget →
        after.machine.pc < 4096 ∧ after.ticks = current.ticks + 1 ∧
          (pulls = [] ∧ after.machine = Turn.loaded image ∨
            ∃ earlier m i, pulls = earlier ++ [some (.ok m)] ∧ m.current? = some i ∧
              m.execute input i = .ok after.machine) := by
  have fresh := Run.phase_of_load loaded
  have given := Run.input_of_load loaded
  cases Run.gives_of_next fails with
  | fault continues upcoming =>
      obtain ⟨paused, step⟩ := Run.upcoming_eq_faulted_iff.mp upcoming
      have carries := Machine.pc_of_step_faulted step
      refine ⟨rfl, fun pc own => ?_, fun budget exhausted => ?_⟩
      · cases own.symm.trans carries
        obtain ⟨earlier, last⟩ := (driven.pending_iff fresh).mp paused
        obtain ⟨rfl, -⟩ := Machine.step_eq_faulted_iff.mp step
        have bounded := (driven.within (Run.within_of_load loaded)).bounded
        obtain ⟨segmentation, readPastEnd, tooManyCalls⟩ := Machine.step_faulted_kind step
        have spent : current.input.size ≤ current.machine.inputPos ↔
            current.machine.inputPos = input.size := by
          have read := bounded.read
          rw [driven.input_eq, given] at read ⊢
          exact ⟨Nat.le_antisymm read, Nat.le_of_eq ∘ Eq.symm⟩
        have full : callLimit ≤ current.machine.calls.length ↔
            current.machine.calls.length = 1000 :=
          ⟨Nat.le_antisymm bounded.depth, Nat.le_of_eq ∘ Eq.symm⟩
        rw [spent] at readPastEnd
        rw [full] at tooManyCalls
        exact ⟨earlier, current.machine, last, rfl, rfl, rfl, segmentation, readPastEnd,
          tooManyCalls⟩
      · rw [exhausted] at carries
        cases carries
  | @spent m continues upcoming inside spent =>
      refine ⟨rfl, nofun, fun budget _ => ⟨inside, rfl, ?_⟩⟩
      rw [← Run.machine_of_load loaded]
      cases driven.upcoming_running fresh continues upcoming with
      | inl first => exact .inl first
      | inr later =>
          obtain ⟨earlier, s, last, running⟩ := later
          obtain ⟨i, current, -, rule⟩ := Machine.step_eq_running_iff.mp running
          exact .inr ⟨earlier, s, i, last, current, given ▸ rule.execute_eq⟩

/-- The second byte is not there to be read; the first one stays in its register. -/
theorem failing_pull_leaves_read :
    let program : List UInt8 := [0x06, 0x02, 0x06, 0x03]
    let m₀ : Machine := ⟨0, false, .zero, .ofProgram program, #[], 0, []⟩
    let m₁ : Machine := { m₀ with pc := 2, registers := m₀.registers.set 2 9, inputPos := 1 }
    let r : Run := ⟨m₀, #[9], 1000, 0, .loaded⟩
    let current : Run := ⟨m₁, #[9], 1000, 2, .paused⟩
    let after : Run := ⟨{ m₁ with pc := 4 }, #[9], 1000, 2, .faulted⟩
    (Run.load (Image.tag ++ program) #[9] = .ok r ∧
        r.Driven ([some (.ok m₀)] ++ [some (.ok m₁)]) current ∧
        current.next = (some (.error (.readPastEnd 2)), after)) ∧
      after.machine = { m₁ with pc := 2 + 2 } ∧ m₁.inputPos = #[9].size := by
  intro program m₀ m₁ r current after
  have loaded : Run.load (Image.tag ++ program) #[9] = .ok r := rfl
  have read : m₀.current? = some (.read 2) :=
    (Machine.current?_of_program (m := m₀) rfl (by decide)).trans (by decide)
  have again : m₁.current? = some (.read 3) :=
    (Machine.current?_of_program (m := m₁) rfl (by decide)).trans (by decide)
  let r₀ : Run := { r with ticks := 1, phase := .paused }
  have first : r.next = (some (.ok m₀), r₀) := rfl
  have second : r₀.next = (some (.ok m₁), current) := Run.next_of_current (r := r₀) rfl read
  have fails : current.next = (some (.error (.readPastEnd 2)), after) :=
    Run.next_of_current (r := current) rfl again
  have driven : r.Driven ([some (.ok m₀)] ++ [some (.ok m₁)]) current :=
    (Run.Driven.start.pull_of_next first).pull_of_next second
  obtain ⟨earlier, m, pulls, -, machine, -, -, short, -⟩ :=
    (failing_pull_leaves loaded driven fails).2.1 2 rfl
  obtain ⟨-, last⟩ := List.append_inj' pulls rfl
  cases last
  exact ⟨⟨loaded, driven, fails⟩, machine, (short.mp rfl).2⟩

end SledeMachine
