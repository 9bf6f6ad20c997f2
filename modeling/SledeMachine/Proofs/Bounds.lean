import SledeMachine.Proofs.History

/-!
Bounds of a run. The program counter and the return addresses stay within a word past the end of
memory, the stack of calls within its limit and the reading within the input. No instruction takes
up more than one of a byte of output, a byte of input and a place on the stack, so that together
these are no more than the ticks. All of this holds however a run is driven, and with it that a run
goes on after a pull only if it is paused at an instruction inside memory.
-/

namespace SledeMachine

namespace Machine

theorem fitsWord_of_current {m : Machine} {i : Instruction} (current : m.current? = some i) :
    i.FitsWord := by
  cases decoded : Instruction.decode m.word with
  | error e => simp [current?, decoded, Except.toOption] at current
  | ok j =>
      rw [current?, decoded] at current
      cases current
      exact Instruction.fitsWord_of_decode decoded

/-- What is bounded of a machine that has executed so many instructions. -/
structure Bounded (input : Array UInt8) (executed : Nat) (m : Machine) : Prop where
  pc : m.pc ≤ memorySize + 1
  depth : m.calls.length ≤ callLimit
  returns : ∀ back ∈ m.calls, 2 ≤ back ∧ back ≤ memorySize + 1
  read : m.inputPos ≤ input.size
  effects : m.output.size + m.inputPos + m.calls.length ≤ executed

theorem bounded_initial (input : Array UInt8) (memory : Memory) :
    (initial memory).Bounded input 0 where
  pc := Nat.zero_le _
  depth := Nat.zero_le _
  returns := nofun
  read := Nat.zero_le _
  effects := Nat.le_refl 0

namespace Bounded
variable {input : Array UInt8} {executed : Nat} {m next : Machine}

theorem mono {more : Nat} (h : m.Bounded input executed) (le : executed ≤ more) :
    m.Bounded input more :=
  { h with effects := Nat.le_trans h.effects le }

theorem goto {n : Nat} (h : m.Bounded input executed) (le : n ≤ memorySize + 1) :
    Bounded input executed { m with pc := n } :=
  { h with pc := le }

theorem advance (h : m.Bounded input executed) (inside : m.pc < memorySize) :
    m.advance.Bounded input executed :=
  h.goto (Nat.succ_le_succ inside)

/-- An instruction keeps the bounds, and adds at most one to what is counted. -/
theorem executes {i : Instruction} (h : m.Bounded input executed) (inside : m.pc < memorySize)
    (fits : i.FitsWord) (rule : m.Executes input i next) : next.Bounded input (executed + 1) := by
  have onward := (h.advance inside).mono (Nat.le_succ executed)
  have address {n : Nat} (holds : i.address? = some n) : n ≤ memorySize + 1 :=
    Nat.le_succ_of_le (Nat.le_of_lt (fits n holds))
  have effects := h.effects
  cases rule with
  | halt | nop | pass => exact onward
  | set | copy | locate | load | store | alu | compare => exact { onward with }
  | jump n | branch n => exact (h.mono (Nat.le_succ executed)).goto (address rfl)
  | read a more =>
      have left : m.inputPos < input.size := (Array.getElem?_eq_some_iff.mp more).1
      refine { onward with read := left, effects := ?_ }
      simp only [setRegister, Machine.advance]
      omega
  | write a =>
      refine { onward with effects := ?_ }
      simp only [Machine.advance, Array.size_push]
      omega
  -- A call stacks the counter past it, which `onward` bounds, and a return takes it from there.
  | call n room =>
      refine ⟨address rfl, room, List.forall_mem_cons.mpr ⟨⟨?_, ?_⟩, h.returns⟩, h.read, ?_⟩
      · exact Nat.le_add_left 2 m.pc
      · exact onward.pc
      · simp only [List.length_cons]
        omega
  | @ret back rest calls =>
      obtain ⟨⟨-, low⟩, others⟩ := List.forall_mem_cons.mp (calls ▸ h.returns)
      have depth : rest.length + 1 = m.calls.length := by rw [calls, List.length_cons]
      have limit := h.depth
      refine ⟨low, ?_, others, h.read, ?_⟩
      · simp only
        omega
      · simp only
        omega

theorem step_running (h : m.Bounded input executed) (inside : m.pc < memorySize)
    (running : m.step input = .running next) : next.Bounded input (executed + 1) := by
  obtain ⟨i, current, -, rule⟩ := step_eq_running_iff.mp running
  exact h.executes inside (fitsWord_of_current current) rule

end Bounded
end Machine

namespace Run

/-- The bounds of a run. While a snapshot waits for its instruction, it has a tick that no
instruction has used yet. -/
def Within (r : Run) : Prop :=
  match r.phase with
  | .loaded | .halted | .faulted => r.machine.Bounded r.input r.ticks
  | .paused =>
      r.machine.pc < memorySize ∧
        ∃ executed, r.ticks = executed + 1 ∧ r.machine.Bounded r.input executed

theorem within_of_offer {r : Run} (h : r.machine.Bounded r.input r.ticks) : r.offer.2.Within := by
  rw [offer]
  split
  · exact h
  · rename_i inside
    split
    · exact h.mono (Nat.le_succ r.ticks)
    · exact ⟨Nat.not_le.mp inside, r.ticks, rfl, h⟩

theorem within_of_next {r : Run} (h : r.Within) : r.next.2.Within := by
  cases phase : r.phase with
  | loaded =>
      simp only [Within, phase] at h
      simp only [next, phase]
      exact within_of_offer h
  | paused =>
      simp only [Within, phase] at h
      obtain ⟨inside, executed, ticks, bounded⟩ := h
      rw [next_of_paused phase]
      cases step : r.machine.step r.input with
      | running m =>
          apply within_of_offer
          simp only [ticks]
          exact bounded.step_running inside step
      | halted m =>
          obtain ⟨-, rfl⟩ := Machine.step_eq_halted_iff.mp step
          exact (bounded.advance inside).mono (Nat.le_of_succ_le (Nat.le_of_eq ticks.symm))
      | faulted fault m =>
          obtain ⟨rfl, -⟩ := Machine.step_eq_faulted_iff.mp step
          exact (bounded.advance inside).mono (Nat.le_of_succ_le (Nat.le_of_eq ticks.symm))
  | halted | faulted => simpa only [next, phase] using h

theorem Driven.within {first r : Run} {pulls : List Pull} (begun : first.Within)
    (h : first.Driven pulls r) : r.Within := by
  induction h with
  | start => exact begun
  | pull _ ih => exact within_of_next ih
  | limit maxTicks _ ih => exact ih

section
variable {image : List UInt8} {input : Array UInt8} {first r : Run} {pulls : List Pull}

theorem within_of_load (h : load image input = .ok r) : r.Within := by
  obtain ⟨program, -, -, rfl⟩ := load_eq_ok_iff.mp h
  exact Machine.bounded_initial input _

theorem Within.bounded (h : r.Within) : r.machine.Bounded r.input r.ticks := by
  cases phase : r.phase with
  | loaded | halted | faulted => simpa only [Within, phase] using h
  | paused =>
      simp only [Within, phase] at h
      obtain ⟨-, executed, ticks, bounded⟩ := h
      exact bounded.mono (by omega)

/-- A snapshot waits right after it is handed out, when its counter is inside memory. -/
theorem Driven.pc_of_snapshot (fresh : first.phase = .loaded) (begun : first.Within)
    (h : first.Driven pulls r) : ∀ m ∈ snapshots pulls, m.pc < memorySize := by
  induction h with
  | start => nofun
  | @pull pulls r before ih =>
      intro m hm
      rw [snapshots, List.filterMap_append] at hm
      obtain hm | hm := List.mem_append.mp hm
      · exact ih m hm
      · obtain ⟨pull, single, snapshot⟩ := List.mem_filterMap.mp hm
        have given : r.next.1 = some (.ok m) := by
          rw [← List.mem_singleton.mp single]
          exact Pull.snapshot?_eq_some_iff.mp snapshot
        have after := before.pull
        have within := after.within begun
        rw [given] at after
        obtain ⟨paused, machine, -⟩ := after.history fresh
        simp only [Within, paused, machine] at within
        exact within.1
  | limit maxTicks _ ih => exact ih

end
end Run

/-- However a loaded run is driven, its bounds hold. -/
theorem driven_within_bounds {image : List UInt8} {input : Array UInt8} {r current : Run}
    {pulls : List Pull} (loaded : Run.load image input = .ok r)
    (driven : r.Driven pulls current) :
    let m := current.machine
    m.memory.bytes.toList.length = 4096 ∧ m.pc ≤ 4097 ∧ (∀ s ∈ snapshots pulls, s.pc < 4096) ∧
      m.calls.length ≤ 1000 ∧ (∀ back ∈ m.calls, 2 ≤ back ∧ back ≤ 4097) ∧
      m.inputPos ≤ input.size ∧
      m.output.size + m.inputPos + m.calls.length ≤ current.ticks ∧
      (current.Pending ↔ ∃ earlier, pulls = earlier ++ [some (.ok m)]) ∧
      (current.Pending → current.Continues ∧ 1 ≤ current.ticks ∧ m.pc < 4096) ∧
      (pulls ≠ [] → current.Continues → current.Pending) := by
  intro m
  have fresh := Run.phase_of_load loaded
  have begun := Run.within_of_load loaded
  have within := driven.within begun
  have bounded := within.bounded
  rw [driven.input_eq, Run.input_of_load loaded] at bounded
  refine ⟨m.memory.bytes.length_toList, bounded.pc, driven.pc_of_snapshot fresh begun,
    bounded.depth, bounded.returns, bounded.read, bounded.effects, driven.pending_iff fresh,
    fun pending => ?_, fun pulled continues => ?_⟩
  · simp only [Run.Within, show current.phase = .paused from pending] at within
    obtain ⟨inside, executed, ticks, -⟩ := within
    exact ⟨.inr pending, by omega, inside⟩
  · obtain untouched | paused := continues
    · have stands := driven.stands fresh
      simp only [Run.Stands, untouched] at stands
      exact absurd stands.1 pulled
    · exact paused

/-- Two ticks are enough for the first two pulls, and more of them for the third. -/
theorem driven_within_bounds_called :
    let program : List UInt8 := [0x4a, 0x00, 0x0c, 0x00, 0x16, 0x00]
    let m₀ : Machine := ⟨0, false, .zero, .ofProgram program, #[], 0, []⟩
    let m₁ : Machine := { m₀ with pc := 4, calls := [2] }
    let m₂ : Machine := { m₁ with pc := 6, output := #[0] }
    let r : Run := ⟨m₀, #[], 1000, 0, .loaded⟩
    let current : Run := ⟨m₂, #[], 5, 3, .paused⟩
    Run.load (Image.tag ++ program) #[] = .ok r ∧
      r.Driven ([some (.ok m₀), some (.ok m₁)] ++ [some (.ok m₂)]) current ∧
      (∀ back ∈ m₂.calls, 2 ≤ back ∧ back ≤ 4097) ∧
      m₂.output.size + m₂.inputPos + m₂.calls.length ≤ current.ticks := by
  intro program m₀ m₁ m₂ r current
  have loaded : Run.load (Image.tag ++ program) #[] = .ok r := rfl
  have call : m₀.current? = some (.call 4) :=
    (Machine.current?_of_program (m := m₀) rfl (by decide)).trans (by decide)
  have write : m₁.current? = some (.write 0) :=
    (Machine.current?_of_program (m := m₁) rfl (by decide)).trans (by decide)
  let r₀ : Run := ⟨m₀, #[], 2, 1, .paused⟩
  let r₁ : Run := ⟨m₁, #[], 2, 2, .paused⟩
  have first : (r.withMaxTicks 2).next = (some (.ok m₀), r₀) := rfl
  have second : r₀.next = (some (.ok m₁), r₁) := Run.next_of_current (r := r₀) rfl call
  have third : (r₁.withMaxTicks 5).next = (some (.ok m₂), current) :=
    Run.next_of_current (r := r₁.withMaxTicks 5) rfl write
  have twice : r.Driven [some (.ok m₀), some (.ok m₁)] r₁ :=
    ((Run.Driven.start.limit 2).pull_of_next first).pull_of_next second
  have driven := (twice.limit 5).pull_of_next third
  obtain ⟨-, -, -, -, returns, -, effects, -⟩ := driven_within_bounds loaded driven
  exact ⟨loaded, driven, returns, effects⟩

end SledeMachine
