import SledeMachine.Proofs.Loading
import SledeMachine.Proofs.Turn

/-!
Runs by pulls and the plain loop. The loop takes one turn after the other and notes the machine
before each; a run hands out the same machines one at a time and takes the turn of a snapshot only
when the next one is asked for. Pulled to the end, the run gives what the loop noted, item by
item, and stands where the loop stopped.
-/

namespace SledeMachine

namespace Run

section
variable {r : Run}

theorem offer_of_outside (outside : memorySize ≤ r.machine.pc) :
    r.offer = (none, { r with phase := .halted }) := by
  rw [offer, if_pos outside]

theorem offer_of_spent (inside : r.machine.pc < memorySize) (spent : r.maxTicks < r.ticks + 1) :
    r.offer =
      (some (.error (.exhausted r.maxTicks)),
        { r with ticks := r.ticks + 1, phase := .faulted }) := by
  rw [offer, if_neg (Nat.not_le.mpr inside), if_pos spent]

theorem offer_of_left (inside : r.machine.pc < memorySize) (left : ¬ r.maxTicks < r.ticks + 1) :
    r.offer = (some (.ok r.machine), { r with ticks := r.ticks + 1, phase := .paused }) := by
  rw [offer, if_neg (Nat.not_le.mpr inside), if_neg left]

theorem next_of_running {m : Machine} (paused : r.phase = .paused)
    (step : r.machine.step r.input = .running m) : r.next = { r with machine := m }.offer := by
  simp only [next, paused, step]

theorem next_of_halted {m : Machine} (paused : r.phase = .paused)
    (step : r.machine.step r.input = .halted m) :
    r.next = (none, { r with machine := m, phase := .halted }) := by
  simp only [next, paused, step]

theorem next_of_faulted {fault : Fault} {m : Machine} (paused : r.phase = .paused)
    (step : r.machine.step r.input = .faulted fault m) :
    r.next = (some (.error fault), { r with machine := m, phase := .faulted }) := by
  simp only [next, paused, step]

end

/-- How many more pulls may give something. -/
def pullsLeft (r : Run) : Nat :=
  match r.phase with
  | .loaded | .paused => r.maxTicks - r.ticks + 1
  | .halted | .faulted => 0

theorem offer_item {r after : Run} {item : Except Fault Machine}
    (h : r.offer = (some item, after)) :
    after.pullsLeft < r.maxTicks - r.ticks + 1 := by
  simp only [offer] at h
  split at h
  · cases h
  · split at h
    · cases h
      exact Nat.succ_pos _
    · cases h
      simp only [pullsLeft]
      omega

theorem next_item {r after : Run} {item : Except Fault Machine} (h : r.next = (some item, after)) :
    after.pullsLeft < r.pullsLeft := by
  simp only [next] at h
  split at h
  · rename_i phase
    simpa only [pullsLeft, phase] using offer_item h
  · rename_i phase
    simp only [pullsLeft, phase]
    split at h
    · simpa only [pullsLeft] using offer_item h
    · cases h
    · cases h
      exact Nat.succ_pos _
  · cases h
  · cases h

/-- Pulls until a pull gives nothing. The result is what the pulls gave, and the run after them. -/
def pullAll (r : Run) : List (Except Fault Machine) × Run :=
  match _h : r.next with
  | (some item, after) =>
      let (items, last) := pullAll after
      (item :: items, last)
  | (none, after) => ([], after)
termination_by r.pullsLeft
decreasing_by exact next_item _h

theorem pullAll_of_some {r after : Run} {item : Except Fault Machine}
    (h : r.next = (some item, after)) :
    r.pullAll = (item :: after.pullAll.1, after.pullAll.2) := by
  rw [pullAll]
  split <;> rename_i equal <;> rw [h] at equal <;> cases equal
  rfl

theorem pullAll_of_none {r after : Run} (h : r.next = (none, after)) : r.pullAll = ([], after) := by
  rw [pullAll]
  split <;> rename_i equal <;> rw [h] at equal <;> cases equal
  rfl

/-- Between two pulls the machine is the last snapshot. -/
theorem machine_of_offer {r after : Run} {m : Machine} (h : r.offer = (some (.ok m), after)) :
    after.machine = m := by
  simp only [offer] at h
  split at h
  · cases h
  · split at h <;> cases h
    rfl

theorem machine_of_next {r after : Run} {m : Machine} (h : r.next = (some (.ok m), after)) :
    after.machine = m := by
  simp only [next] at h
  split at h
  · exact machine_of_offer h
  · split at h
    · exact machine_of_offer h
    · cases h
    · cases h
  · cases h
  · cases h

end Run

namespace Turn

/-- What the plain loop leaves: what it noted, the machine it stopped with and the ticks it took. -/
structure Record where
  items : List (Except Fault Machine)
  machine : Machine
  ticks : Nat

/-- The record with one more machine noted in front. -/
def Record.after (m : Machine) (record : Record) : Record :=
  { record with items := .ok m :: record.items }

/-- The plain loop from a machine on, when so many ticks have been taken. -/
def loop (input : Array UInt8) (budget ticks : Nat) (m : Machine) : Record :=
  if m.pc < 4096 then
    if budget < ticks + 1 then ⟨[.error (.exhausted budget)], m, ticks + 1⟩
    else
      match turn input m with
      | .running next => (loop input budget (ticks + 1) next).after m
      | .halted last => ⟨[.ok m], last, ticks + 1⟩
      | .faulted fault last => ⟨[.ok m, .error fault], last, ticks + 1⟩
  else ⟨[], m, ticks⟩
termination_by budget - ticks

/-- The machine with the program of an image at address 0 and zeros in everything else. -/
def loaded (image : List UInt8) : Machine where
  pc := 0
  flag := false
  registers := ⟨Vector.replicate 16 0⟩
  memory := ⟨Vector.ofFn fun a => image.getD (7 + a) 0⟩
  output := #[]
  inputPos := 0
  calls := []

end Turn

namespace Run

theorem pullAll_of_ended {r : Run} (h : r.phase = .halted ∨ r.phase = .faulted) :
    r.pullAll = ([], r) := by
  apply pullAll_of_none
  obtain h | h := h <;> simp only [next, h]

/-- A run that is about to offer its machine goes on as the loop does from that machine. -/
theorem pullAll_eq_loop {input : Array UInt8} {budget ticks : Nat} {m : Machine} {phase : Phase}
    {r : Run} (h : r.next = offer ⟨m, input, budget, ticks, phase⟩) :
    r.pullAll.1 = (Turn.loop input budget ticks m).items ∧
      r.pullAll.2.machine = (Turn.loop input budget ticks m).machine ∧
      r.pullAll.2.ticks = (Turn.loop input budget ticks m).ticks := by
  -- The run is one turn behind: its next pull takes the turn that the loop has already taken.
  fun_induction Turn.loop input budget ticks m generalizing r phase with
  | case1 ticks m inside spent =>
      rw [pullAll_of_some (h.trans (offer_of_spent inside spent)), pullAll_of_ended (.inr rfl)]
      exact ⟨rfl, rfl, rfl⟩
  | case2 ticks m inside left following turn ih =>
      rw [← Turn.step_eq_turn] at turn
      have later := ih (next_of_running (r := ⟨m, input, budget, ticks + 1, .paused⟩) rfl turn)
      rw [pullAll_of_some (h.trans (offer_of_left inside left))]
      exact ⟨congrArg _ later.1, later.2⟩
  | case3 ticks m inside left last turn =>
      rw [← Turn.step_eq_turn] at turn
      have halted := next_of_halted (r := ⟨m, input, budget, ticks + 1, .paused⟩) rfl turn
      rw [pullAll_of_some (h.trans (offer_of_left inside left)), pullAll_of_none halted]
      exact ⟨rfl, rfl, rfl⟩
  | case4 ticks m inside left fault last turn =>
      rw [← Turn.step_eq_turn] at turn
      have faulted := next_of_faulted (r := ⟨m, input, budget, ticks + 1, .paused⟩) rfl turn
      rw [pullAll_of_some (h.trans (offer_of_left inside left)), pullAll_of_some faulted,
        pullAll_of_ended (.inr rfl)]
      exact ⟨rfl, rfl, rfl⟩
  | case5 ticks m outside =>
      rw [pullAll_of_none (h.trans (offer_of_outside (Nat.not_lt.mp outside)))]
      exact ⟨rfl, rfl, rfl⟩

theorem machine_of_load {image : List UInt8} {input : Array UInt8} {r : Run}
    (h : Run.load image input = .ok r) : r.machine = Turn.loaded image := by
  obtain ⟨program, -, rfl, rfl⟩ := load_eq_ok_iff.mp h
  simp only [Machine.initial, Turn.loaded, Memory.ofProgram, Registers.zero]
  congr 3
  funext a
  have behind : Image.tag.length ≤ 7 + a.val := Nat.le_add_right 7 a.val
  simp [List.getD_eq_getElem?_getD, List.getElem?_append_right behind]

end Run

/-- With any number of ticks, pulling to the end comes to the plain loop from the loaded machine. -/
theorem pulls_refine_loop {image : List UInt8} {input : Array UInt8} {r : Run}
    (h : Run.load image input = .ok r) (budget : Nat) :
    let pulled := (r.withMaxTicks budget).pullAll
    let record := Turn.loop input budget 0 (Turn.loaded image)
    pulled.1 = record.items ∧ pulled.2.machine = record.machine ∧
      pulled.2.ticks = record.ticks ∧
      ∀ (current after : Run) (m : Machine),
        current.next = (some (.ok m), after) → after.machine = m := by
  intro pulled record
  have first : (r.withMaxTicks budget).next =
      Run.offer ⟨Turn.loaded image, input, budget, 0, .loaded⟩ := by
    rw [← Run.machine_of_load h]
    obtain ⟨program, -, -, rfl⟩ := Run.load_eq_ok_iff.mp h
    rfl
  obtain ⟨items, machine, ticks⟩ := Run.pullAll_eq_loop first
  exact ⟨items, machine, ticks, fun _ _ _ => Run.machine_of_next⟩

/-- The program calls a jump to itself, which uses up the ticks that are left. -/
theorem pulls_refine_loop_spent :
    let image := Image.tag ++ [0x4a, 0x00, 0x0c, 0x00, 0x48, 0x00]
    let r : Run :=
      ⟨.initial (.ofProgram [0x4a, 0x00, 0x0c, 0x00, 0x48, 0x00]), #[], 1000, 0, .loaded⟩
    Run.load image #[] = .ok r ∧
      (r.withMaxTicks 3).pullAll.1 = (Turn.loop #[] 3 0 (Turn.loaded image)).items := by
  intro image r
  have accepted : Run.load image #[] = .ok r := rfl
  exact ⟨accepted, (pulls_refine_loop accepted 3).1⟩

end SledeMachine
