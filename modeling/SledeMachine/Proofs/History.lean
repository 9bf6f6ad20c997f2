import SledeMachine.Proofs.Execution
import SledeMachine.Proofs.Pulling

/-!
Histories. The steps from a machine on lead through other machines, and a part of the machine at
the end is what the latest of them gave it. A run that is pulled, and given other numbers of ticks
in between, has one such history however it is driven: the snapshots that it has handed out, from
the loaded machine on. The next pull goes on by executing the instruction of the last of them.
-/

namespace SledeMachine

/-- The machines that the steps from a first one on have led through, in order, and the machine
that they have led to. -/
inductive History (input : Array UInt8) (first : Machine) : List Machine → Machine → Prop
  | start : History input first [] first
  | step {past : List Machine} {m next : Machine} (before : History input first past m)
      (running : m.step input = .running next) : History input first (past ++ [m]) next

/-- The value that the latest of the machines gives, of those that give one. -/
def latest {α : Type} (f : Machine → Option α) (past : List Machine) : Option α :=
  past.reverse.findSome? f

section
variable {α : Type} {f : Machine → Option α} {past : List Machine}

theorem latest_append_singleton (m : Machine) :
    latest f (past ++ [m]) = (f m).or (latest f past) := by
  rw [latest, List.reverse_append, List.reverse_singleton, List.singleton_append,
    List.findSome?_cons]
  cases f m <;> rfl

theorem latest_eq_none_iff : latest f past = none ↔ ∀ m ∈ past, f m = none := by
  simp [latest]

end

namespace History
variable {input : Array UInt8} {first m : Machine} {past : List Machine}

/-- A part of the machine that every step either gives a value or leaves alone. -/
theorem part_eq {α : Type} {part : Machine → α} {gives : Machine → Option α}
    (step : ∀ {m next : Machine}, m.step input = .running next →
      part next = (gives m).getD (part m))
    (h : History input first past m) : part m = (latest gives past).getD (part first) := by
  induction h with
  | start => rfl
  | @step past m next _ running ih =>
      rw [step running, latest_append_singleton, ih]
      cases gives m <;> rfl

/-- What happened before and right after a machine of a history. -/
theorem split {before after : List Machine} {s : Machine}
    (h : History input first (before ++ s :: after) m) :
    History input first before s ∧
      ∃ next, (after ++ [m]).head? = some next ∧ s.step input = .running next := by
  generalize whole : before ++ s :: after = past at h
  induction h generalizing after with
  | start => simp at whole
  | @step past last next earlier running ih =>
      -- Either `s` is the last machine of the past, or the last one is that of `after`.
      obtain rfl | ⟨front, last', rfl⟩ := List.eq_nil_or_concat after
      · obtain ⟨rfl, same⟩ := List.append_inj' whole rfl
        cases same
        exact ⟨earlier, next, rfl, running⟩
      · rw [List.concat_eq_append, ← List.cons_append, ← List.append_assoc] at whole
        obtain ⟨shorter, same⟩ := List.append_inj' whole rfl
        cases same
        obtain ⟨begun, following, head, went⟩ := ih shorter
        refine ⟨begun, following, ?_, went⟩
        rw [List.concat_eq_append, List.head?_append, head]
        rfl

end History

/-- The snapshot that a pull has given. -/
def Pull.snapshot? : Pull → Option Machine
  | some (.ok m) => some m
  | _ => none

theorem Pull.snapshot?_eq_some_iff {pull : Pull} {m : Machine} :
    pull.snapshot? = some m ↔ pull = some (.ok m) := by
  obtain _ | _ | s := pull <;> simp [snapshot?]

/-- The snapshots among what pulls have given, in order. -/
def snapshots (pulls : List Pull) : List Machine := pulls.filterMap Pull.snapshot?

namespace Run

/-- What has become of a run that was pulled and given numbers of ticks, in any order: what the
pulls have given, and the run now. -/
inductive Driven (first : Run) : List Pull → Run → Prop
  | start : Driven first [] first
  | pull {pulls : List Pull} {r : Run} (before : Driven first pulls r) :
      Driven first (pulls ++ [r.next.1]) r.next.2
  | limit {pulls : List Pull} {r : Run} (maxTicks : Nat) (before : Driven first pulls r) :
      Driven first pulls (r.withMaxTicks maxTicks)

/-- How a run goes on that is paused, by what its instruction comes to. -/
def proceed (r : Run) : Outcome → Pull × Run
  | .running machine => { r with machine }.offer
  | .halted machine => (none, { r with machine, phase := .halted })
  | .faulted fault machine => (some (.error fault), { r with machine, phase := .faulted })

theorem next_of_paused {r : Run} (paused : r.phase = .paused) :
    r.next = r.proceed (r.machine.step r.input) := by
  rw [next, paused]
  cases r.machine.step r.input <;> rfl

theorem next_of_current {r : Run} {i : Instruction} (paused : r.phase = .paused)
    (current : r.machine.current? = some i) :
    r.next = r.proceed (r.machine.perform r.input i) := by
  rw [next_of_paused paused, Machine.step_of_current current]

theorem Driven.pull_of_next {first r after : Run} {pulls : List Pull} {pull : Pull}
    (before : first.Driven pulls r) (next : r.next = (pull, after)) :
    first.Driven (pulls ++ [pull]) after := by
  have pulled := before.pull
  rwa [next] at pulled

/-- Whether something may still come of the run. -/
def Continues (r : Run) : Prop := r.phase = .loaded ∨ r.phase = .paused

/-- Whether a snapshot waits for its instruction to be executed. -/
def Pending (r : Run) : Prop := r.phase = .paused

/-- Where a driven run stands, after the given pulls. -/
def Stands (first : Run) (pulls : List Pull) (r : Run) : Prop :=
  match r.phase with
  | .loaded => pulls = [] ∧ r.machine = first.machine
  | .paused =>
      ∃ earlier, pulls = earlier ++ [some (.ok r.machine)] ∧
        History first.input first.machine (snapshots earlier) r.machine
  | .halted | .faulted => ∃ earlier last, pulls = earlier ++ [last] ∧ last.snapshot? = none

section
variable {image : List UInt8} {input : Array UInt8} {first r : Run} {pulls : List Pull}

theorem machine_offer (r : Run) : r.offer.2.machine = r.machine := by
  rw [offer]
  split
  · rfl
  · split <;> rfl

/-- A fault that carries an address is that of the instruction that was to be executed. -/
theorem next_eq_fault_iff {fault : Fault} {pc : Nat} (carries : fault.pc? = some pc) :
    r.next.1 = some (.error fault) ↔
      r.phase = .paused ∧ ∃ last, r.machine.step r.input = .faulted fault last := by
  have offered (r : Run) : r.offer.1 ≠ some (.error fault) := by
    intro h
    rw [offer] at h
    split at h
    · cases h
    · split at h <;> cases h
      cases carries
  cases phase : r.phase with
  | loaded => simpa [next, phase] using offered r
  | paused =>
      rw [next_of_paused phase]
      cases step : r.machine.step r.input with
      | running m => simpa [proceed] using offered _
      | halted m | faulted other m => simp [proceed]
  | halted | faulted => simp [next, phase]

theorem input_offer (r : Run) : r.offer.2.input = r.input := by
  rw [offer]
  split
  · rfl
  · split <;> rfl

theorem input_next (r : Run) : r.next.2.input = r.input := by
  cases phase : r.phase with
  | loaded =>
      simp only [next, phase]
      exact r.input_offer
  | paused =>
      rw [next_of_paused phase]
      cases r.machine.step r.input with
      | running m => exact input_offer _
      | halted m | faulted fault m => rfl
  | halted | faulted => simp only [next, phase]

theorem stands_of_offer
    (h : History first.input first.machine (snapshots pulls) r.machine) :
    Stands first (pulls ++ [r.offer.1]) r.offer.2 := by
  rw [offer]
  split
  · exact ⟨pulls, none, rfl, rfl⟩
  · split
    · exact ⟨pulls, _, rfl, rfl⟩
    · exact ⟨pulls, rfl, h⟩

theorem stands_of_next (input : r.input = first.input) (h : Stands first pulls r) :
    Stands first (pulls ++ [r.next.1]) r.next.2 := by
  cases phase : r.phase with
  | loaded =>
      simp only [Stands, phase] at h
      obtain ⟨rfl, machine⟩ := h
      rw [show r.next = r.offer by simp only [next, phase]]
      apply stands_of_offer
      rw [machine]
      exact .start
  | paused =>
      simp only [Stands, phase] at h
      obtain ⟨earlier, rfl, history⟩ := h
      rw [next_of_paused phase]
      -- The snapshot that was waiting becomes part of the history once its instruction is executed.
      cases step : r.machine.step r.input with
      | running m =>
          apply stands_of_offer
          rw [snapshots, List.filterMap_append]
          exact history.step (input ▸ step)
      | halted m => exact ⟨_, _, rfl, rfl⟩
      | faulted fault m => exact ⟨_, _, rfl, rfl⟩
  | halted | faulted =>
      simp only [next, phase, Stands]
      exact ⟨pulls, none, rfl, rfl⟩

theorem input_of_load (h : load image input = .ok r) : r.input = input := by
  obtain ⟨program, -, -, rfl⟩ := load_eq_ok_iff.mp h
  rfl

theorem phase_of_load (h : load image input = .ok r) : r.phase = .loaded := by
  obtain ⟨program, -, -, rfl⟩ := load_eq_ok_iff.mp h
  rfl

namespace Driven

theorem input_eq (h : Driven first pulls r) : r.input = first.input := by
  induction h with
  | start => rfl
  | pull _ ih => exact (input_next _).trans ih
  | limit maxTicks _ ih => exact ih

theorem stands (fresh : first.phase = .loaded) (h : Driven first pulls r) :
    Stands first pulls r := by
  induction h with
  | start =>
      simp only [Stands, fresh, and_self]
  | pull before ih => exact stands_of_next before.input_eq ih
  | limit maxTicks _ ih => exact ih

/-- Right after a snapshot the run is paused with it, and the snapshots before it are its
history. -/
theorem history {earlier : List Pull} {m : Machine} (fresh : first.phase = .loaded)
    (h : Driven first (earlier ++ [some (.ok m)]) r) :
    r.phase = .paused ∧ r.machine = m ∧
      History first.input first.machine (snapshots earlier) m := by
  have stands := h.stands fresh
  cases phase : r.phase with
  | loaded =>
      simp only [Stands, phase] at stands
      exact absurd stands.1 (List.append_ne_nil_of_right_ne_nil _ (List.cons_ne_nil _ _))
  | paused =>
      simp only [Stands, phase] at stands
      obtain ⟨_, pulls, history⟩ := stands
      obtain ⟨rfl, last⟩ := List.append_inj' pulls rfl
      cases last
      exact ⟨rfl, rfl, history⟩
  | halted | faulted =>
      simp only [Stands, phase] at stands
      obtain ⟨_, _, pulls, none⟩ := stands
      obtain ⟨-, last⟩ := List.append_inj' pulls rfl
      cases last
      cases none

/-- A snapshot waits exactly if the last pull has given the machine as it is. -/
theorem pending_iff (fresh : first.phase = .loaded)
    (h : first.Driven pulls r) :
    r.Pending ↔ ∃ earlier, pulls = earlier ++ [some (.ok r.machine)] := by
  constructor
  · intro pending
    have stands := h.stands fresh
    simp only [Stands, show r.phase = .paused from pending] at stands
    obtain ⟨earlier, last, -⟩ := stands
    exact ⟨earlier, last⟩
  · rintro ⟨earlier, last⟩
    rw [last] at h
    exact (h.history fresh).1

end Driven
end
end Run
end SledeMachine
