import SledeMachine.Proofs.History

/-!
How a pull goes. Something comes before each snapshot: the first is preceded by nothing, every
other one by the instruction of the snapshot before it. What this comes to, whether the counter is
then inside memory and whether a tick is left decide what a pull gives and where it leaves the run.
There is one rule for each way in which a pull goes, and one for the run that has ended, of which
no pull changes anything.
-/

namespace SledeMachine
namespace Run

/-- What comes before the next snapshot. -/
def upcoming (r : Run) : Outcome :=
  match r.phase with
  | .paused => r.machine.step r.input
  | .loaded | .halted | .faulted => .running r.machine

/-- What a pull gives, and the run after it. -/
inductive Gives (r : Run) : Pull → Run → Prop
  | finished (ended : ¬ r.Continues) : Gives r none r
  | snapshot {m : Machine} (continues : r.Continues) (upcoming : r.upcoming = .running m)
      (inside : m.pc < memorySize) (left : r.ticks < r.maxTicks) :
      Gives r (some (.ok m)) { r with machine := m, ticks := r.ticks + 1, phase := .paused }
  | spent {m : Machine} (continues : r.Continues) (upcoming : r.upcoming = .running m)
      (inside : m.pc < memorySize) (spent : r.maxTicks ≤ r.ticks) :
      Gives r (some (.error (.exhausted r.maxTicks)))
        { r with machine := m, ticks := r.ticks + 1, phase := .faulted }
  | leave {m : Machine} (continues : r.Continues) (upcoming : r.upcoming = .running m)
      (outside : memorySize ≤ m.pc) : Gives r none { r with machine := m, phase := .halted }
  | halt {m : Machine} (continues : r.Continues) (upcoming : r.upcoming = .halted m) :
      Gives r none { r with machine := m, phase := .halted }
  | fault {fault : Fault} {m : Machine} (continues : r.Continues)
      (upcoming : r.upcoming = .faulted fault m) :
      Gives r (some (.error fault)) { r with machine := m, phase := .faulted }

section
variable {r after : Run} {pull : Pull}

theorem upcoming_eq_faulted_iff {fault : Fault} {m : Machine} :
    r.upcoming = .faulted fault m ↔
      r.phase = .paused ∧ r.machine.step r.input = .faulted fault m := by
  cases phase : r.phase <;> simp [upcoming, phase]

theorem next_of_continues (continues : r.Continues) : r.next = r.proceed r.upcoming := by
  cases continues with
  | inl fresh =>
      rw [next, upcoming, fresh]
      rfl
  | inr paused => rw [next_of_paused paused, upcoming, paused]

theorem next_of_ended (ended : ¬ r.Continues) : r.next = (none, r) := by
  cases phase : r.phase with
  | loaded => exact absurd (.inl phase) ended
  | paused => exact absurd (.inr phase) ended
  | halted | faulted => simp only [next, phase]

/-- Every pull goes by one of the rules. -/
theorem gives_next (r : Run) : r.Gives r.next.1 r.next.2 := by
  by_cases continues : r.Continues
  · rw [next_of_continues continues]
    cases upcoming : r.upcoming with
    | running m =>
        simp only [proceed]
        by_cases outside : memorySize ≤ m.pc
        · rw [offer_of_outside (r := { r with machine := m }) outside]
          exact .leave continues upcoming outside
        · have inside : m.pc < memorySize := Nat.not_le.mp outside
          by_cases spent : r.maxTicks < r.ticks + 1
          · rw [offer_of_spent (r := { r with machine := m }) inside spent]
            exact .spent continues upcoming inside (Nat.le_of_lt_succ spent)
          · rw [offer_of_left (r := { r with machine := m }) inside spent]
            exact .snapshot continues upcoming inside (Nat.not_lt.mp spent)
    | halted m => exact .halt continues upcoming
    | faulted fault m => exact .fault continues upcoming
  · rw [next_of_ended continues]
    exact .finished continues

theorem gives_of_next (h : r.next = (pull, after)) : r.Gives pull after := by
  have rule := r.gives_next
  rwa [h] at rule

/-- A run goes on after a pull only if the pull has given a snapshot. -/
theorem Gives.continues_iff (h : r.Gives pull after) :
    after.Continues ↔ ∃ m, pull = some (.ok m) := by
  cases h with
  | finished ended => simp [ended]
  | snapshot => simp [Continues]
  | spent | leave | halt | fault => simp [Continues]

theorem Gives.ended (h : r.Gives pull after) (other : ∀ m, pull ≠ some (.ok m)) :
    ¬ after.Continues := by
  intro continues
  obtain ⟨m, snapshot⟩ := h.continues_iff.mp continues
  exact other m snapshot

/-- A snapshot costs a tick that was left. -/
theorem Gives.left {m : Machine} (h : r.Gives (some (.ok m)) after) :
    r.Continues ∧ r.ticks < r.maxTicks := by
  cases h with
  | snapshot continues _ _ left => exact ⟨continues, left⟩

end
end Run
end SledeMachine
