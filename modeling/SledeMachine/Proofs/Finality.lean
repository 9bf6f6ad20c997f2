import SledeMachine.Proofs.Course

/-!
The end of a run. A run ends in one of two ways, and the pulls tell which: by a fault, which is
given by the last pull that gives anything, or by halting, when the instruction of the last snapshot
was to stop or has led out of memory. However the run is driven from then on, nothing more comes of
it and nothing of it changes but the limit on its ticks.
-/

namespace SledeMachine

/-- The instruction of a machine halts the program and leaves a last machine: it is to stop, or it
leads out of memory. -/
def Machine.Concludes (input : Array UInt8) (m last : Machine) : Prop :=
  m.current? = some .halt ∧ last = m.advance ∨ m.step input = .running last ∧ memorySize ≤ last.pc

/-- Of what pulls have given, something comes behind a snapshot that concludes. -/
def Concluded (input : Array UInt8) (pulls : List Pull) (last : Machine) : Prop :=
  ∃ before m pull after, pulls = before ++ some (.ok m) :: pull :: after ∧ m.Concludes input last

theorem concluded_concat {input : Array UInt8} {pulls : List Pull} {pull : Pull} {last : Machine} :
    Concluded input (pulls ++ [pull]) last ↔
      Concluded input pulls last ∨
        ∃ before m, pulls = before ++ [some (.ok m)] ∧ m.Concludes input last := by
  constructor
  · rintro ⟨before, m, next, after, split, concludes⟩
    obtain rfl | ⟨after, newest, rfl⟩ := List.eq_nil_or_concat after
    · rw [List.append_cons before] at split
      exact .inr ⟨before, m, (List.append_inj' split rfl).1, concludes⟩
    · rw [List.concat_eq_append, ← List.cons_append, ← List.cons_append,
        ← List.append_assoc] at split
      exact .inl ⟨before, m, next, after, (List.append_inj' split rfl).1, concludes⟩
  · rintro (⟨before, m, next, after, rfl, concludes⟩ | ⟨before, m, rfl, concludes⟩)
    · exact ⟨before, m, next, after ++ [pull], by simp, concludes⟩
    · exact ⟨before, m, pull, [], by simp, concludes⟩

namespace Run

section
variable {first r : Run} {pulls : List Pull} {last : Machine}

theorem phase_offer_eq_halted_iff : r.offer.2.phase = .halted ↔ memorySize ≤ r.machine.pc := by
  by_cases outside : memorySize ≤ r.machine.pc
  · simp [offer_of_outside outside, outside]
  · rw [offer, if_neg outside]
    split <;> simp [outside]

/-- A pull halts a run that waits at a snapshot that concludes, and no other. -/
theorem halted_next_iff (inside : r.phase = .loaded → r.machine.pc < memorySize) :
    r.next.2.phase = .halted ∧ r.next.2.machine = last ↔
      r.phase = .halted ∧ r.machine = last ∨
        r.phase = .paused ∧ r.machine.Concludes r.input last := by
  rw [Machine.Concludes, ← @Machine.step_eq_halted_iff r.input]
  cases phase : r.phase with
  | loaded =>
      rw [show r.next = r.offer by simp only [next, phase], phase_offer_eq_halted_iff]
      simp [Nat.not_le.mpr (inside phase)]
  | paused =>
      rw [next_of_paused phase]
      cases step : r.machine.step r.input with
      | running m =>
          rw [proceed, phase_offer_eq_halted_iff, machine_offer]
          simp [and_comm]
          rintro rfl
          rfl
      | halted m => simp [proceed]
      | faulted fault m => simp [proceed]
  | halted | faulted => simp [next_of_ended, Continues, phase]

theorem faulted_next_iff :
    r.next.2.phase = .faulted ↔ r.phase = .faulted ∨ ∃ fault, r.next.1 = some (.error fault) := by
  cases given : r.next with
  | mk pull after =>
      have live (continues : r.Continues) : r.phase ≠ .faulted := by
        obtain phase | phase := continues <;> simp [phase]
      cases gives_of_next given with
      | finished => simp
      | snapshot continues | leave continues | halt continues => simp [live continues]
      | spent | fault => simp

namespace Driven

theorem halted_iff (fresh : first.phase = .loaded) (inside : first.machine.pc < memorySize)
    (h : first.Driven pulls r) :
    r.phase = .halted ∧ r.machine = last ↔ Concluded first.input pulls last := by
  induction h with
  | start => simp [Concluded, fresh]
  | limit maxTicks _ ih => exact ih
  | @pull pulls r before ih =>
      have waits : r.phase = .paused ∧ r.machine.Concludes r.input last ↔
          ∃ earlier m, pulls = earlier ++ [some (.ok m)] ∧ m.Concludes first.input last := by
        rw [← before.input_eq]
        constructor
        · rintro ⟨paused, concludes⟩
          obtain ⟨earlier, newest⟩ := (before.pending_iff fresh).mp paused
          exact ⟨earlier, r.machine, newest, concludes⟩
        · rintro ⟨earlier, m, rfl, concludes⟩
          obtain ⟨paused, rfl, -⟩ := before.history fresh
          exact ⟨paused, concludes⟩
      rw [concluded_concat, ← ih, ← waits]
      refine halted_next_iff fun untouched => ?_
      have stands := before.stands fresh
      simp only [Stands, untouched] at stands
      rwa [stands.2]

theorem faulted_iff (fresh : first.phase = .loaded) (h : first.Driven pulls r) :
    r.phase = .faulted ↔ ∃ fault, some (.error fault) ∈ pulls := by
  induction h with
  | start => simp [fresh]
  | limit maxTicks _ ih => exact ih
  | pull _ ih =>
      rw [faulted_next_iff, ih]
      simp only [List.mem_append, List.mem_singleton, exists_or, eq_comm]

/-- Only snapshots come before a fault, and nothing comes after it. -/
theorem around_fault (fresh : first.phase = .loaded) (unused : first.ticks = 0)
    (h : first.Driven pulls r) {before after : List Pull} {fault : Fault}
    (split : pulls = before ++ some (.error fault) :: after) :
    (∀ pull ∈ before, ∃ m, pull = some (.ok m)) ∧ ∀ pull ∈ after, pull = none := by
  induction h generalizing after with
  | start => simp at split
  | limit maxTicks _ ih => exact ih split
  | @pull pulls r driven ih =>
      obtain rfl | ⟨after, newest, rfl⟩ := List.eq_nil_or_concat after
      · obtain ⟨rfl, given⟩ := List.append_inj' split rfl
        have continues : r.Continues := by
          by_contra ended
          rw [next_of_ended ended] at given
          cases given
        exact ⟨fun pull => (driven.onCourse fresh unused).snapshot_of_mem continues, nofun⟩
      · rw [List.concat_eq_append, ← List.cons_append, ← List.append_assoc] at split
        obtain ⟨earlier, given⟩ := List.append_inj' split rfl
        obtain ⟨snapshots, idle⟩ := ih earlier
        have faulted : r.phase = .faulted :=
          (driven.faulted_iff fresh).mpr ⟨fault, by simp [earlier]⟩
        have nothing : newest = none := by
          rw [next_of_ended (by simp [Continues, faulted])] at given
          exact (List.cons.inj given).1.symm
        rw [List.concat_eq_append]
        refine ⟨snapshots, List.forall_mem_append.mpr ⟨idle, ?_⟩⟩
        exact List.forall_mem_singleton.mpr nothing

end Driven
end
end Run

/-- A run ends at most once, by a fault or by halting, and nothing that is done with it afterwards
makes a difference. -/
theorem end_is_final {image : List UInt8} {input : Array UInt8} {r : Run}
    (loaded : Run.load image input = .ok r) (calls : List Run.Call) :
    let pulls := (r.drive calls).1
    let current := (r.drive calls).2
    (∀ before fault after, pulls = before ++ some (.error fault) :: after →
        (∀ pull ∈ before, ∃ m, pull = some (.ok m)) ∧ ∀ pull ∈ after, pull = none) ∧
      (current.phase = .faulted ↔ ∃ fault, some (.error fault) ∈ pulls) ∧
      (∀ last, current.final? = some last ↔ current.phase = .halted ∧ current.machine = last) ∧
      (∀ last, current.phase = .halted ∧ current.machine = last ↔
        ∃ before m pull after, pulls = before ++ some (.ok m) :: pull :: after ∧
          (m.current? = some .halt ∧ last = { m with pc := m.pc + 2 } ∨
            m.step input = .running last ∧ 4096 ≤ last.pc)) ∧
      (current.phase = .halted ∨ current.phase = .faulted → ∀ more,
        let after := (current.drive more).2
        (∀ pull ∈ (current.drive more).1, pull = none) ∧ after.machine = current.machine ∧
          after.ticks = current.ticks ∧ after.phase = current.phase ∧
          after.final? = current.final?) := by
  intro pulls current
  have fresh := Run.phase_of_load loaded
  have driven := r.driven_drive calls
  obtain ⟨unused, inside⟩ : r.ticks = 0 ∧ r.machine.pc < memorySize := by
    obtain ⟨program, -, -, rfl⟩ := Run.load_eq_ok_iff.mp loaded
    exact ⟨rfl, Nat.zero_lt_succ _⟩
  refine ⟨?_, driven.faulted_iff fresh, fun last => ?_, fun last => ?_, fun ended more => ?_⟩
  · intro before fault after split
    exact driven.around_fault fresh unused split
  · cases phase : current.phase <;> simp [Run.final?, phase]
  · rw [← Run.input_of_load loaded]
    exact driven.halted_iff fresh inside
  · have idle : ¬ current.Continues := by
      obtain phase | phase := ended <;> simp [Run.Continues, phase]
    obtain ⟨nothing, same⟩ := @Run.drive_of_ended _ more idle
    simp only [same]
    exact ⟨nothing, rfl, rfl, rfl, rfl⟩

/-- The instruction to stop is executed although no tick is left for another one, and later ticks do
not revive the run. -/
theorem end_is_final_stopped :
    let m₀ : Machine := ⟨0, false, .zero, .ofProgram [0x00, 0x00], #[], 0, []⟩
    let m₁ : Machine := { m₀ with pc := 2 }
    let r : Run := ⟨m₀, #[], 1000, 0, .loaded⟩
    let current := (r.drive [.pull, .limit 0, .pull]).2
    Run.load (Image.tag ++ [0x00, 0x00]) #[] = .ok r ∧
      (current.phase = .halted ∨ current.phase = .faulted) ∧
      current.final? = some m₁ ∧
      (current.drive [.limit 5, .pull]).2.final? = some m₁ := by
  intro m₀ m₁ r current
  have loaded : Run.load (Image.tag ++ [0x00, 0x00]) #[] = .ok r := rfl
  have halt : m₀.current? = some .halt :=
    (Machine.current?_of_program (m := m₀) rfl (by decide)).trans (by decide)
  let r₀ : Run := ⟨m₀, #[], 1000, 1, .paused⟩
  let r₁ : Run := ⟨m₁, #[], 0, 1, .halted⟩
  have first : r.next = (some (.ok m₀), r₀) := rfl
  have second : (r₀.withMaxTicks 0).next = (none, r₁) :=
    Run.next_of_current (r := r₀.withMaxTicks 0) rfl halt
  have driven : r.drive [.pull, .limit 0, .pull] = ([some (.ok m₀), none], r₁) := by
    rw [Run.drive_of_next first, Run.drive, Run.drive_of_next second, Run.drive]
  have stands : current = r₁ := by rw [show current = (r.drive _).2 from rfl, driven]
  obtain ⟨-, -, final, -, stays⟩ := end_is_final loaded [.pull, .limit 0, .pull]
  have ended : current.phase = .halted ∨ current.phase = .faulted := by
    rw [stands]
    exact .inl rfl
  have halted : current.final? = some m₁ := by
    refine (final m₁).mpr ?_
    rw [driven]
    exact ⟨rfl, rfl⟩
  obtain ⟨-, -, -, -, same⟩ := stays ended [.limit 5, .pull]
  exact ⟨loaded, ended, halted, same.trans halted⟩

end SledeMachine
