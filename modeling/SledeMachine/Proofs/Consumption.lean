import SledeMachine.Proofs.Bounds
import SledeMachine.Proofs.Completion

/-!
Input that is not consumed has no influence. Only reading looks at the input, and only at the byte
at which it stands; where it finds one, the reading moves past it. So a run on one input and a run
on another go in lockstep as long as the inputs agree on what the first has consumed. They part at
most where the first finds no byte to read, and up to there their snapshots are the same.
-/

namespace SledeMachine

/-- The machine that an outcome leaves. -/
def Outcome.machine : Outcome → Machine
  | .running m | .halted m | .faulted _ m => m

namespace Machine
variable {u v : Array UInt8} {m next : Machine}

theorem step_congr
    (same : ∀ a, m.current? = some (.read a) → v[m.inputPos]? = u[m.inputPos]?) :
    m.step v = m.step u := by
  cases current : m.current? with
  | none => rw [step_of_current_eq_none current, step_of_current_eq_none current]
  | some i =>
      rw [step_of_current current, step_of_current current]
      cases i with
      | read a => simp only [perform, execute, same a current]
      | _ => rfl

/-- What a step has read is consumed after it. -/
theorem step_running_of_agree (running : m.step u = .running next)
    (agree : ∀ k < next.inputPos, v[k]? = u[k]?) : m.step v = .running next := by
  rw [← running]
  apply step_congr
  intro a current
  apply agree
  rw [inputPos_of_step running, reads, current]
  exact Nat.lt_succ_self m.inputPos

theorem step_faulted_of_ne {fault : Fault} (faulted : m.step u = .faulted fault next)
    (other : ∀ pc, fault ≠ .readPastEnd pc) : m.step v = .faulted fault next := by
  rw [← faulted]
  apply step_congr
  intro a current
  obtain ⟨-, ⟨none, -⟩ | ⟨i, current', fails⟩⟩ := step_eq_faulted_iff.mp faulted
  · cases none.symm.trans current
  · cases current'.symm.trans current
    cases fails
    exact absurd rfl (other m.pc)

theorem step_halted_of_halted (halted : m.step u = .halted next) : m.step v = .halted next :=
  step_eq_halted_iff.mpr (step_eq_halted_iff.mp halted)

theorem inputPos_le_step (input : Array UInt8) (m : Machine) :
    m.inputPos ≤ (m.step input).machine.inputPos := by
  cases step : m.step input with
  | running next =>
      rw [Outcome.machine, inputPos_of_step step]
      exact Nat.le_add_right _ _
  | halted last =>
      rw [(step_eq_halted_iff.mp step).2]
      exact Nat.le_refl _
  | faulted fault last =>
      rw [(step_eq_faulted_iff.mp step).1]
      exact Nat.le_refl _

end Machine

namespace Run

def withInput (r : Run) (input : Array UInt8) : Run := { r with input }

section
variable {r after : Run} {pull : Pull} {v : Array UInt8}

theorem offer_withInput (r : Run) (v : Array UInt8) :
    (r.withInput v).offer = (r.offer.1, r.offer.2.withInput v) := by
  by_cases outside : memorySize ≤ r.machine.pc
  · rw [offer_of_outside outside, offer_of_outside (r := r.withInput v) outside]
    rfl
  · have inside : r.machine.pc < memorySize := Nat.not_le.mp outside
    by_cases spent : r.maxTicks < r.ticks + 1
    · rw [offer_of_spent inside spent, offer_of_spent (r := r.withInput v) inside spent]
      rfl
    · rw [offer_of_left inside spent, offer_of_left (r := r.withInput v) inside spent]
      rfl

theorem proceed_withInput (r : Run) (v : Array UInt8) (outcome : Outcome) :
    (r.withInput v).proceed outcome =
      ((r.proceed outcome).1, (r.proceed outcome).2.withInput v) := by
  cases outcome with
  | running m => exact offer_withInput { r with machine := m } v
  | halted m | faulted fault m => rfl

theorem next_withInput (same : (r.withInput v).upcoming = r.upcoming) :
    (r.withInput v).next = (r.next.1, r.next.2.withInput v) := by
  by_cases continues : r.Continues
  · have also : (r.withInput v).Continues := continues
    rw [next_of_continues also, same, proceed_withInput, next_of_continues continues]
  · have also : ¬ (r.withInput v).Continues := continues
    rw [next_of_ended also, next_of_ended continues]

/-- A pull that does not fail to read does the same on another input, if the inputs agree on what
has been consumed after it. -/
theorem Gives.upcoming_withInput (rule : r.Gives pull after)
    (other : ∀ pc, pull ≠ some (.error (.readPastEnd pc)))
    (agree : ∀ k < after.machine.inputPos, v[k]? = r.input[k]?) :
    (r.withInput v).upcoming = r.upcoming := by
  cases phase : r.phase with
  | loaded | halted | faulted => simp only [upcoming, withInput, phase]
  | paused =>
      have waits : r.upcoming = r.machine.step r.input := by simp only [upcoming, phase]
      have waits' : (r.withInput v).upcoming = r.machine.step v := by
        simp only [upcoming, withInput, phase]
      rw [waits', waits]
      cases rule with
      | finished ended => exact absurd (.inr phase) ended
      | snapshot _ upcoming | spent _ upcoming | leave _ upcoming =>
          rw [waits] at upcoming
          rw [upcoming, Machine.step_running_of_agree upcoming agree]
      | halt _ upcoming =>
          rw [waits] at upcoming
          rw [upcoming, Machine.step_halted_of_halted upcoming]
      | @fault fault _ _ upcoming =>
          rw [waits] at upcoming
          rw [upcoming, Machine.step_faulted_of_ne upcoming]
          intro pc reads
          exact other pc (reads ▸ rfl)

theorem inputPos_le_upcoming (r : Run) :
    r.machine.inputPos ≤ r.upcoming.machine.inputPos := by
  cases phase : r.phase with
  | loaded | halted | faulted => simp only [upcoming, phase, Outcome.machine, Nat.le_refl]
  | paused => simpa only [upcoming, phase] using r.machine.inputPos_le_step r.input

theorem Gives.inputPos_le (rule : r.Gives pull after) :
    r.machine.inputPos ≤ after.machine.inputPos := by
  have moved := r.inputPos_le_upcoming
  cases rule with
  | finished ended => exact Nat.le_refl _
  | snapshot _ upcoming | spent _ upcoming | leave _ upcoming | halt _ upcoming
  | fault _ upcoming => rwa [upcoming] at moved

theorem inputPos_le_pullAll (r : Run) : r.machine.inputPos ≤ r.pullAll.2.machine.inputPos := by
  induction r using pullAll.induct with
  | case1 r item after given _ _ _ ih =>
      rw [pullAll_of_some given]
      exact Nat.le_trans (gives_of_next given).inputPos_le ih
  | case2 r after given =>
      rw [pullAll_of_none given]
      exact (gives_of_next given).inputPos_le

/-- Two runs that differ in what the first has not consumed go in lockstep to the end, or to where
the first finds nothing to read. -/
theorem pullAll_withInput
    (agree : ∀ k < r.pullAll.2.machine.inputPos, v[k]? = r.input[k]?) :
    (r.withInput v).pullAll = (r.pullAll.1, r.pullAll.2.withInput v) ∨
      ∃ front pc, r.pullAll.1 = front ++ [.error (.readPastEnd pc)] ∧
        front <+: (r.withInput v).pullAll.1 := by
  induction r using pullAll.induct with
  | case1 r item after given _ _ _ ih =>
      have rule := gives_of_next given
      rw [pullAll_of_some given] at agree ⊢
      by_cases short : ∃ pc, item = .error (.readPastEnd pc)
      · obtain ⟨pc, rfl⟩ := short
        have ended : ¬ after.Continues := by
          apply rule.ended
          intro m snapshot
          cases snapshot
        rw [pullAll_of_not_continues ended]
        exact .inr ⟨[], pc, rfl, List.nil_prefix⟩
      · have same : (r.withInput v).upcoming = r.upcoming := by
          apply rule.upcoming_withInput
          · intro pc reads
            exact short ⟨pc, Option.some.inj reads⟩
          · -- What this pull has consumed is part of what the whole run consumes.
            intro k consumed
            exact agree k (Nat.lt_of_lt_of_le consumed after.inputPos_le_pullAll)
        have follows : (r.withInput v).next = (some item, after.withInput v) := by
          rw [next_withInput same, given]
        have input : after.input = r.input := by
          rw [← input_next r, given]
        rw [pullAll_of_some follows]
        cases ih (input ▸ agree) with
        | inl lockstep =>
            rw [lockstep]
            exact .inl rfl
        | inr parted =>
            obtain ⟨front, pc, items, common⟩ := parted
            rw [items]
            exact .inr ⟨item :: front, pc, rfl, List.cons_prefix_cons.mpr ⟨rfl, common⟩⟩
  | case2 r after given =>
      have rule := gives_of_next given
      rw [pullAll_of_none given] at agree ⊢
      have same : (r.withInput v).upcoming = r.upcoming := by
        apply rule.upcoming_withInput _ agree
        intro pc reads
        cases reads
      have follows : (r.withInput v).next = (none, after.withInput v) := by
        rw [next_withInput same, given]
      exact .inl (pullAll_of_none follows)

end
end Run

/-- A run pulled to its end depends on no more of its input than it has consumed. -/
theorem pulls_depend_on_consumed {image : List UInt8} {u v : Array UInt8} {r s : Run}
    (loaded : Run.load image u = .ok r) (other : Run.load image v = .ok s) (budget : Nat) :
    let pulled := (r.withMaxTicks budget).pullAll
    let pulled' := (s.withMaxTicks budget).pullAll
    let consumed := pulled.2.machine.inputPos
    consumed ≤ u.size ∧
      ((∀ pc, pulled.1.getLast? ≠ some (.error (.readPastEnd pc))) →
        (∀ k < consumed, v[k]? = u[k]?) →
        pulled' = (pulled.1, { pulled.2 with input := v })) ∧
      ∀ pc, pulled.1.getLast? = some (.error (.readPastEnd pc)) → (∃ w, v = u ++ w) →
        ∃ past : List Machine,
          pulled.1 = past.map .ok ++ [.error (.readPastEnd pc)] ∧
            past.map .ok <+: pulled'.1 := by
  intro pulled pulled' consumed
  have input : (r.withMaxTicks budget).input = u := by
    rw [← Run.input_of_load loaded]
    rfl
  have second : s.withMaxTicks budget = (r.withMaxTicks budget).withInput v := by
    obtain ⟨program, -, rfl, rfl⟩ := Run.load_eq_ok_iff.mp loaded
    obtain ⟨program', -, same, rfl⟩ := Run.load_eq_ok_iff.mp other
    rw [List.append_cancel_left same]
    rfl
  have within : consumed ≤ u.size := by
    have driven := (Run.Driven.start.limit budget : r.Driven [] (r.withMaxTicks budget)).pullAll
    have read := (driven.within (Run.within_of_load loaded)).bounded.read
    rwa [driven.input_eq, Run.input_of_load loaded] at read
  have lockstep (agree : ∀ k < consumed, v[k]? = u[k]?) :
      pulled' = (pulled.1, pulled.2.withInput v) ∨
        ∃ front pc, pulled.1 = front ++ [.error (.readPastEnd pc)] ∧ front <+: pulled'.1 := by
    simp only [pulled', second]
    exact Run.pullAll_withInput (input ▸ agree)
  refine ⟨within, fun enough agree => ?_, fun pc short longer => ?_⟩
  · cases lockstep agree with
    | inl same => exact same
    | inr parted =>
        obtain ⟨front, pc, items, -⟩ := parted
        refine absurd ?_ (enough pc)
        rw [items, List.getLast?_concat]
  · obtain ⟨w, rfl⟩ := longer
    have agree : ∀ k < consumed, (u ++ w)[k]? = u[k]? := by
      intro k below
      exact Array.getElem?_append_left (Nat.lt_of_lt_of_le below within)
    have continues : (r.withMaxTicks budget).Continues :=
      .inl (show r.phase = .loaded from Run.phase_of_load loaded)
    obtain ⟨past, items⟩ := Run.pullAll_items_of_getLast? continues short
    refine ⟨past, items, ?_⟩
    cases lockstep agree with
    | inl same =>
        rw [same, items]
        exact List.prefix_append _ _
    | inr parted =>
        obtain ⟨front, pc', items', common⟩ := parted
        obtain ⟨rfl, -⟩ := List.append_inj' (items.symm.trans items') rfl
        exact common

/-- What stands behind the one byte that the program reads may be anything. -/
theorem pulls_depend_on_consumed_first :
    let program : List UInt8 := [0x06, 0x02, 0x00, 0x00]
    let m₀ : Machine := ⟨0, false, .zero, .ofProgram program, #[], 0, []⟩
    let m₁ : Machine := { m₀ with pc := 2, registers := m₀.registers.set 2 9, inputPos := 1 }
    let r : Run := ⟨m₀, #[9, 1], 1000, 0, .loaded⟩
    let s : Run := ⟨m₀, #[9, 7, 7], 1000, 0, .loaded⟩
    (Run.load (Image.tag ++ program) #[9, 1] = .ok r ∧
        Run.load (Image.tag ++ program) #[9, 7, 7] = .ok s) ∧
      (r.withMaxTicks 2).pullAll.1 = [.ok m₀, .ok m₁] ∧
      (s.withMaxTicks 2).pullAll =
        ([.ok m₀, .ok m₁], ⟨m₁.advance, #[9, 7, 7], 2, 2, .halted⟩) := by
  intro program m₀ m₁ r s
  have loaded : Run.load (Image.tag ++ program) #[9, 1] = .ok r := rfl
  have other : Run.load (Image.tag ++ program) #[9, 7, 7] = .ok s := rfl
  have read : m₀.current? = some (.read 2) :=
    (Machine.current?_of_program (m := m₀) rfl (by decide)).trans (by decide)
  have halt : m₁.current? = some .halt :=
    (Machine.current?_of_program (m := m₁) rfl (by decide)).trans (by decide)
  let r₀ : Run := ⟨m₀, #[9, 1], 2, 1, .paused⟩
  let r₁ : Run := ⟨m₁, #[9, 1], 2, 2, .paused⟩
  have first : (r.withMaxTicks 2).next = (some (.ok m₀), r₀) := rfl
  have second : r₀.next = (some (.ok m₁), r₁) := Run.next_of_current (r := r₀) rfl read
  have third : r₁.next = (none, { r₁ with machine := m₁.advance, phase := .halted }) :=
    Run.next_of_current (r := r₁) rfl halt
  have pulled : (r.withMaxTicks 2).pullAll =
      ([.ok m₀, .ok m₁], { r₁ with machine := m₁.advance, phase := .halted }) := by
    rw [Run.pullAll_of_some first, Run.pullAll_of_some second, Run.pullAll_of_none third]
  have same := (pulls_depend_on_consumed loaded other 2).2.1
  rw [pulled] at same ⊢
  refine ⟨⟨loaded, other⟩, rfl, same (fun _ last => nomatch last) ?_⟩
  intro k below
  rw [Nat.lt_one_iff.mp below]
  rfl

end SledeMachine
