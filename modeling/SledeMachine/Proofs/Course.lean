import Mathlib.Data.List.Induction
import SledeMachine.Proofs.PullRule

/-!
Limits on ticks. Without one, a program has a course of its own: a snapshot, the next one, and so
on, until it ends, with a fault or without. Whoever drives a run pulls it and sets the limit between
pulls as they like. The snapshots that they get are those at the beginning of the course, and as
long as the run goes on a pull gives what comes next in it, save where that is a snapshot and the
limit leaves no tick for it.
-/

namespace SledeMachine

/-- What a pull gives for an outcome if ticks are not limited. -/
def Outcome.due : Outcome → Pull
  | .running m => if memorySize ≤ m.pc then none else some (.ok m)
  | .halted _ => none
  | .faulted fault _ => some (.error fault)

/-- What pulls give one after the other, from a machine on, if ticks are not limited. -/
def Machine.course (input : Array UInt8) (m : Machine) : Nat → Pull
  | 0 => (Outcome.running m).due
  | n + 1 =>
      match m.course input n with
      | some (.ok s) => (s.step input).due
      | _ => none

theorem Machine.course_mono {input : Array UInt8} {m s : Machine} {i j : Nat} (le : i ≤ j)
    (h : m.course input j = some (.ok s)) : ∃ s, m.course input i = some (.ok s) := by
  induction le generalizing s with
  | refl => exact ⟨s, h⟩
  | @step j _ ih =>
      rw [course] at h
      split at h
      · rename_i t before
        exact ih before
      · cases h

namespace Run

/-- What is done with a run: it is pulled, or the limit on its ticks is set. -/
inductive Call
  | pull
  | limit (maxTicks : Nat)

/-- What the pulls among the calls give, and the run after all of them. -/
def drive (r : Run) : List Call → List Pull × Run
  | [] => ([], r)
  | .pull :: calls =>
      let (pulls, last) := r.next.2.drive calls
      (r.next.1 :: pulls, last)
  | .limit maxTicks :: calls => (r.withMaxTicks maxTicks).drive calls

/-- The limit in force after calls, from the one in force before them. -/
def limitAfter (maxTicks : Nat) : List Call → Nat
  | [] => maxTicks
  | .pull :: calls => limitAfter maxTicks calls
  | .limit n :: calls => limitAfter n calls

/-- The limits in force at the pulls among the calls, from the one in force before them. -/
def limitsAtPulls (maxTicks : Nat) : List Call → List Nat
  | [] => []
  | .pull :: calls => maxTicks :: limitsAtPulls maxTicks calls
  | .limit n :: calls => limitsAtPulls n calls

section
variable {r : Run} {calls : List Call}

theorem drive_of_next {pull : Pull} {after : Run} (h : r.next = (pull, after)) :
    r.drive (.pull :: calls) = (pull :: (after.drive calls).1, (after.drive calls).2) := by
  rw [drive, h]

theorem drive_concat_pull :
    r.drive (calls ++ [.pull]) =
      ((r.drive calls).1 ++ [(r.drive calls).2.next.1], (r.drive calls).2.next.2) := by
  induction calls generalizing r with
  | nil => rfl
  | cons call calls ih => cases call <;> simp only [List.cons_append, drive, ih]

theorem drive_concat_limit (n : Nat) :
    r.drive (calls ++ [.limit n]) =
      ((r.drive calls).1, (r.drive calls).2.withMaxTicks n) := by
  induction calls generalizing r with
  | nil => rfl
  | cons call calls ih => cases call <;> simp only [List.cons_append, drive, ih]

theorem limitsAtPulls_concat_pull {maxTicks : Nat} :
    limitsAtPulls maxTicks (calls ++ [.pull]) =
      limitsAtPulls maxTicks calls ++ [limitAfter maxTicks calls] := by
  induction calls generalizing maxTicks with
  | nil => rfl
  | cons call calls ih =>
      cases call <;> simp only [List.cons_append, limitsAtPulls, limitAfter, ih]

theorem limitsAtPulls_concat_limit {maxTicks : Nat} (n : Nat) :
    limitsAtPulls maxTicks (calls ++ [.limit n]) = limitsAtPulls maxTicks calls := by
  induction calls generalizing maxTicks with
  | nil => rfl
  | cons call calls ih => cases call <;> simp only [List.cons_append, limitsAtPulls, ih]

theorem driven_drive (r : Run) (calls : List Call) :
    r.Driven (r.drive calls).1 (r.drive calls).2 := by
  induction calls using List.reverseRecOn with
  | nil => exact .start
  | append_singleton calls call ih =>
      cases call with
      | pull =>
          rw [drive_concat_pull]
          exact ih.pull
      | limit n =>
          rw [drive_concat_limit]
          exact ih.limit n

theorem Gives.maxTicks_eq {pull : Pull} {after : Run} (rule : r.Gives pull after) :
    after.maxTicks = r.maxTicks := by
  cases rule <;> rfl

theorem maxTicks_drive (r : Run) (calls : List Call) :
    (r.drive calls).2.maxTicks = limitAfter r.maxTicks calls := by
  induction calls generalizing r with
  | nil => rfl
  | cons call calls ih =>
      cases call with
      | pull =>
          rw [limitAfter, ← r.gives_next.maxTicks_eq]
          exact ih r.next.2
      | limit n => exact ih (r.withMaxTicks n)

/-- Of a run that has ended, calls change no more than the limit, and pulls give nothing. -/
theorem drive_of_ended (ended : ¬ r.Continues) :
    (∀ pull ∈ (r.drive calls).1, pull = none) ∧
      (r.drive calls).2 = r.withMaxTicks (limitAfter r.maxTicks calls) := by
  induction calls generalizing r with
  | nil => exact ⟨nofun, rfl⟩
  | cons call calls ih =>
      cases call with
      | pull =>
          simp only [drive, limitAfter, next_of_ended ended]
          exact ⟨List.forall_mem_cons.mpr ⟨rfl, (ih ended).1⟩, (ih ended).2⟩
      | limit n => exact ih (r := r.withMaxTicks n) ended

end

/-- Where a driven run stands in the course of its program. -/
structure OnCourse (first : Run) (pulls : List Pull) (r : Run) : Prop where
  taken (k : Nat) (m : Machine) :
    (snapshots pulls)[k]? = some m → first.machine.course first.input k = some (.ok m)
  going (continues : r.Continues) :
    r.ticks = (snapshots pulls).length ∧ pulls.length = (snapshots pulls).length ∧
      r.upcoming.due = first.machine.course first.input (snapshots pulls).length

section
variable {first r after : Run} {pulls : List Pull} {pull : Pull}

theorem snapshots_concat (pulls : List Pull) (pull : Pull) :
    snapshots (pulls ++ [pull]) = snapshots pulls ++ pull.snapshot?.toList := by
  rw [snapshots, List.filterMap_append]
  cases taken : pull.snapshot? <;> simp [taken, snapshots]

theorem OnCourse.gives (h : OnCourse first pulls r) (input : r.input = first.input)
    (rule : r.Gives pull after) : OnCourse first (pulls ++ [pull]) after := by
  cases taken : pull.snapshot? with
  | none =>
      have ended : ¬ after.Continues := rule.ended fun m snapshot => by
        rw [snapshot] at taken
        cases taken
      refine ⟨?_, fun continues => absurd continues ended⟩
      rw [snapshots_concat, taken, Option.toList_none, List.append_nil]
      exact h.taken
  | some m =>
      cases Pull.snapshot?_eq_some_iff.mp taken
      cases rule with
      | snapshot continues upcoming inside left =>
          obtain ⟨ticks, length, due⟩ := h.going continues
          rw [upcoming, Outcome.due, if_neg (Nat.not_le.mpr inside)] at due
          constructor
          · intro k s given
            rw [snapshots_concat, List.getElem?_append] at given
            split at given
            · exact h.taken k s given
            · rename_i beyond
              have last : k = (snapshots pulls).length := by
                have := (List.getElem?_eq_some_iff.mp given).1
                simp only [taken, Option.toList_some, List.length_singleton] at this
                omega
              subst last
              rw [Nat.sub_self, taken] at given
              cases given
              exact due.symm
          · intro _
            rw [snapshots_concat, taken, Option.toList_some, List.length_append,
              List.length_singleton, List.length_append, List.length_singleton]
            refine ⟨congrArg (· + 1) ticks, congrArg (· + 1) length, ?_⟩
            rw [Machine.course, ← due, ← input]
            rfl

theorem Driven.onCourse (fresh : first.phase = .loaded) (unused : first.ticks = 0)
    (h : first.Driven pulls r) : OnCourse first pulls r := by
  induction h with
  | start =>
      refine ⟨nofun, fun _ => ⟨unused, rfl, ?_⟩⟩
      rw [upcoming, fresh]
      rfl
  | pull before ih => exact ih.gives before.input_eq (gives_next _)
  | limit maxTicks _ ih => exact ⟨ih.taken, ih.going⟩

/-- The limit stops a run exactly where a snapshot is due and no tick is left for it. -/
theorem Gives.exhausted_iff {budget : Nat} (rule : r.Gives pull after) (continues : r.Continues) :
    pull = some (.error (.exhausted budget)) ↔
      budget = r.maxTicks ∧ r.maxTicks ≤ r.ticks ∧ ∃ m, r.upcoming.due = some (.ok m) := by
  cases rule with
  | finished ended => exact absurd continues ended
  | snapshot _ upcoming inside left =>
      simp [Nat.not_le.mpr left]
  | spent _ upcoming inside spent =>
      simp [upcoming, Outcome.due, inside, spent, eq_comm]
  | leave _ upcoming outside => simp [upcoming, Outcome.due, outside]
  | halt _ upcoming => simp [upcoming, Outcome.due]
  | fault _ upcoming =>
      have carries := Machine.pc_of_step_faulted (upcoming_eq_faulted_iff.mp upcoming).2
      simp only [upcoming, Outcome.due, Option.some.injEq, reduceCtorEq, exists_false, and_false,
        iff_false, Except.error.injEq]
      rintro rfl
      cases carries

theorem Gives.eq_due (rule : r.Gives pull after) (continues : r.Continues)
    (left : ∀ budget, pull ≠ some (.error (.exhausted budget))) : pull = r.upcoming.due := by
  cases rule with
  | finished ended => exact absurd continues ended
  | snapshot _ upcoming inside =>
      rw [upcoming, Outcome.due, if_neg (Nat.not_le.mpr inside)]
  | spent => exact absurd rfl (left r.maxTicks)
  | leave _ upcoming outside => rw [upcoming, Outcome.due, if_pos outside]
  | halt _ upcoming | fault _ upcoming => rw [upcoming, Outcome.due]

end

section
variable {r : Run} {calls : List Call} {budget : Nat}

theorem onCourse_drive (fresh : r.phase = .loaded) (unused : r.ticks = 0) (calls : List Call) :
    OnCourse r (r.drive calls).1 (r.drive calls).2 :=
  (r.driven_drive calls).onCourse fresh unused

/-- A run is not stopped for want of ticks if there are never fewer than its course has
snapshots. -/
theorem not_exhausted_of_le (fresh : r.phase = .loaded) (unused : r.ticks = 0)
    (enough : ∀ limit ∈ limitsAtPulls r.maxTicks calls, budget ≤ limit)
    (ends : ∀ m, r.machine.course r.input budget ≠ some (.ok m)) (limit : Nat) :
    some (.error (.exhausted limit)) ∉ (r.drive calls).1 := by
  induction calls using List.reverseRecOn with
  | nil => exact List.not_mem_nil
  | append_singleton calls call ih =>
      cases call with
      | limit n =>
          rw [limitsAtPulls_concat_limit] at enough
          rw [drive_concat_limit]
          exact ih enough
      | pull =>
          rw [limitsAtPulls_concat_pull, List.forall_mem_append] at enough
          rw [drive_concat_pull, List.mem_append, List.mem_singleton]
          rintro (earlier | now)
          · exact ih enough.1 earlier
          · by_cases continues : (r.drive calls).2.Continues
            · obtain ⟨ticks, -, due⟩ := (onCourse_drive fresh unused calls).going continues
              obtain ⟨-, spent, m, given⟩ :=
                ((gives_next _).exhausted_iff continues).mp now.symm
              -- What is due lies at the budget or later, and a course has no gap before a snapshot.
              have most := enough.2 _ (List.mem_singleton_self _)
              rw [maxTicks_drive, ticks] at spent
              obtain ⟨s, early⟩ :=
                Machine.course_mono (Nat.le_trans most spent) (due.symm.trans given)
              exact ends s early
            · rw [next_of_ended continues] at now
              cases now

theorem length_snapshots_le (fresh : r.phase = .loaded) (unused : r.ticks = 0)
    (most : ∀ limit ∈ limitsAtPulls r.maxTicks calls, limit ≤ budget) :
    (snapshots (r.drive calls).1).length ≤ budget := by
  induction calls using List.reverseRecOn with
  | nil => exact Nat.zero_le budget
  | append_singleton calls call ih =>
      cases call with
      | limit n =>
          rw [limitsAtPulls_concat_limit] at most
          rw [drive_concat_limit]
          exact ih most
      | pull =>
          rw [limitsAtPulls_concat_pull, List.forall_mem_append] at most
          rw [drive_concat_pull, snapshots_concat, List.length_append]
          have rule := (r.drive calls).2.gives_next
          cases taken : (r.drive calls).2.next.1.snapshot? with
          | none => exact ih most.1
          | some m =>
              -- Each snapshot so far has cost a tick, and this one finds one more.
              rw [Pull.snapshot?_eq_some_iff.mp taken] at rule
              obtain ⟨continues, left⟩ := rule.left
              rw [maxTicks_drive, ((onCourse_drive fresh unused calls).going continues).1] at left
              exact Nat.le_trans left (most.2 _ (List.mem_singleton_self _))

/-- As long as a run goes on, every pull has given a snapshot. -/
theorem OnCourse.snapshot_of_mem {first : Run} {pulls : List Pull} {pull : Pull}
    (h : OnCourse first pulls r) (continues : r.Continues) (given : pull ∈ pulls) :
    ∃ m, pull = some (.ok m) := by
  have all := List.filterMap_length_eq_length.mp (h.going continues).2.1.symm
  obtain ⟨m, taken⟩ := Option.isSome_iff_exists.mp (all pull given)
  exact ⟨m, Pull.snapshot?_eq_some_iff.mp taken⟩

end
end Run

/-- A limit on ticks cuts the course of a program short and does nothing else. -/
theorem limits_cut_course {image : List UInt8} {input : Array UInt8} {r : Run}
    (loaded : Run.load image input = .ok r) (calls : List Run.Call) :
    let course := (Turn.loaded image).course input
    let pulls := (r.drive calls).1
    let current := (r.drive calls).2
    let taken := snapshots pulls
    let limit := Run.limitAfter 1000 calls
    (∀ k m, taken[k]? = some m → course k = some (.ok m)) ∧
      (current.Continues →
        (∀ n, current.next.1 = some (.error (.exhausted n)) ↔
          n = limit ∧ limit < taken.length + 1 ∧ ∃ m, course taken.length = some (.ok m)) ∧
        ((∀ n, current.next.1 ≠ some (.error (.exhausted n))) →
          current.next.1 = course taken.length)) ∧
      (∀ budget, (∀ n ∈ Run.limitsAtPulls 1000 calls, budget ≤ n) →
        (∀ m, course budget ≠ some (.ok m)) → ∀ n, some (.error (.exhausted n)) ∉ pulls) ∧
      (∀ budget, (∀ n ∈ Run.limitsAtPulls 1000 calls, n ≤ budget) →
        taken.length ≤ budget ∧ (budget < pulls.length → current.next = (none, current))) ∧
      ∀ n, some (.error (.exhausted n)) ∈ pulls → ∀ more,
        (∀ pull ∈ (current.drive more).1, pull = none) ∧
          (current.drive more).2 = current.withMaxTicks (Run.limitAfter limit more) := by
  intro course pulls current taken limit
  have fresh := Run.phase_of_load loaded
  have same : r.machine.course r.input = course := by
    rw [Run.machine_of_load loaded, Run.input_of_load loaded]
  obtain ⟨unused, most⟩ : r.ticks = 0 ∧ r.maxTicks = 1000 := by
    obtain ⟨program, -, -, rfl⟩ := Run.load_eq_ok_iff.mp loaded
    exact ⟨rfl, rfl⟩
  have onCourse := Run.onCourse_drive fresh unused calls
  have inForce : current.maxTicks = limit := by rw [Run.maxTicks_drive, most]
  have ended {n : Nat} (h : some (.error (.exhausted n)) ∈ pulls) : ¬ current.Continues := by
    intro continues
    obtain ⟨m, snapshot⟩ := onCourse.snapshot_of_mem continues h
    cases snapshot
  refine ⟨?_, ?_, ?_, ?_, ?_⟩
  · rw [← same]
    exact onCourse.taken
  · intro continues
    obtain ⟨ticks, -, due⟩ := onCourse.going continues
    rw [same] at due
    refine ⟨fun n => ?_, fun left => ?_⟩
    · rw [current.gives_next.exhausted_iff continues, inForce, ticks, due, Nat.lt_succ_iff]
    · rw [current.gives_next.eq_due continues left, due]
  · intro budget enough ends
    rw [← most] at enough
    exact Run.not_exhausted_of_le fresh unused enough (same ▸ ends)
  · intro budget small
    rw [← most] at small
    have few := Run.length_snapshots_le fresh unused small
    refine ⟨few, fun more => Run.next_of_ended fun continues => ?_⟩
    have length := (onCourse.going continues).2.1
    exact absurd (length ▸ few) (Nat.not_le.mpr more)
  · intro n spent more
    rw [← inForce]
    exact Run.drive_of_ended (ended spent)

/-- A program that jumps to itself for ever is stopped by the limit that was lowered last. -/
theorem limits_cut_course_lowered :
    let m₀ : Machine := ⟨0, false, .zero, .ofProgram [0x08, 0x00], #[], 0, []⟩
    let r : Run := ⟨m₀, #[], 1000, 0, .loaded⟩
    let calls : List Run.Call := [.limit 1, .pull, .limit 5, .pull, .limit 2]
    Run.load (Image.tag ++ [0x08, 0x00]) #[] = .ok r ∧
      snapshots (r.drive calls).1 = [m₀, m₀] ∧
      (r.drive calls).2.next.1 = some (.error (.exhausted 2)) := by
  intro m₀ r calls
  have loaded : Run.load (Image.tag ++ [0x08, 0x00]) #[] = .ok r := rfl
  have jump : m₀.current? = some (.jump 0) :=
    (Machine.current?_of_program (m := m₀) rfl (by decide)).trans (by decide)
  have course (n : Nat) : m₀.course #[] n = some (.ok m₀) := by
    induction n with
    | zero => rfl
    | succ n ih =>
        simp only [Machine.course, ih, Machine.step_of_current jump]
        rfl
  let r₁ : Run := ⟨m₀, #[], 1, 1, .paused⟩
  let r₂ : Run := ⟨m₀, #[], 5, 2, .paused⟩
  have first : (r.withMaxTicks 1).next = (some (.ok m₀), r₁) := rfl
  have second : (r₁.withMaxTicks 5).next = (some (.ok m₀), r₂) :=
    Run.next_of_current (r := r₁.withMaxTicks 5) rfl jump
  have driven : r.drive calls = ([some (.ok m₀), some (.ok m₀)], r₂.withMaxTicks 2) := by
    simp only [calls, Run.drive, first, second]
  have exhausted := ((limits_cut_course loaded calls).2.1 (by rw [driven]; exact .inr rfl)).1 2
  rw [driven] at exhausted ⊢
  refine ⟨loaded, rfl, exhausted.mpr ⟨rfl, Nat.lt_succ_self 2, m₀, ?_⟩⟩
  rw [← Run.machine_of_load loaded]
  exact course 2

end SledeMachine
