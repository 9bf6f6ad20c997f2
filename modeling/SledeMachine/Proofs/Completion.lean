import SledeMachine.Proofs.Course

/-!
Runs brought to their end. Pulled until nothing more comes, a run gives snapshots, and behind them
a fault if it does not halt. Finishing a run comes to the same and tells the two ends apart, as
long as the fault is still to be handed out, however many pulls have been made before. It does not
look at how the run stands: if the fault has been handed out already, finishing succeeds with the
machine at which the fault has left the run.
-/

namespace SledeMachine
namespace Run

section
variable {σ : Type} {visit : σ → Run → Pull → σ} {s : σ} {r after : Run}

theorem drain_of_snapshot {m : Machine} (h : r.next = (some (.ok m), after)) :
    r.drain visit s = after.drain visit (visit s r (some (.ok m))) := by
  rw [drain]
  split <;> rename_i equal <;> rw [h] at equal <;> cases equal
  rfl

theorem drain_of_error {fault : Fault} (h : r.next = (some (.error fault), after)) :
    r.drain visit s = (visit s r (some (.error fault)), some fault, after) := by
  rw [drain]
  split <;> rename_i equal <;> rw [h] at equal <;> cases equal
  rfl

theorem drain_of_none (h : r.next = (none, after)) :
    r.drain visit s = (visit s r none, none, after) := by
  rw [drain]
  split <;> rename_i equal <;> rw [h] at equal <;> cases equal
  rfl

/-- Two visitors that keep their results related see the same run to the same end. -/
theorem drain_related {τ : Type} {visit' : τ → Run → Pull → τ} {related : σ → τ → Prop}
    (keeps : ∀ s t before pull, related s t → related (visit s before pull) (visit' t before pull))
    {t : τ} (h : related s t) (r : Run) :
    related (r.drain visit s).1 (r.drain visit' t).1 ∧
      (r.drain visit s).2 = (r.drain visit' t).2 := by
  induction s, r using drain.induct visit generalizing t with
  | case1 s r m after given ih =>
      rw [drain_of_snapshot given, drain_of_snapshot given]
      exact ih (keeps _ _ _ _ h)
  | case2 s r fault after given =>
      rw [drain_of_error given, drain_of_error given]
      exact ⟨keeps _ _ _ _ h, rfl⟩
  | case3 s r after given =>
      rw [drain_of_none given, drain_of_none given]
      exact ⟨keeps _ _ _ _ h, rfl⟩

theorem finish_of_snapshot {m : Machine} (h : r.next = (some (.ok m), after)) :
    r.finish = after.finish := by
  rw [finish, drain_of_snapshot h, finish]

theorem finish_of_error {fault : Fault} (h : r.next = (some (.error fault), after)) :
    r.finish = .error fault := by
  rw [finish, drain_of_error h]

theorem finish_of_none (h : r.next = (none, after)) : r.finish = .ok after.machine := by
  rw [finish, drain_of_none h]

theorem finish_of_ended (ended : ¬ r.Continues) : r.finish = .ok r.machine :=
  finish_of_none (next_of_ended ended)

theorem pullAll_of_not_continues (ended : ¬ r.Continues) : r.pullAll = ([], r) :=
  pullAll_of_none (next_of_ended ended)

/-- A run that goes on gives snapshots until it halts, or until a fault that is given last. -/
theorem pullAll_ends (continues : r.Continues) :
    ∃ past : List Machine,
      r.pullAll.1 = past.map .ok ∧ r.pullAll.2.phase = .halted ∧
          r.finish = .ok r.pullAll.2.machine ∨
        ∃ fault, r.pullAll.1 = past.map .ok ++ [.error fault] ∧ r.pullAll.2.phase = .faulted ∧
          r.finish = .error fault := by
  induction r using pullAll.induct with
  | case1 r item after given _ _ _ ih =>
      rw [pullAll_of_some given]
      cases item with
      | ok m =>
          rw [finish_of_snapshot given]
          obtain ⟨past, ⟨items, halted⟩ | ⟨fault, items, faulted⟩⟩ :=
            ih ((gives_of_next given).continues_iff.mpr ⟨m, rfl⟩)
          · exact ⟨m :: past, .inl ⟨congrArg _ items, halted⟩⟩
          · exact ⟨m :: past, .inr ⟨fault, congrArg _ items, faulted⟩⟩
      | error fault =>
          rw [finish_of_error given]
          have rule := gives_of_next given
          rw [pullAll_of_not_continues (rule.ended nofun)]
          refine ⟨[], .inr ⟨fault, rfl, ?_, rfl⟩⟩
          cases rule <;> rfl
  | case2 r after given =>
      rw [pullAll_of_none given, finish_of_none given]
      refine ⟨[], .inl ⟨rfl, ?_, rfl⟩⟩
      cases gives_of_next given with
      | finished ended => exact absurd continues ended
      | leave | halt => rfl

/-- A pull brings a run no further from its end. -/
theorem pullAll_next (r : Run) : r.next.2.pullAll.2 = r.pullAll.2 := by
  cases given : r.next with
  | mk pull after =>
      cases pull with
      | some item => rw [pullAll_of_some given]
      | none =>
          have ended := (gives_of_next given).ended nofun
          rw [pullAll_of_none given, pullAll_of_not_continues ended]

theorem finish_next (quiet : ∀ fault, r.next.1 ≠ some (.error fault)) :
    r.next.2.finish = r.finish := by
  cases given : r.next with
  | mk pull after =>
      rw [given] at quiet
      cases pull with
      | none =>
          have ended := (gives_of_next given).ended nofun
          rw [finish_of_none given, finish_of_ended ended]
      | some item =>
          cases item with
          | ok m => rw [finish_of_snapshot given]
          | error fault => exact absurd rfl (quiet fault)

end

theorem finish_eq_error_iff {r : Run} {fault : Fault} (continues : r.Continues) :
    r.finish = .error fault ↔ r.pullAll.1.getLast? = some (.error fault) := by
  obtain ⟨past, ⟨items, -, finish⟩ | ⟨fault', items, -, finish⟩⟩ := pullAll_ends continues
  · rw [items, finish, List.getLast?_map]
    simp
  · rw [items, finish, List.getLast?_concat]
    simp

theorem pullAll_items_of_getLast? {r : Run} {fault : Fault} (continues : r.Continues)
    (last : r.pullAll.1.getLast? = some (.error fault)) :
    ∃ past : List Machine, r.pullAll.1 = past.map .ok ++ [.error fault] := by
  obtain ⟨past, ⟨items, -⟩ | ⟨fault', items, -⟩⟩ := pullAll_ends continues
  · rw [items, List.getLast?_map] at last
    obtain ⟨m, -, snapshot⟩ := Option.map_eq_some_iff.mp last
    cases snapshot
  · rw [items, List.getLast?_concat] at last
    cases last
    exact ⟨past, items⟩

theorem Driven.pullAll {first r : Run} {pulls : List Pull} (h : first.Driven pulls r) :
    first.Driven (pulls ++ r.pullAll.1.map some ++ [none]) r.pullAll.2 := by
  induction r using pullAll.induct generalizing pulls with
  | case1 r item after given _ _ _ ih =>
      rw [pullAll_of_some given]
      have later := ih (h.pull_of_next given)
      simpa only [List.map_cons, List.append_assoc, List.cons_append, List.nil_append] using later
  | case2 r after given =>
      rw [pullAll_of_none given]
      simpa only [List.map_nil, List.append_nil] using h.pull_of_next given

/-- The run after a number of pulls, and what they have given. -/
def pulled (r : Run) (count : Nat) : List Pull × Run := r.drive (List.replicate count .pull)

section
variable {r : Run} {fault : Fault}

theorem pulled_succ (r : Run) (count : Nat) :
    r.pulled (count + 1) =
      ((r.pulled count).1 ++ [(r.pulled count).2.next.1], (r.pulled count).2.next.2) := by
  rw [pulled, List.replicate_succ', drive_concat_pull]
  rfl

theorem pulled_of_next {pull : Pull} {after : Run} (h : r.next = (pull, after)) (count : Nat) :
    r.pulled (count + 1) = (pull :: (after.pulled count).1, (after.pulled count).2) := by
  rw [pulled, List.replicate_succ, drive, h]
  rfl

theorem pullAll_pulled (r : Run) (count : Nat) : (r.pulled count).2.pullAll.2 = r.pullAll.2 := by
  induction count with
  | zero => rfl
  | succ count ih => rw [pulled_succ, pullAll_next, ih]

theorem finish_pulled {count : Nat} (quiet : ∀ fault, some (.error fault) ∉ (r.pulled count).1) :
    (r.pulled count).2.finish = r.finish := by
  induction count with
  | zero => rfl
  | succ count ih =>
      rw [pulled_succ] at quiet ⊢
      simp only [List.mem_append, List.mem_singleton, not_or] at quiet
      rw [finish_next fun fault given => (quiet fault).2 given.symm]
      exact ih fun fault => (quiet fault).1

/-- A fault that has been handed out is that of the run, and the run has ended with it. -/
theorem finish_of_mem_pulled {count : Nat} (given : some (.error fault) ∈ (r.pulled count).1) :
    r.finish = .error fault ∧ ¬ (r.pulled count).2.Continues := by
  induction count generalizing fault with
  | zero => cases given
  | succ count ih =>
      rw [pulled_succ] at given ⊢
      cases List.mem_append.mp given with
      | inl earlier =>
          obtain ⟨finish, ended⟩ := ih earlier
          rw [next_of_ended ended]
          exact ⟨finish, ended⟩
      | inr now =>
          have fails : (r.pulled count).2.next.1 = some (.error fault) :=
            (List.mem_singleton.mp now).symm
          -- An earlier fault would have ended the run, and then this pull would give nothing.
          have quiet : ∀ other, some (.error other) ∉ (r.pulled count).1 := by
            intro other earlier
            rw [next_of_ended (ih earlier).2] at fails
            cases fails
          refine ⟨?_, ?_⟩
          · rw [← finish_pulled quiet]
            exact finish_of_error (Prod.ext fails rfl)
          · exact (gives_next _).ended fun m snapshot => nomatch fails.symm.trans snapshot

end
end Run

/-- Finishing a run gives its end, whatever has been pulled before, unless a fault was. -/
theorem finish_after_pulls {image : List UInt8} {input : Array UInt8} {r : Run}
    (loaded : Run.load image input = .ok r) (budget count : Nat) :
    let fresh := r.withMaxTicks budget
    let last := fresh.pullAll.2
    let pulls := (fresh.pulled count).1
    let current := (fresh.pulled count).2
    (∀ m, fresh.finish = .ok m ↔ last.final? = some m) ∧
      (∀ fault, fresh.finish = .error fault ↔
        ∃ past : List Machine, fresh.pullAll.1 = past.map .ok ++ [.error fault]) ∧
      (∀ fault, some (.error fault) ∈ pulls →
        fresh.finish = .error fault ∧ current.finish = .ok last.machine) ∧
      (current.finish = fresh.finish ↔ ∀ fault, some (.error fault) ∉ pulls) := by
  intro fresh last pulls current
  have continues : fresh.Continues := .inl (show r.phase = .loaded from Run.phase_of_load loaded)
  have given {fault : Fault} (h : some (.error fault) ∈ pulls) :
      fresh.finish = .error fault ∧ current.finish = .ok last.machine := by
    obtain ⟨finish, ended⟩ := Run.finish_of_mem_pulled h
    refine ⟨finish, ?_⟩
    have stays := fresh.pullAll_pulled count
    rw [Run.pullAll_of_not_continues ended] at stays
    rw [Run.finish_of_ended ended, stays]
  refine ⟨?_, ?_, fun fault => given, fun same fault h => ?_, Run.finish_pulled⟩
  · intro m
    obtain ⟨past, ⟨-, halted, finish⟩ | ⟨fault, -, faulted, finish⟩⟩ :=
      Run.pullAll_ends continues
    · simp [finish, Run.final?, last, halted]
    · simp [finish, Run.final?, last, faulted]
  · intro fault
    rw [Run.finish_eq_error_iff continues]
    constructor
    · exact Run.pullAll_items_of_getLast? continues
    · rintro ⟨past, items⟩
      rw [items, List.getLast?_concat]
  · obtain ⟨fails, succeeds⟩ := given h
    rw [fails, succeeds] at same
    cases same

/-- The return without a call is still to be executed when the run is finished. -/
theorem finish_after_pulls_before_fault :
    let program : List UInt8 := [0x0c, 0x00, 0x0b, 0x00]
    let m₀ : Machine := ⟨0, false, .zero, .ofProgram program, #[], 0, []⟩
    let m₁ : Machine := { m₀ with pc := 2 }
    let r : Run := ⟨m₀, #[], 1000, 0, .loaded⟩
    Run.load (Image.tag ++ program) #[] = .ok r ∧
      ((r.withMaxTicks 2).pulled 2).1 = [some (.ok m₀), some (.ok m₁)] ∧
      ((r.withMaxTicks 2).pulled 2).2.finish = (r.withMaxTicks 2).finish := by
  intro program m₀ m₁ r
  have loaded : Run.load (Image.tag ++ program) #[] = .ok r := rfl
  have nop : m₀.current? = some .nop :=
    (Machine.current?_of_program (m := m₀) rfl (by decide)).trans (by decide)
  let r₀ : Run := ⟨m₀, #[], 2, 1, .paused⟩
  let r₁ : Run := ⟨m₁, #[], 2, 2, .paused⟩
  have first : (r.withMaxTicks 2).next = (some (.ok m₀), r₀) := rfl
  have second : r₀.next = (some (.ok m₁), r₁) := Run.next_of_current (r := r₀) rfl nop
  have pulls : (r.withMaxTicks 2).pulled 2 = ([some (.ok m₀), some (.ok m₁)], r₁) := by
    rw [Run.pulled_of_next first, Run.pulled_of_next second]
    rfl
  refine ⟨loaded, by rw [pulls], ?_⟩
  apply (finish_after_pulls loaded 2 2).2.2.2.mpr
  simp [pulls]

/-- The word that is no instruction is reported by the second pull, and after it finishing
succeeds. -/
theorem finish_succeeds_after_fault :
    let m₀ : Machine := ⟨0, false, .zero, .ofProgram [0x0f, 0x00], #[], 0, []⟩
    let m₁ : Machine := { m₀ with pc := 2 }
    let r : Run := ⟨m₀, #[], 1000, 0, .loaded⟩
    Run.load (Image.tag ++ [0x0f, 0x00]) #[] = .ok r ∧
      r.finish = .error (.segmentation 0) ∧
      (r.pulled 2).1 = [some (.ok m₀), some (.error (.segmentation 0))] ∧
      (r.pulled 2).2.finish = .ok m₁ ∧ (r.pulled 2).2.finish ≠ r.finish := by
  intro m₀ m₁ r
  have loaded : Run.load (Image.tag ++ [0x0f, 0x00]) #[] = .ok r := rfl
  have none : m₀.current? = none :=
    (Machine.current?_of_program (m := m₀) rfl (by decide)).trans (by decide)
  let r₀ : Run := ⟨m₀, #[], 1000, 1, .paused⟩
  let r₁ : Run := ⟨m₁, #[], 1000, 1, .faulted⟩
  have first : r.next = (some (.ok m₀), r₀) := rfl
  have second : r₀.next = (some (.error (.segmentation 0)), r₁) :=
    Run.next_of_faulted rfl (Machine.step_of_current_eq_none none)
  have pulls : r.pulled 2 = ([some (.ok m₀), some (.error (.segmentation 0))], r₁) := by
    rw [Run.pulled_of_next first, Run.pulled_of_next second]
    rfl
  have fails : r.finish = .error (.segmentation 0) := by
    rw [Run.finish_of_snapshot first, Run.finish_of_error second]
  have succeeds : (r.pulled 2).2.finish = .ok m₁ := by
    rw [pulls]
    exact Run.finish_of_ended (by simp [r₁, Run.Continues])
  refine ⟨loaded, fails, by rw [pulls], succeeds, ?_⟩
  rw [fails, succeeds]
  intro equal
  cases equal

end SledeMachine
