import SledeMachine.Proofs.Bounds
import SledeMachine.Session

/-!
The stack of calls. Replaying the snapshots of a run, each call is opened by its instruction and the
innermost one is closed by a return; the return addresses on the stack are those of the calls that
are still open. The innermost open call is the last one after which calls and returns match, so a
return goes on behind that call, and the listing of the stack shows where each open call stands.
-/

namespace SledeMachine

/-- The snapshots whose calls have not been returned from, innermost first. -/
def openCalls (past : List Machine) : List Machine :=
  past.foldl (fun calls m =>
    match m.current? with
    | some (.call _) => m :: calls
    | some .ret => calls.tail
    | _ => calls) []

/-- Snapshots among which calls and returns match. -/
inductive Matched : List Machine → Prop
  | nil : Matched []
  | plain {past : List Machine} {m : Machine} (before : Matched past)
      (notCall : ∀ n, m.current? ≠ some (.call n)) (notRet : m.current? ≠ some .ret) :
      Matched (past ++ [m])
  | nest {past inner : List Machine} {c m : Machine} {n : Nat} (before : Matched past)
      (call : c.current? = some (.call n)) (within : Matched inner)
      (ret : m.current? = some .ret) : Matched (past ++ c :: inner ++ [m])

section
variable {past : List Machine} {m : Machine}

theorem openCalls_append_call {n : Nat} (call : m.current? = some (.call n)) :
    openCalls (past ++ [m]) = m :: openCalls past := by
  simp only [openCalls, List.foldl_append, List.foldl_cons, List.foldl_nil, call]

theorem openCalls_append_ret (ret : m.current? = some .ret) :
    openCalls (past ++ [m]) = (openCalls past).tail := by
  simp only [openCalls, List.foldl_append, List.foldl_cons, List.foldl_nil, ret]

theorem openCalls_append_plain (notCall : ∀ n, m.current? ≠ some (.call n))
    (notRet : m.current? ≠ some .ret) : openCalls (past ++ [m]) = openCalls past := by
  simp only [openCalls, List.foldl_append, List.foldl_cons, List.foldl_nil]

/-- The innermost open call is one after which calls and returns match. -/
theorem openCalls_eq_cons {past rest : List Machine} {c : Machine}
    (h : openCalls past = c :: rest) :
    ∃ before inner n, past = before ++ c :: inner ∧ c.current? = some (.call n) ∧
      Matched inner ∧ openCalls before = rest := by
  induction length : past.length using Nat.strongRecOn generalizing past c rest with
  | ind _ ih =>
      subst length
      obtain rfl | ⟨front, m, rfl⟩ := List.eq_nil_or_concat past
      · cases h
      rw [List.concat_eq_append] at h ih ⊢
      rw [List.length_append, List.length_singleton] at ih
      have onward (notCall : ∀ n, m.current? ≠ some (.call n)) (notRet : m.current? ≠ some .ret) :
          ∃ before inner n, front ++ [m] = before ++ c :: inner ∧ c.current? = some (.call n) ∧
            Matched inner ∧ openCalls before = rest := by
        rw [openCalls_append_plain notCall notRet] at h
        obtain ⟨before, inner, n, rfl, call, matched, outer⟩ := ih _ (Nat.lt_succ_self _) h rfl
        refine ⟨before, inner ++ [m], n, ?_, call, matched.plain notCall notRet, outer⟩
        rw [List.append_assoc, List.cons_append]
      cases current : m.current? with
      | none => exact onward (by simp [current]) (by simp [current])
      | some i =>
          cases i with
          | call n =>
              rw [openCalls_append_call current] at h
              cases h
              exact ⟨front, [], n, rfl, current, .nil, rfl⟩
          | ret =>
              rw [openCalls_append_ret current] at h
              cases opened : openCalls front with
              | nil => simp [opened] at h
              | cons d others =>
                  rw [opened, List.tail_cons] at h
                  subst h
                  -- The return closes `d`; behind it `c` is the innermost call still open.
                  obtain ⟨shorter, inner, _, rfl, callD, matched, outer⟩ :=
                    ih _ (Nat.lt_succ_self _) opened rfl
                  have less : shorter.length < (shorter ++ d :: inner).length + 1 := by
                    rw [List.length_append]
                    omega
                  obtain ⟨before, earlier, n, rfl, call, matchedEarlier, rfl⟩ := ih _ less outer rfl
                  refine ⟨before, earlier ++ d :: inner ++ [m], n, ?_, call,
                    matchedEarlier.nest callD matched current, rfl⟩
                  simp only [List.append_assoc, List.cons_append]
          | _ => exact onward (by simp [current]) (by simp [current])

theorem History.calls_eq {input : Array UInt8} {first : Machine} (h : History input first past m)
    (none : first.calls = []) : m.calls = (openCalls past).map fun c => c.pc + 2 := by
  induction h with
  | start => exact none
  | @step past m next _ running ih =>
      obtain ⟨i, current, -, executed⟩ := Machine.step_eq_running_iff.mp running
      cases executed with
      | call n room => rw [openCalls_append_call current, List.map_cons, ← ih]
      | ret calls =>
          rw [openCalls_append_ret current, List.map_tail, ← ih, calls]
          rfl
      | _ =>
          rw [openCalls_append_plain (by simp [current]) (by simp [current])]
          exact ih

end

namespace Session

/-- The line that the listing of the stack has for a call. -/
def frameLine (map : DebugMap) (call : Machine × Nat) : Piece :=
  .err ('#' :: Text.decimal call.2 ++ ' ' :: Text.address call.1.pc ++
    match map.find? call.1.pc with
    | some line => "  ".toList ++ line.citation
    | none => [])

theorem callLines_eq {s : Session} {calls : List Machine}
    (h : s.run.machine.calls = calls.map fun c => c.pc + 2) :
    s.callLines = calls.zipIdx.map (frameLine s.map) := by
  rw [callLines, h, List.zipIdx_map, List.map_map]
  rfl

end Session

namespace Run
variable {r : Run} {c : Machine} {calls : List Machine}

/-- A return goes on behind the innermost of the open calls. -/
theorem machine_of_ret (paused : r.phase = .paused) (ret : r.machine.current? = some .ret)
    (stack : r.machine.calls = (c :: calls).map fun c => c.pc + 2) :
    r.next.2.machine =
      { r.machine with pc := c.pc + 2, calls := calls.map fun c => c.pc + 2 } := by
  have running : r.machine.step r.input = .running _ :=
    Machine.step_eq_running_iff.mpr ⟨.ret, ret, nofun, .ret stack⟩
  rw [next_of_paused paused, running]
  exact machine_offer _

end Run

/-- The stack of calls at a snapshot is a replay of the calls and returns before it. -/
theorem calls_replay {image : List UInt8} {input : Array UInt8} {r current : Run}
    {pulls : List Pull} (loaded : Run.load image input = .ok r)
    (driven : r.Driven pulls current) :
    (∀ earlier m, pulls = earlier ++ [some (.ok m)] →
        let frames := openCalls (snapshots earlier)
        m.calls = frames.map (fun c => c.pc + 2) ∧
          (∀ back ∈ m.calls, 2 ≤ back) ∧
          (∀ map, Session.callLines ⟨current, map⟩ = frames.zipIdx.map (Session.frameLine map)) ∧
          (m.current? = some .ret →
            (∀ c calls, frames = c :: calls →
              (∃ before inner n, snapshots earlier = before ++ c :: inner ∧
                c.current? = some (.call n) ∧ Matched inner) ∧
              current.next.2.machine =
                { m with pc := c.pc + 2, calls := calls.map fun c => c.pc + 2 }) ∧
            ∀ pc, current.next.1 = some (.error (.segmentation pc)) ↔
              pc = m.pc ∧ frames = [])) ∧
      ∀ pc, current.next.1 = some (.error (.tooManyCalls pc)) ↔
        ∃ earlier m n, pulls = earlier ++ [some (.ok m)] ∧ pc = m.pc ∧
          m.current? = some (.call n) ∧ (openCalls (snapshots earlier)).length = 1000 := by
  have fresh := Run.phase_of_load loaded
  have stack {earlier : List Pull} {m : Machine} (last : pulls = earlier ++ [some (.ok m)]) :
      current.phase = .paused ∧ current.machine = m ∧
        m.calls = (openCalls (snapshots earlier)).map fun c => c.pc + 2 := by
    rw [last] at driven
    obtain ⟨paused, machine, history⟩ := driven.history fresh
    refine ⟨paused, machine, history.calls_eq ?_⟩
    rw [Run.machine_of_load loaded]
    rfl
  refine ⟨fun earlier m last => ?_, fun pc => ?_⟩
  · obtain ⟨paused, rfl, calls⟩ := stack last
    refine ⟨calls, ?_, fun map => Session.callLines_eq calls, fun ret => ⟨?_, fun pc => ?_⟩⟩
    · rw [calls]
      exact List.forall_mem_map.mpr fun c _ => Nat.le_add_left 2 c.pc
    · intro c others opened
      obtain ⟨before, inner, n, parts, call, matched, -⟩ := openCalls_eq_cons opened
      rw [opened] at calls
      exact ⟨⟨before, inner, n, parts, call, matched⟩, Run.machine_of_ret paused ret calls⟩
    · rw [Run.next_eq_fault_iff rfl, Machine.step_segmentation_iff, calls]
      simp [paused, ret]
  · rw [Run.next_eq_fault_iff rfl, Machine.step_tooManyCalls_iff]
    have depth := (driven.within (Run.within_of_load loaded)).bounded.depth
    constructor
    · rintro ⟨paused, rfl, ⟨n, call⟩, full⟩
      obtain ⟨earlier, last⟩ := (driven.pending_iff fresh).mp paused
      refine ⟨earlier, current.machine, n, last, rfl, call, ?_⟩
      rw [← List.length_map fun c : Machine => c.pc + 2, ← (stack last).2.2]
      exact Nat.le_antisymm depth full
    · rintro ⟨earlier, m, n, last, rfl, call, full⟩
      obtain ⟨paused, rfl, calls⟩ := stack last
      refine ⟨paused, rfl, ⟨n, call⟩, ?_⟩
      rw [calls, List.length_map, full]
      exact Nat.le_refl 1000

/-- The return is to the instruction behind the call. -/
theorem calls_replay_returned :
    let program : List UInt8 := [0x4a, 0x00, 0x00, 0x00, 0x0b, 0x00]
    let m₀ : Machine := ⟨0, false, .zero, .ofProgram program, #[], 0, []⟩
    let m₁ : Machine := { m₀ with pc := 4, calls := [2] }
    let r : Run := ⟨m₀, #[], 1000, 0, .loaded⟩
    let current : Run := ⟨m₁, #[], 1000, 2, .paused⟩
    Run.load (Image.tag ++ program) #[] = .ok r ∧
      r.Driven ([some (.ok m₀)] ++ [some (.ok m₁)]) current ∧
      current.next.2.machine = { m₁ with pc := m₀.pc + 2, calls := [] } := by
  intro program m₀ m₁ r current
  have loaded : Run.load (Image.tag ++ program) #[] = .ok r := rfl
  have call : m₀.current? = some (.call 4) :=
    (Machine.current?_of_program (m := m₀) rfl (by decide)).trans (by decide)
  have ret : m₁.current? = some .ret :=
    (Machine.current?_of_program (m := m₁) rfl (by decide)).trans (by decide)
  let r₀ : Run := { r with ticks := 1, phase := .paused }
  have first : r.next = (some (.ok m₀), r₀) := rfl
  have second : r₀.next = (some (.ok m₁), current) := Run.next_of_current (r := r₀) rfl call
  have driven : r.Driven ([some (.ok m₀)] ++ [some (.ok m₁)]) current :=
    (Run.Driven.start.pull_of_next first).pull_of_next second
  obtain ⟨-, -, -, returns⟩ := (calls_replay loaded driven).1 [some (.ok m₀)] m₁ rfl
  have opened : openCalls ([] ++ [m₀]) = [m₀] := openCalls_append_call call
  exact ⟨loaded, driven, ((returns ret).1 m₀ [] opened).2⟩

end SledeMachine
