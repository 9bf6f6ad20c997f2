import SledeMachine.Machine

/-!
A run of a program goes by pulls. Each pull hands out a snapshot of the machine before an
instruction; the instruction is executed by the next pull, so between two pulls the machine is
the last snapshot. A run ends by halting, by leaving memory, by a fault or when it has used up
its ticks, of which each snapshot costs one. What ended a run by a fault is handed out once, and
every later pull gives nothing and changes nothing.
-/

namespace SledeMachine

def defaultMaxTicks : Nat := 1000

/-- Where a run stands between two pulls. -/
inductive Phase
  /-- Nothing has been pulled. -/
  | loaded
  /-- A snapshot has been handed out and its instruction has not been executed. -/
  | paused
  | halted
  | faulted
  deriving DecidableEq, Repr

structure Run where
  machine : Machine
  input : Array UInt8
  maxTicks : Nat
  ticks : Nat
  phase : Phase
  deriving DecidableEq

/-- What a pull gives: a snapshot, a fault, or nothing. -/
abbrev Pull := Option (Except Fault Machine)

namespace Run

def load (image : List UInt8) (input : Array UInt8) : Except LoadError Run :=
  (Memory.load image).map fun memory =>
    { machine := .initial memory, input, maxTicks := defaultMaxTicks, ticks := 0, phase := .loaded }

def withMaxTicks (r : Run) (maxTicks : Nat) : Run := { r with maxTicks }

/-- The machine the program halted with, once it has. -/
def final? (r : Run) : Option Machine :=
  match r.phase with
  | .halted => some r.machine
  | _ => none

/-- Hands out the machine as it is, if it is inside memory and a tick is left. -/
def offer (r : Run) : Pull × Run :=
  if memorySize ≤ r.machine.pc then (none, { r with phase := .halted })
  else if r.maxTicks < r.ticks + 1 then
    (some (.error (.exhausted r.maxTicks)), { r with ticks := r.ticks + 1, phase := .faulted })
  else (some (.ok r.machine), { r with ticks := r.ticks + 1, phase := .paused })

def next (r : Run) : Pull × Run :=
  match r.phase with
  | .loaded => r.offer
  | .paused =>
      match r.machine.step r.input with
      | .running machine => { r with machine }.offer
      | .halted machine => (none, { r with machine, phase := .halted })
      | .faulted fault machine => (some (.error fault), { r with machine, phase := .faulted })
  | .halted | .faulted => (none, r)

theorem offer_snapshot {r next : Run} {m : Machine} (h : r.offer = (some (.ok m), next)) :
    r.ticks < r.maxTicks ∧ next = { r with ticks := r.ticks + 1, phase := .paused } := by
  unfold offer at h
  split at h
  · simp at h
  · split at h
    · simp at h
    · simp only [Prod.mk.injEq] at h
      exact ⟨by omega, h.2.symm⟩

theorem next_snapshot {r after : Run} {m : Machine} (h : r.next = (some (.ok m), after)) :
    r.ticks < r.maxTicks ∧ after.ticks = r.ticks + 1 ∧ after.maxTicks = r.maxTicks := by
  unfold next at h
  split at h
  · obtain ⟨hlt, rfl⟩ := offer_snapshot h
    exact ⟨hlt, rfl, rfl⟩
  · split at h
    · obtain ⟨hlt, rfl⟩ := offer_snapshot h
      exact ⟨hlt, rfl, rfl⟩
    · simp at h
    · simp at h
  · simp at h
  · simp at h

/-- Pulls until a pull gives no snapshot. `visit` sees the run before each pull together with
what the pull gave, the last one included. The result is what `visit` made of them, the fault that
ended the run if one did, and the run at the end. -/
def drain {σ : Type} (visit : σ → Run → Pull → σ) (s : σ) (r : Run) :
    σ × Option Fault × Run :=
  match _h : r.next with
  | (some (.ok m), after) => drain visit (visit s r (some (.ok m))) after
  | (some (.error fault), after) => (visit s r (some (.error fault)), some fault, after)
  | (none, after) => (visit s r none, none, after)
termination_by r.maxTicks - r.ticks
decreasing_by
  have := next_snapshot _h
  omega

/-- Runs the program to its end and gives the machine there, or the fault that a pull on the way
handed out. -/
def finish (r : Run) : Except Fault Machine :=
  match (r.drain (fun _ _ _ => ()) ()).2 with
  | (some fault, _) => .error fault
  | (none, last) => .ok last.machine

/-- Makes at most `count` pulls and stops at the first that gives no snapshot. The result is what
`visit` made of the pulls, the number of snapshots and the run after them. -/
def skip {σ : Type} (visit : σ → Run → Pull → σ) (s : σ) (r : Run) :
    Nat → σ × Nat × Run
  | 0 => (s, 0, r)
  | count + 1 =>
      match r.next with
      | (some (.ok m), after) =>
          let (result, taken, last) := skip visit (visit s r (some (.ok m))) after count
          (result, taken + 1, last)
      | (pull, after) => (visit s r pull, 0, after)

end Run
end SledeMachine
