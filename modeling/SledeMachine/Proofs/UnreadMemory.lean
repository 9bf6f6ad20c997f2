import SledeMachine.Proofs.Consumption

/-!
Memory that is not read has no influence. A step looks at memory only where its instruction stands
and, if that is a load, where it loads from. Two machines that differ in nothing but memory, and not
there, take the same step and store the same byte at the same address, which makes their memories
more alike and never less. So the loop goes in lockstep on both, as long as the one consults no byte
that may be another one in the other: one that was loaded differently and not stored since.
-/

namespace SledeMachine

namespace Machine

def withMemory (m : Machine) (memory : Memory) : Machine := { m with memory }

/-- The addresses at which the current instruction depends on memory: those of its word and, for a
load, the one that it loads from. -/
def consults (m : Machine) : List Nat :=
  match m.current? with
  | some (.load _) => [m.pc, m.pc + 1, m.registers.address]
  | _ => [m.pc, m.pc + 1]

theorem mem_consults_of_current {m : Machine} {i : Instruction} (current : m.current? = some i)
    (other : ∀ a, i ≠ .load a) {address : Nat} :
    address ∈ m.consults ↔ address = m.pc ∨ address = m.pc + 1 := by
  rw [consults, current]
  cases i with
  | load a => exact absurd rfl (other a)
  | _ => simp

/-- A memory, with the byte in it that the current instruction stores. -/
def storeInto (m : Machine) (memory : Memory) : Memory :=
  match m.current? with
  | some (.store a) => memory.write m.registers.address (m.registers.get a)
  | _ => memory

theorem read_storeInto (m : Machine) (memory : Memory) (address : Nat) :
    (m.storeInto memory).read address = (m.stores address).getD (memory.read address) := by
  have inside : m.registers.address < memorySize := m.registers.address_lt
  rw [storeInto, stores]
  cases m.current? with
  | none => rfl
  | some i =>
      cases i with
      | store a =>
          simp only [Memory.read_write, inside, and_true]
          split <;> rfl
      | _ => rfl

end Machine

def Outcome.withMemory (memory : Memory) : Outcome → Outcome
  | .running m => .running (m.withMemory memory)
  | .halted m => .halted (m.withMemory memory)
  | .faulted fault m => .faulted fault (m.withMemory memory)

namespace Machine

section
variable {input : Array UInt8} {m next : Machine} {i : Instruction} {fault : Fault}

theorem Fails.withMemory (memory : Memory) (fails : m.Fails input i fault) :
    (m.withMemory memory).Fails input i fault := by
  cases fails with
  | read a spent => exact .read a spent
  | call n full => exact .call n full
  | ret empty => exact .ret empty

theorem Fails.storeInto_eq (current : m.current? = some i) (fails : m.Fails input i fault)
    (memory : Memory) : m.storeInto memory = memory := by
  rw [storeInto, current]
  cases fails <;> rfl

variable {other : Memory} (same : ∀ a ∈ m.consults, other.read a = m.memory.read a)
include same

theorem current?_withMemory : (m.withMemory other).current? = m.current? := by
  have fetched : m.pc ∈ m.consults ∧ m.pc + 1 ∈ m.consults := by
    rw [consults]
    split <;> simp
  rw [current?, current?, word, word, Memory.readWord, Memory.readWord]
  rw [← same _ fetched.1, ← same _ fetched.2]
  rfl

theorem Executes.withMemory (current : m.current? = some i) (rule : m.Executes input i next) :
    (m.withMemory other).Executes input i (next.withMemory (m.storeInto other)) := by
  rw [consults, current] at same
  rw [storeInto, current]
  cases rule with
  | load a =>
      have loaded := same m.registers.address (by simp)
      rw [← loaded]
      exact .load a
  | read a more => exact .read a more
  | branch n taken => exact .branch n taken
  | pass n notTaken => exact .pass n notTaken
  | call n room => exact .call n room
  | ret calls => exact .ret calls
  | _ => constructor

/-- A step does the same with another memory that is the same where it is consulted. -/
theorem step_withMemory :
    (m.withMemory other).step input = (m.step input).withMemory (m.storeInto other) := by
  have read := current?_withMemory same
  cases step : m.step input with
  | running next =>
      obtain ⟨i, current, goesOn, rule⟩ := step_eq_running_iff.mp step
      exact step_eq_running_iff.mpr
        ⟨i, read.trans current, goesOn, rule.withMemory same current⟩
  | halted last =>
      obtain ⟨current, rfl⟩ := step_eq_halted_iff.mp step
      rw [storeInto, current]
      exact step_eq_halted_iff.mpr ⟨read.trans current, rfl⟩
  | faulted fault last =>
      obtain ⟨rfl, none | ⟨i, current, fails⟩⟩ := step_eq_faulted_iff.mp step
      · rw [storeInto, none.1]
        exact step_eq_faulted_iff.mpr ⟨rfl, .inl ⟨read.trans none.1, none.2⟩⟩
      · rw [fails.storeInto_eq current]
        exact step_eq_faulted_iff.mpr
          ⟨rfl, .inr ⟨i, read.trans current, fails.withMemory other⟩⟩

end

theorem memory_step (input : Array UInt8) (m : Machine) :
    (m.step input).machine.memory = m.storeInto m.memory := by
  have own : m.step input = (m.step input).withMemory (m.storeInto m.memory) :=
    step_withMemory fun _ _ => rfl
  rw [own]
  cases m.step input <;> rfl

end Machine

/-- What is noted at the same place of two runs: the same but for memory. -/
inductive Parallel : Except Fault Machine → Except Fault Machine → Prop
  | snapshot (m : Machine) (other : Memory) : Parallel (.ok m) (.ok (m.withMemory other))
  | fault (f : Fault) : Parallel (.error f) (.error f)

/-- Where memories may differ that were `u` and `v` at first: where these differ, unless one of the
given snapshots has stored there. -/
def Unsettled (u v : Memory) (given : List (Except Fault Machine)) (a : Nat) : Prop :=
  u.read a ≠ v.read a ∧ ∀ m, .ok m ∈ given → m.stores a = none

/-- Memories that differ at most where they may. -/
def Settled (u v : Memory) (given : List (Except Fault Machine)) (own other : Memory) : Prop :=
  ∀ a, own.read a ≠ other.read a → Unsettled u v given a

section
variable {u v own other : Memory} {given : List (Except Fault Machine)} {m : Machine}

theorem Settled.storeInto (h : Settled u v given own other) (m : Machine) :
    Settled u v (given ++ [.ok m]) (m.storeInto own) (m.storeInto other) := by
  intro a apart
  rw [m.read_storeInto, m.read_storeInto] at apart
  cases stored : m.stores a with
  | some value => simp [stored] at apart
  | none =>
      rw [stored, Option.getD_none, Option.getD_none] at apart
      obtain ⟨loaded, untouched⟩ := h a apart
      refine ⟨loaded, fun s listed => ?_⟩
      obtain earlier | latest := List.mem_append.mp listed
      · exact untouched s earlier
      · cases List.mem_singleton.mp latest
        exact stored

theorem Settled.read_eq (h : Settled u v given m.memory other)
    (known : ∀ a ∈ m.consults, memorySize ≤ a ∨ ¬ Unsettled u v given a) :
    ∀ a ∈ m.consults, other.read a = m.memory.read a := by
  intro a consulted
  obtain beyond | settled := known a consulted
  · rw [Memory.read_of_le beyond, Memory.read_of_le beyond]
  · by_contra apart
    exact settled (h a (Ne.symm apart))

/-- If nothing is consulted that may differ, both machines take the same step, after which what was
stored differs no more. -/
theorem Settled.step (h : Settled u v given m.memory other) (input : Array UInt8)
    (known : ∀ a ∈ m.consults, memorySize ≤ a ∨ ¬ Unsettled u v given a) :
    (m.withMemory other).step input = (m.step input).withMemory (m.storeInto other) ∧
      Settled u v (given ++ [.ok m]) (m.step input).machine.memory (m.storeInto other) := by
  refine ⟨Machine.step_withMemory (h.read_eq known), ?_⟩
  rw [m.memory_step]
  exact h.storeInto m

end

namespace Turn

/-- The records of two loops that go in lockstep, after what has been given before. -/
structure Record.Follows (u v : Memory) (given : List (Except Fault Machine))
    (own other : Record) : Prop where
  items : List.Forall₂ Parallel own.items other.items
  ticks : other.ticks = own.ticks
  machine : ∃ memory, other.machine = own.machine.withMemory memory ∧
    Settled u v (given ++ own.items) own.machine.memory memory
  between : ∀ k m n, own.items[k]? = some (.ok m) → other.items[k]? = some (.ok n) →
    Settled u v (given ++ own.items.take k) m.memory n.memory

section
variable {u v other : Memory} {given : List (Except Fault Machine)}

theorem Record.follows_nil {m : Machine} (ticks : Nat)
    (settled : Settled u v given m.memory other) :
    Record.Follows u v given ⟨[], m, ticks⟩ ⟨[], m.withMemory other, ticks⟩ where
  items := .nil
  ticks := rfl
  machine := ⟨other, rfl, by rwa [List.append_nil]⟩
  between := nofun

theorem Record.follows_fault {m : Machine} (fault : Fault) (ticks : Nat)
    (settled : Settled u v given m.memory other) :
    Record.Follows u v given ⟨[.error fault], m, ticks⟩
      ⟨[.error fault], m.withMemory other, ticks⟩ where
  items := .cons (.fault fault) .nil
  ticks := rfl
  machine := by
    refine ⟨other, rfl, fun a apart => ?_⟩
    obtain ⟨loaded, untouched⟩ := settled a apart
    exact ⟨loaded, by simpa using untouched⟩
  between := by
    intro k s t own
    cases k <;> cases own

theorem Record.Follows.after {own record : Record} {m : Machine}
    (h : Record.Follows u v (given ++ [.ok m]) own record)
    (settled : Settled u v given m.memory other) :
    Record.Follows u v given (own.after m) (record.after (m.withMemory other)) where
  items := .cons (.snapshot m other) h.items
  ticks := h.ticks
  machine := by simpa [Record.after] using h.machine
  between := by
    intro k s t own other
    cases k with
    | zero =>
        cases own
        cases other
        rwa [List.take_zero, List.append_nil]
    | succ k => simpa [Record.after] using h.between k s t own other

end

/-- A turn of the loop that there is a tick for. -/
theorem loop_of_left {input : Array UInt8} {budget ticks : Nat} {m : Machine}
    (inside : m.pc < 4096) (left : ¬ budget < ticks + 1) :
    loop input budget ticks m =
      match m.step input with
      | .running next => (loop input budget (ticks + 1) next).after m
      | .halted last => (⟨[], last, ticks + 1⟩ : Record).after m
      | .faulted fault last => (⟨[.error fault], last, ticks + 1⟩ : Record).after m := by
  rw [loop, if_pos inside, if_neg left, step_eq_turn]
  rfl

/-- While the one loop consults no byte that may be another one in the other, the other follows. -/
theorem loop_follows {input : Array UInt8} {budget ticks : Nat} {m : Machine}
    {u v other : Memory} {given : List (Except Fault Machine)}
    (settled : Settled u v given m.memory other)
    (known : ∀ k s, (loop input budget ticks m).items[k]? = some (.ok s) → ∀ a ∈ s.consults,
      memorySize ≤ a ∨ ¬ Unsettled u v (given ++ (loop input budget ticks m).items.take k) a) :
    Record.Follows u v given (loop input budget ticks m)
      (loop input budget ticks (m.withMemory other)) := by
  -- Each turn adds its snapshot to what has been given, so that what it stored counts as settled.
  fun_induction loop input budget ticks m generalizing other given with
  | case1 ticks m inside spent =>
      rw [loop, if_pos (by exact inside), if_pos spent]
      exact Record.follows_fault _ _ settled
  | case2 ticks m inside left next turn ih =>
      obtain ⟨step, later⟩ := settled.step input (by simpa using known 0 m rfl)
      rw [(step_eq_turn input m).trans turn] at step later
      rw [loop_of_left (by exact inside) left, step]
      refine (ih later fun k s listed => ?_).after settled
      simpa [Record.after] using known (k + 1) s listed
  | case3 ticks m inside left last turn =>
      obtain ⟨step, later⟩ := settled.step input (by simpa using known 0 m rfl)
      rw [(step_eq_turn input m).trans turn] at step later
      rw [loop_of_left (by exact inside) left, step]
      exact (Record.follows_nil _ later).after settled
  | case4 ticks m inside left fault last turn =>
      obtain ⟨step, later⟩ := settled.step input (by simpa using known 0 m rfl)
      rw [(step_eq_turn input m).trans turn] at step later
      rw [loop_of_left (by exact inside) left, step]
      exact (Record.follows_fault _ _ later).after settled
  | case5 ticks m outside =>
      rw [loop, if_neg (by exact outside)]
      exact Record.follows_nil _ settled

end Turn

theorem Run.next_of_load {image : List UInt8} {input : Array UInt8} {r : Run}
    (h : Run.load image input = .ok r) (budget : Nat) :
    (r.withMaxTicks budget).next = Run.offer ⟨r.machine, input, budget, 0, .loaded⟩ := by
  obtain ⟨program, -, -, rfl⟩ := Run.load_eq_ok_iff.mp h
  rfl

/-- Of two programs that differ in memory, nothing but memory tells them apart as long as the one
consults only bytes that are the same in both or that it has stored. -/
theorem unread_memory_has_no_influence {image image' : List UInt8} {input : Array UInt8}
    {r s : Run} (loaded : Run.load image input = .ok r) (loaded' : Run.load image' input = .ok s)
    (budget : Nat)
    (unread : ∀ k m, (r.withMaxTicks budget).pullAll.1[k]? = some (.ok m) → ∀ a ∈ m.consults,
      4096 ≤ a ∨ r.machine.memory.read a = s.machine.memory.read a ∨
        ∃ t, .ok t ∈ (r.withMaxTicks budget).pullAll.1.take k ∧ t.stores a ≠ none) :
    let pulled := (r.withMaxTicks budget).pullAll
    let pulled' := (s.withMaxTicks budget).pullAll
    let settled := Settled r.machine.memory s.machine.memory
    List.Forall₂ Parallel pulled.1 pulled'.1 ∧ pulled'.2.ticks = pulled.2.ticks ∧
      (∀ k m n, pulled.1[k]? = some (.ok m) → pulled'.1[k]? = some (.ok n) →
        settled (pulled.1.take k) m.memory n.memory) ∧
      ∃ memory, pulled'.2.machine = pulled.2.machine.withMemory memory ∧
        settled pulled.1 pulled.2.machine.memory memory := by
  intro pulled pulled' settled
  obtain ⟨items, machine, ticks⟩ := Run.pullAll_eq_loop (Run.next_of_load loaded budget)
  obtain ⟨items', machine', ticks'⟩ := Run.pullAll_eq_loop (Run.next_of_load loaded' budget)
  have start : s.machine = r.machine.withMemory s.machine.memory := by
    obtain ⟨program, -, -, rfl⟩ := Run.load_eq_ok_iff.mp loaded
    obtain ⟨program', -, -, rfl⟩ := Run.load_eq_ok_iff.mp loaded'
    rfl
  have atFirst : settled [] r.machine.memory s.machine.memory := fun a apart => ⟨apart, by simp⟩
  have follows := Turn.loop_follows atFirst fun k m listed a consulted => by
    rw [← items] at listed ⊢
    obtain beyond | same | ⟨t, earlier, stored⟩ := unread k m listed a consulted
    · exact .inl beyond
    · exact .inr fun unsettled => unsettled.1 same
    · exact .inr fun unsettled => stored (unsettled.2 t earlier)
  rw [start] at items' machine' ticks'
  simp only [pulled, pulled', items, items', machine, machine', ticks, ticks']
  exact ⟨follows.items, follows.ticks, follows.between, follows.machine⟩

/-- The third word of the programs is stored to before it is reached, so that the stop that it
becomes is all that is ever seen of it. -/
theorem unread_memory_has_no_influence_stored :
    let program : List UInt8 := [0x43, 0x00, 0x14, 0x02, 0x01, 0x00]
    let program' : List UInt8 := [0x43, 0x00, 0x14, 0x02, 0x0c, 0x00]
    let m₀ : Machine := ⟨0, false, .zero, .ofProgram program, #[], 0, []⟩
    let m₁ : Machine := { m₀ with pc := 2, registers := m₀.registers.setAddress 4 }
    let m₂ : Machine := { m₁ with pc := 4, memory := m₀.memory.write 4 0 }
    let r : Run := ⟨m₀, #[], 1000, 0, .loaded⟩
    let s : Run := ⟨m₀.withMemory (.ofProgram program'), #[], 1000, 0, .loaded⟩
    (Run.load (Image.tag ++ program) #[] = .ok r ∧ Run.load (Image.tag ++ program') #[] = .ok s) ∧
      (∀ k m, (r.withMaxTicks 5).pullAll.1[k]? = some (.ok m) → ∀ a ∈ m.consults,
        4096 ≤ a ∨ r.machine.memory.read a = s.machine.memory.read a ∨
          ∃ t, .ok t ∈ (r.withMaxTicks 5).pullAll.1.take k ∧ t.stores a ≠ none) ∧
      (r.withMaxTicks 5).pullAll.1 = [.ok m₀, .ok m₁, .ok m₂] ∧
      List.Forall₂ Parallel [.ok m₀, .ok m₁, .ok m₂] (s.withMaxTicks 5).pullAll.1 := by
  intro program program' m₀ m₁ m₂ r s
  have loaded : Run.load (Image.tag ++ program) #[] = .ok r := rfl
  have loaded' : Run.load (Image.tag ++ program') #[] = .ok s := rfl
  have locate : m₀.current? = some (.locate 4) :=
    (Machine.current?_of_program (m := m₀) rfl (by decide)).trans (by decide)
  have store : m₁.current? = some (.store 2) :=
    (Machine.current?_of_program (m := m₁) rfl (by decide)).trans (by decide)
  have stored : m₁.stores 4 ≠ none := by
    rw [Machine.stores, store]
    decide
  have low : m₂.memory.read 4 = 0 :=
    (Memory.read_write m₀.memory 4 4 0).trans (if_pos ⟨rfl, by decide⟩)
  have high : m₂.memory.read 5 = 0 :=
    (Memory.read_write m₀.memory 4 5 0).trans
      ((if_neg (by decide)).trans (Memory.read_ofProgram (by decide)))
  have halt : m₂.current? = some .halt := by
    rw [Machine.current?, Machine.word, Memory.readWord, low, high]
    decide
  let r₀ : Run := ⟨m₀, #[], 5, 1, .paused⟩
  let r₁ : Run := ⟨m₁, #[], 5, 2, .paused⟩
  let r₂ : Run := ⟨m₂, #[], 5, 3, .paused⟩
  have first : (r.withMaxTicks 5).next = (some (.ok m₀), r₀) := rfl
  have second : r₀.next = (some (.ok m₁), r₁) := Run.next_of_current (r := r₀) rfl locate
  have third : r₁.next = (some (.ok m₂), r₂) := Run.next_of_current (r := r₁) rfl store
  have fourth : r₂.next = (none, { r₂ with machine := m₂.advance, phase := .halted }) :=
    Run.next_of_current (r := r₂) rfl halt
  have pulled : (r.withMaxTicks 5).pullAll.1 = [.ok m₀, .ok m₁, .ok m₂] := by
    rw [Run.pullAll_of_some first, Run.pullAll_of_some second, Run.pullAll_of_some third,
      Run.pullAll_of_none fourth]
  have unread : ∀ k m, (r.withMaxTicks 5).pullAll.1[k]? = some (.ok m) → ∀ a ∈ m.consults,
      4096 ≤ a ∨ r.machine.memory.read a = s.machine.memory.read a ∨
        ∃ t, .ok t ∈ (r.withMaxTicks 5).pullAll.1.take k ∧ t.stores a ≠ none := by
    have same : ∀ a < 6, a ≠ 4 → r.machine.memory.read a = s.machine.memory.read a := by
      intro a low other
      have inside : a < memorySize := Nat.lt_trans low (by decide)
      have bytes : ∀ a < 6, a ≠ 4 → program[a]?.getD 0 = program'[a]?.getD 0 := by decide
      exact (Memory.read_ofProgram inside).trans
        ((bytes a low other).trans (Memory.read_ofProgram inside).symm)
    rw [pulled]
    intro k m listed a consulted
    obtain _ | _ | _ | k := k <;> cases listed
    · obtain rfl | rfl := (Machine.mem_consults_of_current locate (by simp)).mp consulted
      · exact .inr (.inl (same 0 (by decide) (by decide)))
      · exact .inr (.inl (same 1 (by decide) (by decide)))
    · obtain rfl | rfl := (Machine.mem_consults_of_current store (by simp)).mp consulted
      · exact .inr (.inl (same 2 (by decide) (by decide)))
      · exact .inr (.inl (same 3 (by decide) (by decide)))
    · obtain rfl | rfl := (Machine.mem_consults_of_current halt (by simp)).mp consulted
      · exact .inr (.inr ⟨m₁, .tail _ (.head _), stored⟩)
      · exact .inr (.inl (same 5 (by decide) (by decide)))
  have parallel := (unread_memory_has_no_influence loaded loaded' 5 unread).1
  rw [pulled] at parallel
  exact ⟨⟨loaded, loaded'⟩, unread, pulled, parallel⟩

end SledeMachine
