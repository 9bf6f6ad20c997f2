import Mathlib.Data.List.Forall2
import SledeMachine.CommandLine.Task

/-!
Tasks that print alike. What counts of a transcript for whoever only looks at the output is the
pieces that are printed. Two tasks are alike if these correspond and both fail or both succeed; then
whatever is done with their results may be compared result by result, and their reports have the
same exit code.
-/

namespace SledeMachine

/-- What a transcript prints, piece by piece. -/
def Transcript.printed (t : Transcript) : List (List UInt8) :=
  t.filterMap fun
    | .out bytes => some bytes
    | _ => none

namespace Transcript

@[simp] theorem printed_append (s t : Transcript) : printed (s ++ t) = printed s ++ printed t :=
  List.filterMap_append

@[simp] theorem printed_log (events : List Event) : printed (events.map Piece.log) = [] := by
  simp [printed, List.filterMap_map]

theorem output_eq_flatten (t : Transcript) : t.output = t.printed.flatten := by
  induction t with
  | nil => rfl
  | cons piece t ih => cases piece <;> simp_all [output, printed]

/-- A transcript of log records only. -/
def Logs (t : Transcript) : Prop := ∃ events : List Event, t = events.map .log

theorem logs_nil : Logs [] := ⟨[], rfl⟩

section
variable {s t : Transcript}

theorem Logs.append (h : Logs s) (h' : Logs t) : Logs (s ++ t) := by
  obtain ⟨events, rfl⟩ := h
  obtain ⟨events', rfl⟩ := h'
  exact ⟨events ++ events', List.map_append.symm⟩

theorem Logs.printed (h : Logs t) : t.printed = [] := by
  obtain ⟨events, rfl⟩ := h
  exact printed_log events

end
end Transcript

namespace CommandLine

theorem Failure.printed_transcript (f : Failure) : f.transcript.printed = [] := by
  rw [Failure.transcript]
  split <;> rfl

namespace Task

/-- Tasks that print alike, piece by piece, and end in the same way, with results that are related
if they succeed. -/
structure Alike {α β : Type} (same : List UInt8 → List UInt8 → Prop) (related : α → β → Prop)
    (t : Task α) (u : Task β) : Prop where
  printed : List.Forall₂ same t.written.printed u.written.printed
  result : (∃ a b, t.result = .ok a ∧ u.result = .ok b ∧ related a b) ∨
    ∃ e f, t.result = .error e ∧ u.result = .error f

section
variable {α β γ δ : Type} {same : List UInt8 → List UInt8 → Prop} {related : α → β → Prop}
  {related' : γ → δ → Prop} {t : Task α} {u : Task β}

theorem bind_of_ok {f : α → Task γ} {a : α} (h : t.result = .ok a) :
    t >>= f = ⟨t.written ++ (f a).written, (f a).result⟩ := by
  show Task.bind t f = _
  rw [Task.bind, h]

theorem bind_of_error {f : α → Task γ} {e : Failure} (h : t.result = .error e) :
    t >>= f = ⟨t.written, .error e⟩ := by
  show Task.bind t f = _
  rw [Task.bind, h]

theorem logs_bind {f : α → Task γ} (h : t.written.Logs) (next : ∀ a, (f a).written.Logs) :
    (t >>= f).written.Logs := by
  cases ended : t.result with
  | ok a =>
      rw [bind_of_ok ended]
      exact h.append (next a)
  | error e =>
      rw [bind_of_error ended]
      exact h

theorem result_bind_eq_ok_iff {f : α → Task γ} {c : γ} :
    (t >>= f).result = .ok c ↔ ∃ a, t.result = .ok a ∧ (f a).result = .ok c := by
  cases ended : t.result with
  | ok a => simp [bind_of_ok ended]
  | error e => simp [bind_of_error ended]

theorem result_ofExcept_eq_ok_iff {ε : Type} {failure : ε → Failure} {r : Except ε α} {a : α} :
    (ofExcept failure r).result = .ok a ↔ r = .ok a := by
  cases r <;> simp [ofExcept, Except.mapError]

theorem report_bind_of_ok {f : α → Task Unit} {a : α} (h : t.result = .ok a) :
    (t >>= f).report = ⟨t.written ++ (f a).report.transcript, (f a).report.exit⟩ := by
  rw [bind_of_ok h, report, report]
  cases (f a).result with
  | ok => rfl
  | error e => simp only [List.append_assoc]

theorem report_bind_of_error {f : α → Task Unit} {e : Failure} (h : t.result = .error e) :
    (t >>= f).report = ⟨t.written ++ e.transcript, 1⟩ := by
  rw [bind_of_error h, report]

namespace Alike

theorem bind {f : α → Task γ} {g : β → Task δ} (h : Alike same related t u)
    (next : ∀ a b, related a b → Alike same related' (f a) (g b)) :
    Alike same related' (t >>= f) (u >>= g) := by
  obtain ⟨a, b, ok, ok', values⟩ | ⟨e, e', failed, failed'⟩ := h.result
  · have later := next a b values
    rw [bind_of_ok ok, bind_of_ok ok']
    refine ⟨?_, later.result⟩
    rw [Transcript.printed_append, Transcript.printed_append]
    exact List.rel_append h.printed later.printed
  · rw [bind_of_error failed, bind_of_error failed']
    exact ⟨h.printed, .inr ⟨e, e', rfl, rfl⟩⟩

/-- A task that prints nothing is alike to itself. -/
theorem of_silent {t : Task α} (silent : t.written.printed = []) : Alike same Eq t t where
  printed := by
    rw [silent]
    exact .nil
  result := by
    cases ended : t.result with
    | ok a => exact .inl ⟨a, a, rfl, rfl, rfl⟩
    | error e => exact .inr ⟨e, e, rfl, rfl⟩

theorem ofExcept {ε : Type} (failure : ε → Failure) (r : Except ε α) :
    Alike same Eq (Task.ofExcept failure r) (Task.ofExcept failure r) :=
  of_silent rfl

theorem write {written written' : Transcript}
    (printed : List.Forall₂ same written.printed written'.printed) :
    Alike same Eq (Task.write written) (Task.write written') :=
  ⟨printed, .inl ⟨(), (), rfl, rfl, rfl⟩⟩

theorem report {related : Unit → Unit → Prop} {t u : Task Unit} (h : Alike same related t u) :
    t.report.exit = u.report.exit ∧
      List.Forall₂ same t.report.transcript.printed u.report.transcript.printed := by
  obtain ⟨a, b, ok, ok', -⟩ | ⟨e, e', failed, failed'⟩ := h.result
  · simp only [Task.report, ok, ok']
    exact ⟨trivial, h.printed⟩
  · simp only [Task.report, failed, failed', Transcript.printed_append, Failure.printed_transcript,
      List.append_nil]
    exact ⟨trivial, h.printed⟩

end Alike
end
end Task
end CommandLine
end SledeMachine
