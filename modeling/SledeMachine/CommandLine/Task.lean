import SledeMachine.Transcript

/-!
Tasks: computations that write a transcript and may fail. What was written before a failure stays.
A failure has a message and, where there is one, a cause, and is written as the last lines of a
transcript.
-/

namespace SledeMachine
namespace CommandLine

structure Failure where
  context : Text
  cause : Option Text
  deriving DecidableEq, Repr

namespace Failure

def transcript (f : Failure) : Transcript :=
  .err ("Error: ".toList ++ f.context) ::
    match f.cause with
    | some cause => [.err [], .err "Caused by:".toList, .err ("    ".toList ++ cause)]
    | none => []

end Failure

structure Task (α : Type) where
  written : Transcript
  result : Except Failure α

namespace Task

variable {α β : Type}

def pure (a : α) : Task α := ⟨[], .ok a⟩

def bind (t : Task α) (f : α → Task β) : Task β :=
  match t.result with
  | .ok a => ⟨t.written ++ (f a).written, (f a).result⟩
  | .error e => ⟨t.written, .error e⟩

instance : Monad Task where
  pure := pure
  bind := bind

def write (written : Transcript) : Task Unit := ⟨written, .ok ()⟩

def fail (context : Text) (cause : Option Text) : Task α := ⟨[], .error ⟨context, cause⟩⟩

/-- The value of a result, or a failure made of its error. -/
def ofExcept {ε : Type} (failure : ε → Failure) (r : Except ε α) : Task α :=
  ⟨[], r.mapError failure⟩

end Task

/-- The transcript of a finished command and its exit code. -/
structure Report where
  transcript : Transcript
  exit : Nat
  deriving DecidableEq, Repr

namespace Task

def report (t : Task Unit) : Report :=
  match t.result with
  | .ok _ => ⟨t.written, 0⟩
  | .error failure => ⟨t.written ++ failure.transcript, 1⟩

end Task
end CommandLine
end SledeMachine
