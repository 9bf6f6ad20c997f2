import SledeMachine.Text

/-!
Numbers that code nothing: a register index beyond the last, an operation class that does not
exist, an operation that its class does not have. The error carries the number and the class, so
that its message shows both.
-/

namespace SledeMachine

/-- A number that codes nothing. -/
inductive CodeError
  | register (index : Nat)
  | opClass (code : Nat)
  | operation (family code : Nat)
  deriving DecidableEq, Repr

namespace CodeError

def message : CodeError → Text
  | .register index => "invalid register index ".toList ++ Text.decimal index
  | .opClass code => "invalid operation class 0x".toList ++ Text.hex 1 code
  | .operation family code =>
      "invalid operation 0x".toList ++ Text.hex 1 code ++ " for operation class 0x".toList ++
        Text.hex 1 family

end CodeError
end SledeMachine
