import SledeMachine.CodeError

/-!
The three closed families of codes in an instruction word: the thirteen operation classes, the
seven arithmetic operations and the six comparisons. Each is a table of its members, and a code that
belongs to none is an error value, not a default. The assembler and the machine read the same
tables, so a name, its code and its effect stand together here.
-/

namespace SledeMachine

/-- A closed family of codes: every member at the position of its code, and nowhere else. -/
structure CodeTable (α : Type) where
  members : List α
  code : α → Nat
  listed : ∀ a, members[code a]? = some a
  nodup : members.Nodup

namespace CodeTable
variable {α : Type} (table : CodeTable α) (error : Nat → CodeError)

/-- The member that a number codes, or the error of a number that codes none. -/
def read (n : Nat) : Except CodeError α :=
  match table.members[n]? with
  | some a => .ok a
  | none => .error (error n)

theorem read_code (a : α) : table.read error (table.code a) = .ok a := by
  rw [read, table.listed]

end CodeTable

inductive OpClass
  | halt | set | copy | locate | memory | alu | io | compare | jump | branch | call | ret | nop
  deriving DecidableEq, Repr

namespace OpClass

/-- Every class, each at the position of its code. -/
def all : List OpClass :=
  [.halt, .set, .copy, .locate, .memory, .alu, .io, .compare, .jump, .branch, .call, .ret, .nop]

def code : OpClass → Nat
  | .halt => 0
  | .set => 1
  | .copy => 2
  | .locate => 3
  | .memory => 4
  | .alu => 5
  | .io => 6
  | .compare => 7
  | .jump => 8
  | .branch => 9
  | .call => 10
  | .ret => 11
  | .nop => 12

def table : CodeTable OpClass where
  members := all
  code := code
  listed c := by cases c <;> rfl
  nodup := by decide

def ofCode (n : Nat) : Except CodeError OpClass := table.read .opClass n

theorem ofCode_code (c : OpClass) : ofCode c.code = .ok c :=
  table.read_code .opClass c

end OpClass

inductive AluOp
  | and | or | xor | shiftLeft | shiftRight | add | subtract
  deriving DecidableEq, Repr

namespace AluOp

/-- Every operation, each at the position of its code. -/
def all : List AluOp := [.and, .or, .xor, .shiftLeft, .shiftRight, .add, .subtract]

def code : AluOp → Nat
  | .and => 0
  | .or => 1
  | .xor => 2
  | .shiftLeft => 3
  | .shiftRight => 4
  | .add => 5
  | .subtract => 6

def name : AluOp → Text
  | .and => "OG".toList
  | .or => "ELLER".toList
  | .xor => "XELLER".toList
  | .shiftLeft => "VSKIFT".toList
  | .shiftRight => "HSKIFT".toList
  | .add => "PLUSS".toList
  | .subtract => "MINUS".toList

def table : CodeTable AluOp where
  members := all
  code := code
  listed op := by cases op <;> rfl
  nodup := by decide

def ofCode (n : Nat) : Except CodeError AluOp := table.read (.operation OpClass.alu.code) n

/-- The low eight bits of the result over thirty-two bits. A shift count is taken modulo 32, so
that counts from 8 to 31 leave nothing of a byte and 32 leaves it as it was. -/
def apply (op : AluOp) (left right : UInt8) : UInt8 :=
  let l := left.toUInt32
  let r := right.toUInt32
  match op with
  | .and => (l &&& r).toUInt8
  | .or => (l ||| r).toUInt8
  | .xor => (l ^^^ r).toUInt8
  | .shiftLeft => (l <<< r).toUInt8
  | .shiftRight => (l >>> r).toUInt8
  | .add => (l + r).toUInt8
  | .subtract => (l - r).toUInt8

theorem ofCode_code (op : AluOp) : ofCode op.code = .ok op :=
  table.read_code (.operation OpClass.alu.code) op

end AluOp

inductive CompareOp
  | eq | ne | lt | le | gt | ge
  deriving DecidableEq, Repr

namespace CompareOp

/-- Every comparison, each at the position of its code. -/
def all : List CompareOp := [.eq, .ne, .lt, .le, .gt, .ge]

def code : CompareOp → Nat
  | .eq => 0
  | .ne => 1
  | .lt => 2
  | .le => 3
  | .gt => 4
  | .ge => 5

def name : CompareOp → Text
  | .eq => "LIK".toList
  | .ne => "ULIK".toList
  | .lt => "ME".toList
  | .le => "MEL".toList
  | .gt => "SE".toList
  | .ge => "SEL".toList

def table : CodeTable CompareOp where
  members := all
  code := code
  listed op := by cases op <;> rfl
  nodup := by decide

def ofCode (n : Nat) : Except CodeError CompareOp := table.read (.operation OpClass.compare.code) n

def test (op : CompareOp) (left right : UInt8) : Bool :=
  match op with
  | .eq => left == right
  | .ne => left != right
  | .lt => decide (left < right)
  | .le => decide (left ≤ right)
  | .gt => decide (right < left)
  | .ge => decide (right ≤ left)

theorem ofCode_code (op : CompareOp) : ofCode op.code = .ok op :=
  table.read_code (.operation OpClass.compare.code) op

end CompareOp
end SledeMachine
