import SledeMachine.Register

/-!
Tokens. A kind of token is the function that takes one off the front of a text and returns its
value and what is left. A numeric literal is either `0x` with hexadecimal digits or decimal digits
with at most one sign; a register is an `r` with decimal digits; a label is a name with a colon.
Each takes the longest run of digits or letters there is and, where the value of that run is out
of range, fails rather than take a shorter one. A token as a whole is read by asking that nothing
be left.
-/

namespace SledeMachine

abbrev Token (α : Type) := Text → Option (α × Text)

namespace Token

/-- The value of a text that is one token from end to end. -/
def whole {α : Type} (token : Token α) (t : Text) : Option α :=
  match token t with
  | some (value, []) => some value
  | _ => none

/-- Takes the first of several names that the text begins with. -/
def ofNames {α : Type} (candidates : List α) (name : α → Text) : Token α := fun t =>
  candidates.findSome? fun a => ((name a).isPrefixOf? t).map fun rest => (a, rest)

theorem whole_eq_some_iff {α : Type} {token : Token α} {t : Text} {value : α} :
    token.whole t = some value ↔ token t = some (value, []) := by
  unfold whole
  split <;> simp_all

end Token

namespace Literal

def isHexDigit (c : Char) : Bool :=
  c.isDigit || ('a' ≤ c && c ≤ 'f') || ('A' ≤ c && c ≤ 'F')

def hexDigitValue (c : Char) : Nat :=
  if c.isDigit then c.toNat - '0'.toNat
  else if 'a' ≤ c then c.toNat - 'a'.toNat + 10
  else c.toNat - 'A'.toNat + 10

def ofHexDigits (digits : Text) : Nat :=
  digits.foldl (fun value c => 16 * value + hexDigitValue c) 0

def ofDigits (digits : Text) : Nat := Nat.ofDigitChars 10 digits 0

/-- Literals range over the integers of sixty-four bits. -/
def InRange (value : Int) : Prop :=
  -0x8000000000000000 ≤ value ∧ value < 0x8000000000000000

instance (value : Int) : Decidable (InRange value) :=
  inferInstanceAs (Decidable (_ ∧ _))

def hexadecimal : Token Int := fun t =>
  match t with
  | '0' :: mark :: rest =>
      let digits := rest.takeWhile isHexDigit
      let value : Int := ofHexDigits digits
      if (mark = 'x' ∨ mark = 'X') ∧ digits ≠ [] ∧ InRange value then
        some (value, rest.dropWhile isHexDigit)
      else none
  | _ => none

/-- The sign at the front of a text, as a factor, and the text after it. -/
def sign (t : Text) : Int × Text :=
  match t with
  | '+' :: rest => (1, rest)
  | '-' :: rest => (-1, rest)
  | _ => (1, t)

def decimal : Token Int := fun t =>
  let (factor, rest) := sign t
  let digits := rest.takeWhile Char.isDigit
  let value : Int := factor * ofDigits digits
  if digits ≠ [] ∧ InRange value then some (value, rest.dropWhile Char.isDigit) else none

/-- A text whose hexadecimal form has no digits or is out of range may still begin with the
decimal literal 0. -/
def token : Token Int := fun t => (hexadecimal t).or (decimal t)

def ofToken? (t : Text) : Option Int := token.whole t

/-- The low eight bits of a value, in two's complement. -/
def toByte (value : Int) : UInt8 := UInt8.ofNat (value % 256).toNat

/-- The low twelve bits of a value, in two's complement. -/
def toAddress (value : Int) : Nat := (value % 4096).toNat

end Literal

namespace Register

def token : Token Register := fun t =>
  match t with
  | 'r' :: rest =>
      let digits := rest.takeWhile Char.isDigit
      let index := Literal.ofDigits digits
      if h : digits ≠ [] ∧ index < 16 then
        some (⟨index, h.2⟩, rest.dropWhile Char.isDigit)
      else none
  | _ => none

def ofToken? (t : Text) : Option Register := token.whole t

end Register

namespace Label

def isNameChar (c : Char) : Bool :=
  c.isAlphanum || "-_æøåÆØÅ".toList.contains c

def token : Token Text := fun t =>
  match t.dropWhile isNameChar with
  | ':' :: rest =>
      let name := t.takeWhile isNameChar
      if name ≠ [] then some (name, rest) else none
  | _ => none

/-- The name of a line that is nothing but a label. -/
def ofLine? (line : Text) : Option Text := token.whole line

end Label
end SledeMachine
