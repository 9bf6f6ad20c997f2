import SledeMachine.Text

/-!
Numbers of the binary interchange format of sixty-four bits, in exact arithmetic. A finite number
is a significand times a power of two. `ofRatio` rounds a ratio to the nearest of them, to an even
significand where two are as near. `text` writes the fewest decimal digits that round back to the
number, and of those the nearest, without an exponent.
-/

namespace SledeMachine

inductive Binary64
  | nan
  | infinite (negative : Bool)
  /-- The magnitude is `significand * 2 ^ exponent`. -/
  | finite (negative : Bool) (significand : Nat) (exponent : Int)
  deriving DecidableEq, Repr

namespace Binary64

/-- The nearest integer to a quotient, and the even one of two. -/
def roundDiv (n d : Nat) : Nat :=
  let q := n / d
  let twice := 2 * (n % d)
  if d < twice ∨ (twice = d ∧ q % 2 = 1) then q + 1 else q

/-- Numerator and denominator of `n / d * 10 ^ k` and the like, for a base. -/
def scale (base : Nat) (k : Int) (n d : Nat) : Nat × Nat :=
  if 0 ≤ k then (n * Nat.pow base k.toNat, d) else (n, d * Nat.pow base (-k).toNat)

/-- The exponent of the greatest power of two that is at most `n / d`. -/
def binaryPosition (n d : Nat) : Int :=
  let guess : Int := (Nat.log2 n : Int) - Nat.log2 d
  let (a, b) := scale 2 (-guess) n d
  if b ≤ a then guess else guess - 1

/-- The exponent of the greatest power of ten that is at most `n / d`. -/
def decimalPosition (n d : Nat) : Int :=
  if d ≤ n then ((Nat.toDigits 10 (n / d)).length : Int) - 1
  else -((Nat.toDigits 10 ((d + n - 1) / n - 1)).length : Int)

/-- The number nearest to `n / d`. Numbers have significands of fifty-three bits and exponents
from -1074 to 971; what is rounded beyond them is infinite. -/
def ofRatio (negative : Bool) (n d : Nat) : Binary64 :=
  if n = 0 then .finite negative 0 (-1074)
  else
    let exponent := max (binaryPosition n d - 52) (-1074)
    let (a, b) := scale 2 (-exponent) n d
    let significand := roundDiv a b
    let (significand, exponent) :=
      if significand = Nat.pow 2 53 then (Nat.pow 2 52, exponent + 1)
      else (significand, exponent)
    if 971 < exponent then .infinite negative else .finite negative significand exponent

/-- The number nearest to `digits * 10 ^ k`. Powers far outside the format are not computed. -/
def ofDecimal (negative : Bool) (digits : Nat) (k : Int) : Binary64 :=
  let position := (Nat.toDigits 10 digits).length + k
  if digits = 0 ∨ position < -325 then .finite negative 0 (-1074)
  else if 310 < position then .infinite negative
  else
    let (n, d) := scale 10 k digits 1
    ofRatio negative n d

/-- Whether `digits * 10 ^ k` is rounded to `m * 2 ^ e`. Distances are measured in quarters of the
unit in the last place, since below a power of two the unit is half as large. -/
def roundsTo (m : Nat) (e : Int) (digits : Nat) (k : Int) : Bool :=
  let (n, d) := scale 10 k (4 * digits) 1
  let (n, d) := scale 2 (-e) n d
  let below := if m = Nat.pow 2 52 ∧ -1074 < e then 1 else 2
  let least := (4 * m - below) * d
  let greatest := (4 * m + 2) * d
  if m % 2 = 0 then least ≤ n && n ≤ greatest else least < n && n < greatest

/-- Of the two decimals next to `m * 2 ^ e` whose last digit has weight `10 ^ k`, the nearest that
is rounded to that number. Of two as near the greater is tried first. -/
def onGrid (m : Nat) (e k : Int) : Option Nat :=
  let (n, d) := scale 2 e m 1
  let (n, d) := scale 10 (-k) n d
  let lower := n / d
  let order := if d ≤ 2 * (n % d) then [lower + 1, lower] else [lower, lower + 1]
  order.find? fun digits => roundsTo m e digits k

/-- The fewest digits that are rounded to `m * 2 ^ e`, with the weight of the last. Seventeen
digits always suffice. -/
def shortest (m : Nat) (e : Int) : Nat × Int :=
  let (n, d) := scale 2 e m 1
  let position := decimalPosition n d
  let weights := (List.range 17).map fun (count : Nat) => position - count
  (weights.findSome? fun k => (onGrid m e k).map fun digits => (digits, k)).getD (m, e)

/-- `digits * 10 ^ k` with all its places before and behind the point, and no zero at the end of
those behind. -/
def positional (digits : Nat) (k : Int) : Text :=
  if 0 ≤ k then Text.decimal (digits * Nat.pow 10 k.toNat)
  else
    let places := (-k).toNat
    let all := Text.fillLeft '0' (places + 1) (Text.decimal digits)
    let fraction := ((all.drop (all.length - places)).reverse.dropWhile (· = '0')).reverse
    all.take (all.length - places) ++ if fraction = [] then [] else '.' :: fraction

def text : Binary64 → Text
  | .nan => "NaN".toList
  | .infinite negative => (if negative then "-inf" else "inf").toList
  | .finite negative significand exponent =>
      let magnitude :=
        if significand = 0 then ['0']
        else
          let (digits, k) := shortest significand exponent
          positional digits k
      if negative then '-' :: magnitude else magnitude

/-- Digits with at most one point among them, as one number and the count of those behind the
point, and the text after them. -/
def readMantissa (t : Text) : Option (Nat × Nat × Text) :=
  let whole := t.takeWhile Char.isDigit
  let (fraction, rest) :=
    match t.dropWhile Char.isDigit with
    | '.' :: rest => (rest.takeWhile Char.isDigit, rest.dropWhile Char.isDigit)
    | rest => ([], rest)
  if whole = [] ∧ fraction = [] then none
  else some (Nat.ofDigitChars 10 (whole ++ fraction) 0, fraction.length, rest)

/-- The exponent that a text consists of; 0 if the text is empty. -/
def readExponent (t : Text) : Option Int :=
  match t with
  | [] => some 0
  | mark :: rest =>
      let (factor, digits) : Int × Text :=
        match rest with
        | '-' :: digits => (-1, digits)
        | '+' :: digits => (1, digits)
        | digits => (1, digits)
      if (mark = 'e' ∨ mark = 'E') ∧ digits ≠ [] ∧ digits.all Char.isDigit then
        some (factor * Nat.ofDigitChars 10 digits 0)
      else none

/-- A decimal number with an optional sign, point and exponent, or the name of a special value in
letters of either case. -/
def ofText? (t : Text) : Option Binary64 :=
  let (negative, t) : Bool × Text :=
    match t with
    | '-' :: rest => (true, rest)
    | '+' :: rest => (false, rest)
    | rest => (false, rest)
  match readMantissa t with
  | some (digits, places, rest) =>
      (readExponent rest).map fun k => ofDecimal negative digits (k - places)
  | none =>
      let name := t.map Char.toLower
      if name = "nan".toList then some .nan
      else if name = "inf".toList ∨ name = "infinity".toList then some (.infinite negative)
      else none

end Binary64
end SledeMachine
