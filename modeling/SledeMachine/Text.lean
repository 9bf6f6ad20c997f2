/-!
Text is the list of its characters, the form on which every reader of this library recurses.
White space is the Unicode property White_Space, not the smaller class of the ASCII blanks: a
line may be indented by a no-break space. Numbers are written in decimal or in lower-case
hexadecimal, filled up on the left to a least width.
-/

namespace SledeMachine

abbrev Text := List Char

namespace Text

/-- The twenty-five characters with the Unicode property White_Space. -/
def isBlank (c : Char) : Bool :=
  let n := c.toNat
  (0x09 ≤ n && n ≤ 0x0d) || n == 0x20 || n == 0x85 || n == 0xa0 || n == 0x1680 ||
    (0x2000 ≤ n && n ≤ 0x200a) || n == 0x2028 || n == 0x2029 || n == 0x202f || n == 0x205f ||
    n == 0x3000

/-- Without the white space at both ends. -/
def trim (t : Text) : Text :=
  ((t.dropWhile isBlank).reverse.dropWhile isBlank).reverse

def fillLeft (filler : Char) (width : Nat) (t : Text) : Text :=
  List.replicate (width - t.length) filler ++ t

def fillRight (filler : Char) (width : Nat) (t : Text) : Text :=
  t ++ List.replicate (width - t.length) filler

def decimal (n : Nat) : Text := Nat.toDigits 10 n

/-- The hexadecimal digits of a number, at least `width` of them. -/
def hex (width n : Nat) : Text := fillLeft '0' width (Nat.toDigits 16 n)

/-- An address as every listing and message shows it: at least three digits. -/
def address (n : Nat) : Text := "0x".toList ++ hex 3 n

def byte (b : UInt8) : Text := "0x".toList ++ hex 2 b.toNat

/-- Several pieces with a comma and a space between neighbours. -/
def commaList (pieces : List Text) : Text := ", ".toList.intercalate pieces

/-- Bytes in brackets, two digits each. -/
def byteList (bytes : List UInt8) : Text :=
  '[' :: commaList (bytes.map fun b => hex 2 b.toNat) ++ [']']

end Text
end SledeMachine
