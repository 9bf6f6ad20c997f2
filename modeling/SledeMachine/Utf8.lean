import SledeMachine.Text

/-!
Bytes as UTF-8. A file is text if all its bytes are well formed; if they are not, the error says
where the first fault is and how long it is. Output of a program need not be text and is shown
with a replacement character for each fault. A fault is the longest run of bytes that begins a
character and cannot be continued by what follows it, or a single byte that begins none.
-/

namespace SledeMachine

namespace Text

def utf8 (t : Text) : List UInt8 := t.flatMap String.utf8EncodeChar

end Text

namespace Utf8

inductive Error
  /-- So many bytes from an index on that belong to no character. -/
  | invalid (length index : Nat)
  /-- A character that begins at an index and lacks its end. -/
  | incomplete (index : Nat)
  deriving DecidableEq, Repr

def Error.message : Error → Text
  | .invalid length index =>
      "invalid utf-8 sequence of ".toList ++ Text.decimal length ++ " bytes from index ".toList ++
        Text.decimal index
  | .incomplete index => "incomplete utf-8 byte sequence from index ".toList ++ Text.decimal index

/-- What stands at the front of a text in bytes. Each count leaves out the first byte. -/
inductive Front
  | char (c : Char) (following : Nat)
  | invalid (following : Nat)
  | incomplete

/-- The bytes that may follow a given first byte. Those that would repeat a shorter form, or name
a surrogate or no code point at all, are left out. -/
def secondRange (first : Nat) : Nat × Nat :=
  if first = 0xe0 then (0xa0, 0xbf)
  else if first = 0xed then (0x80, 0x9f)
  else if first = 0xf0 then (0x90, 0xbf)
  else if first = 0xf4 then (0x80, 0x8f)
  else (0x80, 0xbf)

/-- Takes continuation bytes, `taken` of which have been read and have given `value`. -/
def continuation (value taken : Nat) : Nat → Nat × Nat → List UInt8 → Front
  | 0, _, _ => .char (Char.ofNat value) taken
  | _ + 1, _, [] => .incomplete
  | missing + 1, (least, greatest), b :: rest =>
      if least ≤ b.toNat ∧ b.toNat ≤ greatest then
        continuation (64 * value + b.toNat % 64) (taken + 1) missing (0x80, 0xbf) rest
      else .invalid taken

def front (first : UInt8) (rest : List UInt8) : Front :=
  let n := first.toNat
  if n < 0x80 then .char (Char.ofNat n) 0
  else if 0xc2 ≤ n ∧ n ≤ 0xdf then continuation (n % 32) 0 1 (secondRange n) rest
  else if 0xe0 ≤ n ∧ n ≤ 0xef then continuation (n % 16) 0 2 (secondRange n) rest
  else if 0xf0 ≤ n ∧ n ≤ 0xf4 then continuation (n % 8) 0 3 (secondRange n) rest
  else .invalid 0

/-- The first fault of bytes that stand at an index. -/
def fault? (index : Nat) : List UInt8 → Option Error
  | [] => none
  | first :: rest =>
      match front first rest with
      | .char _ following => fault? (index + following + 1) (rest.drop following)
      | .invalid following => some (.invalid (following + 1) index)
      | .incomplete => some (.incomplete index)
termination_by bytes => bytes.length
decreasing_by simp only [List.length_cons, List.length_drop]; omega

/-- The text with each fault replaced by U+FFFD. -/
def lossy : List UInt8 → Text
  | [] => []
  | first :: rest =>
      match front first rest with
      | .char c following => c :: lossy (rest.drop following)
      | .invalid following => '\ufffd' :: lossy (rest.drop following)
      | .incomplete => ['\ufffd']
termination_by bytes => bytes.length
decreasing_by all_goals simp only [List.length_cons, List.length_drop]; omega

/-- Bytes that are well formed are read as a whole; the fault is looked for only if there is one. -/
def decode (bytes : List UInt8) : Except Error Text :=
  match String.fromUTF8? bytes.toByteArray with
  | some s => .ok s.toList
  | none => .error ((fault? 0 bytes).getD (.incomplete 0))

theorem decode_utf8 (t : Text) : decode t.utf8 = .ok t := by
  have valid : t.utf8.toByteArray.IsValidUTF8 := ByteArray.isValidUTF8_utf8Encode
  have read : String.fromUTF8 t.utf8.toByteArray valid = String.ofList t :=
    String.toByteArray_inj.mp rfl
  simp [decode, String.fromUTF8?, valid, read]

end Utf8
end SledeMachine
