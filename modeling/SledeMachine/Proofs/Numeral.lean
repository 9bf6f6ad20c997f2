import Mathlib.Data.List.TakeWhile
import SledeMachine.Token

/-!
Numbers that are written and read back. A number in decimal is a literal of its value, and so is one
in hexadecimal with its prefix, to whatever width it is filled up; a register is read back by its
name, which is no literal. Everything so written is a word: it holds letters and digits only.
-/

namespace SledeMachine

namespace Text

def isWordChar (c : Char) : Bool := c.isAlphanum || c == '.'

/-- A text of letters, digits and full stops with at least one of them. Every opcode and every
operand that is printed is one. -/
def IsWord (t : Text) : Prop := t ≠ [] ∧ ∀ c ∈ t, isWordChar c = true

instance (t : Text) : Decidable (IsWord t) :=
  decidable_of_iff (t ≠ [] ∧ t.all isWordChar = true) (and_congr_right fun _ => List.all_eq_true)

theorem isWordChar_of_isAlphanum {c : Char} (h : c.isAlphanum = true) : isWordChar c = true := by
  rw [isWordChar, h, Bool.true_or]

theorem isAlphanum_iff {c : Char} :
    c.isAlphanum = true ↔
      ((65 ≤ c.toNat ∧ c.toNat ≤ 90) ∨ (97 ≤ c.toNat ∧ c.toNat ≤ 122)) ∨
        (48 ≤ c.toNat ∧ c.toNat ≤ 57) := by
  change ((decide (c.val ≥ 65 ∧ c.val ≤ 90) || (decide (c.val ≥ 97) && decide (c.val ≤ 122))) ||
    (decide (c.val ≥ 48) && decide (c.val ≤ 57))) = true ↔ _
  simp only [Bool.or_eq_true, Bool.and_eq_true, decide_eq_true_eq]
  rfl

theorem isAlphanum_of_isDigit {c : Char} (h : c.isDigit = true) : c.isAlphanum = true := by
  rw [Char.isAlphanum, h, Bool.or_true]

theorem isDigit_of_mem_decimal {n : Nat} {c : Char} (h : c ∈ decimal n) : c.isDigit = true :=
  Nat.isDigit_of_mem_toDigits (by decide) (by decide) h

theorem decimal_ne_nil (n : Nat) : decimal n ≠ [] := Nat.toDigits_ne_nil

theorem isWord_decimal (n : Nat) : IsWord (decimal n) :=
  ⟨decimal_ne_nil n, fun _ hc =>
    isWordChar_of_isAlphanum (isAlphanum_of_isDigit (isDigit_of_mem_decimal hc))⟩

theorem isWord_register (r : Register) : IsWord r.text := by
  refine ⟨List.cons_ne_nil _ _, fun c hc => ?_⟩
  obtain rfl | hc := List.mem_cons.mp hc
  · decide
  · exact (isWord_decimal r.val).2 c hc

end Text

namespace Literal

theorem isHexDigit_digitChar : ∀ d < 16, isHexDigit (Nat.digitChar d) = true := by decide

theorem hexDigitValue_digitChar : ∀ d < 16, hexDigitValue (Nat.digitChar d) = d := by decide

theorem isAlphanum_of_isHexDigit {c : Char} (h : isHexDigit c = true) : c.isAlphanum = true := by
  simp only [isHexDigit, Bool.or_eq_true, Bool.and_eq_true, decide_eq_true_eq] at h
  obtain (h | ⟨low, high⟩) | ⟨low, high⟩ := h
  · exact Text.isAlphanum_of_isDigit h
  · exact Text.isAlphanum_iff.mpr (.inl (.inr ⟨low, Nat.le_trans high (by decide)⟩))
  · exact Text.isAlphanum_iff.mpr (.inl (.inl ⟨low, Nat.le_trans high (by decide)⟩))

theorem ofHexDigits_append (digits : Text) (c : Char) :
    ofHexDigits (digits ++ [c]) = 16 * ofHexDigits digits + hexDigitValue c := by
  simp [ofHexDigits]

theorem toDigits_sixteen (n : Nat) :
    (∀ c ∈ Nat.toDigits 16 n, isHexDigit c = true) ∧ ofHexDigits (Nat.toDigits 16 n) = n := by
  induction n using Nat.strongRecOn with
  | ind n ih =>
      rw [Nat.toDigits_eq_if (by decide)]
      split
      · rename_i short
        refine ⟨fun c hc => ?_, ?_⟩
        · rw [List.mem_singleton.mp hc]
          exact isHexDigit_digitChar n short
        · rw [← List.nil_append [n.digitChar], ofHexDigits_append, hexDigitValue_digitChar n short]
          exact Nat.zero_add n
      · rename_i long
        have last : n % 16 < 16 := Nat.mod_lt n (by decide)
        obtain ⟨digits, value⟩ := ih (n / 16) (by omega)
        refine ⟨fun c hc => ?_, ?_⟩
        · obtain hc | hc := List.mem_append.mp hc
          · exact digits c hc
          · rw [List.mem_singleton.mp hc]
            exact isHexDigit_digitChar _ last
        · rw [ofHexDigits_append, value, hexDigitValue_digitChar _ last]
          exact Nat.div_add_mod n 16

theorem isHexDigit_of_mem_hex {width n : Nat} {c : Char} (h : c ∈ Text.hex width n) :
    isHexDigit c = true := by
  obtain h | h := List.mem_append.mp h
  · rw [List.eq_of_mem_replicate h]
    decide
  · exact (toDigits_sixteen n).1 c h

theorem ofHexDigits_hex (width n : Nat) : ofHexDigits (Text.hex width n) = n := by
  have zeros (k : Nat) (digits : Text) :
      ofHexDigits (List.replicate k '0' ++ digits) = ofHexDigits digits := by
    induction k with
    | zero => rfl
    | succ k ih => exact ih
  rw [Text.hex, Text.fillLeft, zeros]
  exact (toDigits_sixteen n).2

theorem hex_ne_nil (width n : Nat) : Text.hex width n ≠ [] :=
  List.append_ne_nil_of_right_ne_nil _ Nat.toDigits_ne_nil

theorem isWord_hex (width n : Nat) : Text.IsWord ("0x".toList ++ Text.hex width n) := by
  have mark : Text.IsWord "0x".toList := by decide
  refine ⟨nofun, fun c hc => ?_⟩
  obtain hc | hc := List.mem_append.mp hc
  · exact mark.2 c hc
  · exact Text.isWordChar_of_isAlphanum (isAlphanum_of_isHexDigit (isHexDigit_of_mem_hex hc))

/-- A literal in hexadecimal may be filled up to any width. -/
theorem ofToken?_hex (width n : Nat) (inRange : InRange n) :
    ofToken? ("0x".toList ++ Text.hex width n) = some (n : Int) := by
  have all := List.takeWhile_eq_self_iff.mpr fun c => @isHexDigit_of_mem_hex width n c
  have none_left := List.dropWhile_eq_nil_iff.mpr fun c => @isHexDigit_of_mem_hex width n c
  have read : hexadecimal ("0x".toList ++ Text.hex width n) = some ((n : Int), []) := by
    change hexadecimal ('0' :: 'x' :: Text.hex width n) = _
    simp only [hexadecimal, all, none_left, ofHexDigits_hex]
    exact if_pos ⟨.inl trivial, hex_ne_nil width n, inRange⟩
  rw [ofToken?, Token.whole_eq_some_iff, token, read, Option.some_or]

theorem hexadecimal_of_digits {t : Text} (digits : ∀ c ∈ t, c.isDigit = true) :
    hexadecimal t = none := by
  simp only [hexadecimal]
  split
  · rename_i mark rest
    have plain := digits mark (by simp)
    refine if_neg fun h => ?_
    obtain ⟨rfl | rfl, -⟩ := h <;> cases plain
  · rfl

theorem sign_of_digits {t : Text} (digits : ∀ c ∈ t, c.isDigit = true) : sign t = (1, t) := by
  simp only [sign]
  split
  · cases digits '+' List.mem_cons_self
  · cases digits '-' List.mem_cons_self
  · rfl

theorem ofToken?_decimal (n : Nat) (inRange : InRange n) :
    ofToken? (Text.decimal n) = some (n : Int) := by
  have digits : ∀ c ∈ Text.decimal n, c.isDigit = true := fun _ => Text.isDigit_of_mem_decimal
  have value : ofDigits (Text.decimal n) = n := Nat.ofDigitChars_ten_toDigits
  have read : decimal (Text.decimal n) = some ((n : Int), []) := by
    simp only [decimal, sign_of_digits digits, List.takeWhile_eq_self_iff.mpr digits,
      List.dropWhile_eq_nil_iff.mpr digits, value, Int.one_mul]
    exact if_pos ⟨Text.decimal_ne_nil n, inRange⟩
  rw [ofToken?, Token.whole_eq_some_iff, token, hexadecimal_of_digits digits, read, Option.none_or]

theorem ofToken?_address (n : Nat) (inRange : InRange n) :
    ofToken? (Text.address n) = some (n : Int) :=
  ofToken?_hex 3 n inRange

theorem ofToken?_byte (b : UInt8) : ofToken? (Text.byte b) = some (b.toNat : Int) := by
  have := b.toNat_lt
  exact ofToken?_hex 2 b.toNat ⟨by omega, by omega⟩

theorem ofToken?_register (r : Register) : ofToken? r.text = none := by
  rfl

theorem toByte_toNat (b : UInt8) : toByte (b.toNat : Int) = b := by
  have := b.toNat_lt
  apply UInt8.toNat_inj.mp
  simp only [toByte, UInt8.toNat_ofNat']
  omega

theorem toAddress_of_lt {n : Nat} (h : n < 4096) : toAddress (n : Int) = n := by
  simp only [toAddress]
  omega

end Literal

theorem Register.ofToken?_text (r : Register) : ofToken? r.text = some r := by
  have digits : ∀ c ∈ Text.decimal r.val, c.isDigit = true := fun _ => Text.isDigit_of_mem_decimal
  have value : Literal.ofDigits (Text.decimal r.val) = r.val := Nat.ofDigitChars_ten_toDigits
  rw [ofToken?, Token.whole_eq_some_iff, text]
  simp only [token, List.takeWhile_eq_self_iff.mpr digits, List.dropWhile_eq_nil_iff.mpr digits,
    value]
  exact dif_pos ⟨Text.decimal_ne_nil r.val, r.isLt⟩

end SledeMachine
