import Mathlib.Algebra.Ring.Int.Defs
import Mathlib.Algebra.Ring.Nat
import Mathlib.Data.List.Induction
import SledeMachine.Proofs.Numeral

/-!
The grammar of literals. A numeral is a run of digits of a base and stands for a number. A literal
is a hexadecimal numeral behind its prefix, or a decimal one with at most one sign, whose value has
sixty-four bits; as a whole, a text is read as a literal if and only if it is one. At the front of
a text the reader takes one of the two forms with all the digits that there are, the hexadecimal
one if it can. Where there is a prefix and no value behind it, what is left to be read is the 0 in
front.
-/

namespace SledeMachine
namespace Literal

/-- A character as a digit of a base. The letters among the digits may be capitals. -/
def Digit (base : Nat) (c : Char) (value : Nat) : Prop :=
  value < base ∧ (c = value.digitChar ∨ c = value.digitChar.toUpper)

instance (base : Nat) (c : Char) (value : Nat) : Decidable (Digit base c value) :=
  inferInstanceAs (Decidable (_ ∧ _))

/-- One digit or more, and the number that they stand for. -/
inductive Numeral (base : Nat) : Text → Nat → Prop
  | single {c : Char} {value : Nat} (digit : Digit base c value) : Numeral base [c] value
  | extend {digits : Text} {n : Nat} {c : Char} {value : Nat} (front : Numeral base digits n)
      (digit : Digit base c value) : Numeral base (digits ++ [c]) (base * n + value)

/-- A text that does not go on with a digit. -/
def Ends (base : Nat) (rest : Text) : Prop := ∀ c ∈ rest.head?, ∀ value, ¬ Digit base c value

inductive Hexadecimal : Text → Int → Prop
  | marked {mark : Char} {digits : Text} {n : Nat} (mark_eq : mark = 'x' ∨ mark = 'X')
      (numeral : Numeral 16 digits n) : Hexadecimal ('0' :: mark :: digits) n

/-- A sign, or none, and the factor that it stands for. -/
inductive Sign : Text → Int → Prop
  | none : Sign [] 1
  | plus : Sign ['+'] 1
  | minus : Sign ['-'] (-1)

inductive Decimal : Text → Int → Prop
  | signed {mark digits : Text} {factor : Int} {n : Nat} (sign : Sign mark factor)
      (numeral : Numeral 10 digits n) : Decimal (mark ++ digits) (factor * n)

/-- A literal from end to end, with its value. -/
def Denotes (t : Text) (value : Int) : Prop :=
  Hexadecimal t value ∧ value ≤ 2 ^ 63 - 1 ∨
    Decimal t value ∧ -2 ^ 63 ≤ value ∧ value ≤ 2 ^ 63 - 1

/-- A literal of one form at the front of a text, with all its digits, and what is left. -/
def Takes (base : Nat) (form : Text → Int → Prop) (t : Text) (value : Int) (rest : Text) : Prop :=
  ∃ front, t = front ++ rest ∧ form front value ∧ (-2 ^ 63 ≤ value ∧ value ≤ 2 ^ 63 - 1) ∧
    Ends base rest

theorem ends_nil {base : Nat} : Ends base [] := by
  intro c last
  cases last

theorem inRange_iff {value : Int} : InRange value ↔ -2 ^ 63 ≤ value ∧ value ≤ 2 ^ 63 - 1 := by
  rw [InRange]
  omega

theorem digit_ten_iff {c : Char} {value : Nat} :
    Digit 10 c value ↔ c.isDigit = true ∧ c.toNat - '0'.toNat = value := by
  let reads (c : Char) (value : Nat) : Prop := c.isDigit = true ∧ c.toNat - '0'.toNat = value
  have shown : ∀ value < 10, reads value.digitChar value ∧ reads value.digitChar.toUpper value := by
    decide
  have known : ∀ n < 128, (Char.ofNat n).isDigit = true →
      Digit 10 (Char.ofNat n) ((Char.ofNat n).toNat - '0'.toNat) := by decide
  constructor
  · rintro ⟨small, rfl | rfl⟩
    · exact (shown value small).1
    · exact (shown value small).2
  · rintro ⟨digit, rfl⟩
    have ascii := Text.isAlphanum_iff.mp (Text.isAlphanum_of_isDigit digit)
    rw [← Char.ofNat_toNat c] at digit ⊢
    exact known c.toNat (by omega) digit

theorem digit_sixteen_iff {c : Char} {value : Nat} :
    Digit 16 c value ↔ isHexDigit c = true ∧ hexDigitValue c = value := by
  let reads (c : Char) (value : Nat) : Prop := isHexDigit c = true ∧ hexDigitValue c = value
  have shown : ∀ value < 16, reads value.digitChar value ∧ reads value.digitChar.toUpper value := by
    decide
  have known : ∀ n < 128, isHexDigit (Char.ofNat n) = true →
      Digit 16 (Char.ofNat n) (hexDigitValue (Char.ofNat n)) := by decide
  constructor
  · rintro ⟨small, rfl | rfl⟩
    · exact (shown value small).1
    · exact (shown value small).2
  · rintro ⟨digit, rfl⟩
    have ascii := Text.isAlphanum_iff.mp (isAlphanum_of_isHexDigit digit)
    rw [← Char.ofNat_toNat c] at digit ⊢
    exact known c.toNat (by omega) digit

section
variable {base : Nat} {isDigit : Char → Bool} {valueOf : Char → Nat}
  (reads : ∀ {c value}, Digit base c value ↔ isDigit c = true ∧ valueOf c = value)
include reads

theorem numeral_iff {t : Text} {n : Nat} :
    Numeral base t n ↔
      t ≠ [] ∧ (∀ c ∈ t, isDigit c = true) ∧ t.foldl (fun n c => base * n + valueOf c) 0 = n := by
  constructor
  · intro numeral
    induction numeral with
    | single digit =>
        obtain ⟨isDigit, value⟩ := reads.mp digit
        exact ⟨List.cons_ne_nil _ _, by simpa using isDigit, by simpa using value⟩
    | extend _ digit ih =>
        obtain ⟨isDigit, rfl⟩ := reads.mp digit
        obtain ⟨-, digits, rfl⟩ := ih
        refine ⟨List.append_ne_nil_of_right_ne_nil _ (List.cons_ne_nil _ _), fun c hc => ?_, ?_⟩
        · obtain hc | hc := List.mem_append.mp hc
          · exact digits c hc
          · rwa [List.mem_singleton.mp hc]
        · rw [List.foldl_append]
          rfl
  · rintro ⟨filled, digits, rfl⟩
    -- Digits are added at the end, so the induction is from there.
    induction t using List.reverseRecOn with
    | nil => exact absurd rfl filled
    | append_singleton front c ih =>
        have last : Digit base c (valueOf c) := reads.mpr ⟨digits c (by simp), rfl⟩
        rw [List.foldl_append, List.foldl_cons, List.foldl_nil]
        cases front with
        | nil => simpa using Numeral.single last
        | cons d front =>
            refine .extend (ih (List.cons_ne_nil _ _) fun e he => ?_) last
            exact digits e (List.mem_append_left _ he)

theorem ends_iff {rest : Text} : Ends base rest ↔ ∀ c ∈ rest.head?, isDigit c = false := by
  constructor
  · intro ends c hc
    rw [Bool.eq_false_iff]
    exact fun digit => ends c hc (valueOf c) (reads.mpr ⟨digit, rfl⟩)
  · intro other c hc value digit
    have := (reads.mp digit).1
    rw [other c hc] at this
    cases this

/-- All the digits at the front of a text are a numeral that ends with them. -/
theorem run_iff {t rest : Text} {n : Nat} :
    (∃ digits, t = digits ++ rest ∧ Numeral base digits n ∧ Ends base rest) ↔
      t.takeWhile isDigit ≠ [] ∧
        (t.takeWhile isDigit).foldl (fun n c => base * n + valueOf c) 0 = n ∧
        t.dropWhile isDigit = rest := by
  constructor
  · rintro ⟨digits, rfl, numeral, ends⟩
    obtain ⟨filled, digits, value⟩ := (numeral_iff reads).mp numeral
    have stop : rest.takeWhile isDigit = [] ∧ rest.dropWhile isDigit = rest := by
      cases rest with
      | nil => exact ⟨rfl, rfl⟩
      | cons c rest => simp [(ends_iff reads).mp ends c rfl]
    rw [List.takeWhile_append_of_pos digits, List.dropWhile_append_of_pos digits, stop.1, stop.2,
      List.append_nil]
    exact ⟨filled, value, rfl⟩
  · rintro ⟨filled, value, rfl⟩
    refine ⟨t.takeWhile isDigit, List.takeWhile_append_dropWhile.symm, ?_, ?_⟩
    · exact (numeral_iff reads).mpr ⟨filled, fun c hc => List.mem_takeWhile_imp hc, value⟩
    · refine (ends_iff reads).mpr fun c hc => ?_
      have := List.head?_dropWhile_not isDigit t
      rw [Option.mem_def.mp hc] at this
      simpa using this

end

theorem hexadecimal_append {front rest : Text} {value : Int} (denotes : Hexadecimal front value)
    (ends : Ends 16 rest) :
    hexadecimal (front ++ rest) = if InRange value then some (value, rest) else none := by
  obtain @⟨mark, digits, n, marked, numeral⟩ := denotes
  obtain ⟨filled, value, left⟩ := (run_iff digit_sixteen_iff).mp ⟨_, rfl, numeral, ends⟩
  have value : ofHexDigits ((digits ++ rest).takeWhile isHexDigit) = n := value
  simp only [List.cons_append, hexadecimal, value, left, marked, filled, ne_eq, not_false_eq_true,
    true_and]

theorem hexadecimal_eq_some_iff {t rest : Text} {value : Int} :
    hexadecimal t = some (value, rest) ↔ Takes 16 Hexadecimal t value rest := by
  constructor
  · intro read
    simp only [hexadecimal] at read
    split at read
    · rename_i mark after
      split_ifs at read with taken
      cases read
      obtain ⟨marked, filled, inRange⟩ := taken
      obtain ⟨digits, run, numeral, ends⟩ := (run_iff digit_sixteen_iff).mpr ⟨filled, rfl, rfl⟩
      refine ⟨'0' :: mark :: digits, ?_, .marked marked numeral, inRange_iff.mp inRange, ends⟩
      rw [List.cons_append, List.cons_append, ← run]
    · cases read
  · rintro ⟨_, rfl, denotes, inRange, ends⟩
    rw [hexadecimal_append denotes ends, if_pos (inRange_iff.mpr inRange)]

theorem sign_split (t : Text) : ∃ mark, Sign mark (sign t).1 ∧ t = mark ++ (sign t).2 := by
  simp only [sign]
  split
  · exact ⟨['+'], .plus, rfl⟩
  · exact ⟨['-'], .minus, rfl⟩
  · exact ⟨[], .none, rfl⟩

theorem sign_append {mark t : Text} {factor : Int} (sign : Sign mark factor)
    (digit : ∀ c ∈ t.head?, c.isDigit = true) : Literal.sign (mark ++ t) = (factor, t) := by
  cases sign with
  | plus | minus => rfl
  | none =>
      rw [List.nil_append, Literal.sign.eq_def]
      split
      · cases digit '+' rfl
      · cases digit '-' rfl
      · rfl

theorem decimal_append {front rest : Text} {value : Int} (denotes : Decimal front value)
    (ends : Ends 10 rest) :
    decimal (front ++ rest) = if InRange value then some (value, rest) else none := by
  obtain @⟨mark, digits, factor, n, signed, numeral⟩ := denotes
  have first : ∀ c ∈ (digits ++ rest).head?, c.isDigit = true := by
    obtain ⟨filled, digits, -⟩ := (numeral_iff digit_ten_iff).mp numeral
    obtain ⟨c, more, rfl⟩ := List.exists_cons_of_ne_nil filled
    simpa using digits c List.mem_cons_self
  obtain ⟨filled, value, left⟩ := (run_iff digit_ten_iff).mp ⟨_, rfl, numeral, ends⟩
  have value : ofDigits ((digits ++ rest).takeWhile Char.isDigit) = n := value
  simp only [List.append_assoc, decimal, sign_append signed first, value, left, filled, ne_eq,
    not_false_eq_true, true_and]

theorem decimal_eq_some_iff {t rest : Text} {value : Int} :
    decimal t = some (value, rest) ↔ Takes 10 Decimal t value rest := by
  constructor
  · intro read
    simp only [decimal] at read
    split_ifs at read with taken
    cases read
    obtain ⟨filled, inRange⟩ := taken
    obtain ⟨mark, signed, parts⟩ := sign_split t
    obtain ⟨digits, run, numeral, ends⟩ := (run_iff digit_ten_iff).mpr ⟨filled, rfl, rfl⟩
    refine ⟨mark ++ digits, ?_, .signed signed numeral, inRange_iff.mp inRange, ends⟩
    rw [List.append_assoc, ← run, ← parts]
  · rintro ⟨_, rfl, denotes, inRange, ends⟩
    rw [decimal_append denotes ends, if_pos (inRange_iff.mpr inRange)]

/-- The hexadecimal form comes first, and the decimal one only where the other is not there. -/
theorem token_eq_some_iff {t rest : Text} {value : Int} :
    token t = some (value, rest) ↔
      Takes 16 Hexadecimal t value rest ∨
        Takes 10 Decimal t value rest ∧ ∀ other left, ¬ Takes 16 Hexadecimal t other left := by
  simp only [← hexadecimal_eq_some_iff, ← decimal_eq_some_iff, token, Option.or_eq_some_iff,
    Option.eq_none_iff_forall_ne_some, Prod.forall, ne_eq]
  rw [and_comm]

theorem takes_all_iff {base : Nat} {form : Text → Int → Prop} {t : Text} {value : Int} :
    Takes base form t value [] ↔ form t value ∧ -2 ^ 63 ≤ value ∧ value ≤ 2 ^ 63 - 1 := by
  constructor
  · rintro ⟨front, rfl, denotes, inRange, -⟩
    rw [List.append_nil]
    exact ⟨denotes, inRange⟩
  · rintro ⟨denotes, inRange⟩
    exact ⟨t, (List.append_nil t).symm, denotes, inRange, ends_nil⟩

theorem Decimal.isDigit_or_sign {t : Text} {value : Int} (denotes : Decimal t value) {c : Char}
    (hc : c ∈ t) : c.isDigit = true ∨ c = '+' ∨ c = '-' := by
  obtain ⟨sign, numeral⟩ := denotes
  have digits := ((numeral_iff digit_ten_iff).mp numeral).2.1
  obtain hc | hc := List.mem_append.mp hc
  · cases sign with
    | none => cases hc
    | plus => exact .inr (.inl (List.mem_singleton.mp hc))
    | minus => exact .inr (.inr (List.mem_singleton.mp hc))
  · exact .inl (digits c hc)

theorem nonneg_of_hexadecimal {t : Text} {value : Int} (denotes : Hexadecimal t value) :
    0 ≤ value := by
  obtain ⟨-, -⟩ := denotes
  exact Int.natCast_nonneg _

theorem ofToken?_eq_some_iff {t : Text} {value : Int} :
    ofToken? t = some value ↔ Denotes t value := by
  rw [ofToken?, Token.whole_eq_some_iff, token_eq_some_iff, takes_all_iff, takes_all_iff, Denotes]
  constructor
  · rintro (⟨denotes, -, high⟩ | ⟨⟨denotes, low, high⟩, -⟩)
    · exact .inl ⟨denotes, high⟩
    · exact .inr ⟨denotes, low, high⟩
  · rintro (⟨denotes, high⟩ | ⟨denotes, low, high⟩)
    · have := nonneg_of_hexadecimal denotes
      exact .inl ⟨denotes, by omega, high⟩
    · refine .inr ⟨⟨denotes, low, high⟩, fun other left taken => ?_⟩
      -- The mark of the other form is neither a digit nor a sign.
      obtain ⟨_, rfl, ⟨marked, -⟩, -⟩ := taken
      have mark := denotes.isDigit_or_sign (List.mem_cons_of_mem _ List.mem_cons_self)
      obtain rfl | rfl := marked <;> simp at mark

theorem Denotes.unique {t : Text} {value other : Int} (first : Denotes t value)
    (second : Denotes t other) : value = other := by
  have read := ofToken?_eq_some_iff.mpr first
  rw [ofToken?_eq_some_iff.mpr second] at read
  exact (Option.some.inj read).symm

/-- No number in range can be read behind the prefix: there are no digits, or they stand for too
much. -/
def Unreadable (rest : Text) : Prop :=
  Ends 16 rest ∨
    ∃ digits left n, rest = digits ++ left ∧ Numeral 16 digits n ∧ Ends 16 left ∧ 2 ^ 63 - 1 < n

theorem hexadecimal_of_unreadable {mark : Char} {rest : Text} (marked : mark = 'x' ∨ mark = 'X')
    (unreadable : Unreadable rest) : hexadecimal ('0' :: mark :: rest) = none := by
  obtain ends | ⟨digits, left, n, rfl, numeral, ends, large⟩ := unreadable
  · have empty : rest.takeWhile isHexDigit = [] := by
      cases rest with
      | nil => rfl
      | cons c rest => simp [(ends_iff digit_sixteen_iff).mp ends c rfl]
    simp only [hexadecimal, empty]
    exact if_neg fun taken => taken.2.1 rfl
  · have outside : ¬ InRange (n : Int) := by
      rw [inRange_iff]
      omega
    have read := hexadecimal_append (.marked marked numeral) ends
    rwa [if_neg outside] at read

theorem decimal_of_marked {mark : Char} (marked : mark = 'x' ∨ mark = 'X') (rest : Text) :
    decimal ('0' :: mark :: rest) = some (0, mark :: rest) := by
  have zero : Decimal ['0'] 0 := .signed .none (.single (by decide : Digit 10 '0' 0))
  refine decimal_eq_some_iff.mpr ⟨['0'], rfl, zero, by decide, (ends_iff digit_ten_iff).mpr ?_⟩
  obtain rfl | rfl := marked <;> simp

/-- A text is read as a literal if and only if it is one from end to end. At the front of a text all
digits of a form are taken, and a prefix without a number in range behind it leaves its mark. -/
theorem literal_grammar (t : Text) :
    (∀ value, ofToken? t = some value ↔ Denotes t value) ∧
      (∀ value rest, token t = some (value, rest) ↔
        Takes 16 Hexadecimal t value rest ∨
          Takes 10 Decimal t value rest ∧ ∀ other left, ¬ Takes 16 Hexadecimal t other left) ∧
      (∀ mark rest, t = '0' :: mark :: rest → mark = 'x' ∨ mark = 'X' → Unreadable rest →
        token t = some (0, mark :: rest)) ∧
      ∀ front value rest, t = front ++ rest → Decimal front value → Ends 10 rest →
        value < -2 ^ 63 ∨ 2 ^ 63 - 1 < value → token t = none := by
  refine ⟨fun value => ofToken?_eq_some_iff, fun value rest => token_eq_some_iff, ?_, ?_⟩
  · rintro mark rest rfl marked unreadable
    rw [token, hexadecimal_of_unreadable marked unreadable, decimal_of_marked marked rest,
      Option.none_or]
  · rintro front value rest rfl denotes ends outside
    have overflow : ¬ InRange value := by
      rw [inRange_iff]
      omega
    have none : decimal (front ++ rest) = none := by
      rw [decimal_append denotes ends, if_neg overflow]
    rw [token, none, Option.or_none]
    -- In front of the mark of the other form stands the decimal literal 0.
    refine Option.eq_none_iff_forall_ne_some.mpr ?_
    rintro ⟨other, left⟩ read
    obtain ⟨_, parts, ⟨marked, -⟩, -⟩ := hexadecimal_eq_some_iff.mp read
    rw [parts, List.cons_append, List.cons_append, decimal_of_marked marked] at none
    cases none

/-- The first number that is out of range, in either form. -/
theorem literal_grammar_overflow :
    let digits := "8000000000000000".toList
    let t := "9223372036854775808".toList
    (Unreadable digits ∧ token ('0' :: 'x' :: digits) = some (0, 'x' :: digits)) ∧
      Decimal t (2 ^ 63) ∧ Ends 10 [] ∧ token t = none := by
  intro digits t
  have hexadecimal : Numeral 16 digits (2 ^ 63) :=
    (numeral_iff digit_sixteen_iff).mpr
      ⟨by decide, List.all_eq_true.mp (by decide), by decide⟩
  have decimal : Numeral 10 t (2 ^ 63) :=
    (numeral_iff digit_ten_iff).mpr
      ⟨by decide, List.all_eq_true.mp (by decide), by decide⟩
  have unreadable : Unreadable digits :=
    .inr ⟨digits, [], 2 ^ 63, by simp, hexadecimal, nofun, by decide⟩
  have denotes : Decimal t (2 ^ 63) := .signed .none decimal
  exact ⟨⟨unreadable, (literal_grammar _).2.2.1 'x' digits rfl (.inl rfl) unreadable⟩, denotes,
    nofun, (literal_grammar t).2.2.2 t _ [] (by simp) denotes nofun (.inr (by decide))⟩

end Literal
end SledeMachine
