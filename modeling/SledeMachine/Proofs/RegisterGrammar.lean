import SledeMachine.Proofs.Emission
import SledeMachine.Proofs.LiteralGrammar

/-!
The grammar of registers. A register is its letter and a decimal numeral of its index, with any
number of zeros in front. At the front of a text the reader takes all the digits behind the letter
or fails: `r16` is not the register `r1` and a digit. No literal begins with a letter, so an operand
that may be either of the two is never both.
-/

namespace SledeMachine
namespace Register

/-- A register from end to end: its letter and a decimal numeral of its index. -/
inductive Denotes : Text → Register → Prop
  | lettered {digits : Text} {n : Nat} (numeral : Literal.Numeral 10 digits n) (small : n < 16) :
      Denotes ('r' :: digits) ⟨n, small⟩

/-- What `SETT` does to its first operand with the second one, which is a literal or a register. -/
inductive Source (target : Register) : Text → Instruction → Prop
  | value {t : Text} {value : Int} (literal : Literal.Denotes t value) :
      Source target t (.set target (Literal.toByte value))
  | register {t : Text} {r : Register} (register : Denotes t r) : Source target t (.copy target r)

theorem token_append {digits rest : Text} {n : Nat} (numeral : Literal.Numeral 10 digits n)
    (ends : Literal.Ends 10 rest) :
    token ('r' :: (digits ++ rest)) = if small : n < 16 then some (⟨n, small⟩, rest) else none := by
  obtain ⟨filled, value, left⟩ :=
    (Literal.run_iff Literal.digit_ten_iff).mp ⟨digits, rfl, numeral, ends⟩
  have value : Literal.ofDigits ((digits ++ rest).takeWhile Char.isDigit) = n := value
  simp only [token, value, left, filled, ne_eq, not_false_eq_true, true_and]

theorem token_eq_some_iff {t rest : Text} {r : Register} :
    token t = some (r, rest) ↔
      ∃ front, t = front ++ rest ∧ Denotes front r ∧ Literal.Ends 10 rest := by
  constructor
  · intro read
    simp only [token] at read
    split at read
    · rename_i after
      split_ifs at read with taken
      cases read
      obtain ⟨filled, small⟩ := taken
      obtain ⟨digits, run, numeral, ends⟩ :=
        (Literal.run_iff Literal.digit_ten_iff).mpr ⟨filled, rfl, rfl⟩
      refine ⟨'r' :: digits, ?_, .lettered numeral small, ends⟩
      rw [List.cons_append, ← run]
    · cases read
  · rintro ⟨_, rfl, ⟨numeral, small⟩, ends⟩
    rw [List.cons_append, token_append numeral ends, dif_pos small]

theorem ofToken?_eq_some_iff {t : Text} {r : Register} : ofToken? t = some r ↔ Denotes t r := by
  rw [ofToken?, Token.whole_eq_some_iff, token_eq_some_iff]
  constructor
  · rintro ⟨front, rfl, denotes, -⟩
    rwa [List.append_nil]
  · intro denotes
    exact ⟨t, (List.append_nil t).symm, denotes, Literal.ends_nil⟩

theorem Denotes.unique {t : Text} {r s : Register} (first : Denotes t r) (second : Denotes t s) :
    r = s := by
  have read := ofToken?_eq_some_iff.mpr first
  rw [ofToken?_eq_some_iff.mpr second] at read
  exact (Option.some.inj read).symm

theorem Denotes.not_literal {t : Text} {r : Register} (denotes : Denotes t r) (value : Int) :
    ¬ Literal.Denotes t value := by
  obtain ⟨-, -⟩ := denotes
  rintro (⟨hexadecimal, -⟩ | ⟨decimal, -⟩)
  · cases hexadecimal
  · -- The letter would be a digit or a sign.
    have letter := decimal.isDigit_or_sign List.mem_cons_self
    revert letter
    decide

theorem Source.unique {target : Register} {t : Text} {i j : Instruction} (first : Source target t i)
    (second : Source target t j) : i = j := by
  cases first with
  | value literal =>
      cases second with
      | value other => rw [literal.unique other]
      | register register => exact absurd literal (register.not_literal _)
  | register register =>
      cases second with
      | value literal => exact absurd literal (register.not_literal _)
      | register other => rw [register.unique other]

theorem operand_eq_ok_iff {t : Text} {r : Register} :
    Operand.register t = .ok r ↔ Denotes t r := by
  rw [Operand.register_eq_ok_iff, ofToken?_eq_some_iff]

theorem operand_eq_error_iff {t : Text} {e : StatementError} :
    Operand.register t = .error e ↔ (∀ r, ¬ Denotes t r) ∧ e = .invalidRegister t := by
  simp only [← ofToken?_eq_some_iff, Operand.register]
  cases ofToken? t with
  | some r => simp
  | none => simp [eq_comm]

/-- Which of the two readings of the second operand is tried first makes no difference. -/
theorem emission_set_iff {addressOf : Text → Option Nat} {a t : Text} {e : Emission} :
    Mnemonic.emission addressOf .set [a, t] = .ok e ↔
      ∃ target i, Denotes a target ∧ Source target t i ∧ e = .instruction i := by
  rw [Mnemonic.emission_eq_ok_iff]
  constructor
  · intro emits
    cases emits with
    | set target literal =>
        have literal := Literal.ofToken?_eq_some_iff.mp literal
        exact ⟨_, _, operand_eq_ok_iff.mp target, .value literal, rfl⟩
    | copy target notLiteral source =>
        have source := operand_eq_ok_iff.mp source
        exact ⟨_, _, operand_eq_ok_iff.mp target, .register source, rfl⟩
  · rintro ⟨target, i, denotes, source, rfl⟩
    have target := operand_eq_ok_iff.mpr denotes
    cases source with
    | value literal => exact .set target (Literal.ofToken?_eq_some_iff.mpr literal)
    | register register =>
        have notLiteral : Literal.ofToken? t = none := by
          refine Option.eq_none_iff_forall_ne_some.mpr fun value read => ?_
          exact register.not_literal value (Literal.ofToken?_eq_some_iff.mp read)
        exact .copy target notLiteral (operand_eq_ok_iff.mpr register)

/-- A text is read as a register if and only if it is one from end to end, and refused as an invalid
register otherwise. At the front of a text all the digits behind the letter are taken, or nothing
where they stand for too much. No register is a literal, so the second operand of `SETT` has at most
one reading, and that is the one of which the instruction is made. -/
theorem register_grammar (t : Text) :
    (∀ r, Operand.register t = .ok r ↔ Denotes t r) ∧
      (∀ e, Operand.register t = .error e ↔ (∀ r, ¬ Denotes t r) ∧ e = .invalidRegister t) ∧
      (∀ r rest, token t = some (r, rest) ↔
        ∃ front, t = front ++ rest ∧ Denotes front r ∧ Literal.Ends 10 rest) ∧
      (∀ digits n rest, t = 'r' :: (digits ++ rest) → Literal.Numeral 10 digits n →
        Literal.Ends 10 rest → 16 ≤ n → token t = none) ∧
      (∀ r value, ¬ (Denotes t r ∧ Literal.Denotes t value)) ∧
      (∀ addressOf a e, Mnemonic.emission addressOf .set [a, t] = .ok e ↔
        ∃ target i, Denotes a target ∧ Source target t i ∧ e = .instruction i) ∧
      ∀ target i j, Source target t i → Source target t j → i = j := by
  refine ⟨fun r => operand_eq_ok_iff, fun e => operand_eq_error_iff,
    fun r rest => token_eq_some_iff, ?_, ?_, fun addressOf a e => emission_set_iff,
    fun target i j => Source.unique⟩
  · rintro digits n rest rfl numeral ends large
    rw [token_append numeral ends, dif_neg (Nat.not_lt.mpr large)]
  · rintro r value ⟨register, literal⟩
    exact register.not_literal value literal

/-- The first index that is too large is not read by its first digit, and the last register is read
with zeros in front of its index. -/
theorem register_grammar_whole_run :
    let t := "r16".toList
    let s := "r0015".toList
    (Literal.Numeral 10 "16".toList 16 ∧ Literal.Ends 10 [] ∧ token t = none) ∧
      Operand.register s = .ok 15 ∧ Source 3 s (.copy 3 15) ∧ ¬ Source 3 s (.set 3 0) := by
  intro t s
  have sixteen : Literal.Numeral 10 "16".toList 16 :=
    (Literal.numeral_iff Literal.digit_ten_iff).mpr
      ⟨by decide, List.all_eq_true.mp (by decide), by decide⟩
  have fifteen : Literal.Numeral 10 "0015".toList 15 :=
    (Literal.numeral_iff Literal.digit_ten_iff).mpr
      ⟨by decide, List.all_eq_true.mp (by decide), by decide⟩
  have last : Denotes s 15 := .lettered fifteen (by decide)
  refine ⟨⟨sixteen, Literal.ends_nil, ?_⟩, ((register_grammar s).1 15).mpr last, .register last, ?_⟩
  · exact (register_grammar t).2.2.2.1 _ 16 [] rfl sixteen Literal.ends_nil (Nat.le_refl 16)
  · intro value
    have equal := (register_grammar s).2.2.2.2.2.2 3 _ _ value (.register last)
    cases equal

end Register
end SledeMachine
