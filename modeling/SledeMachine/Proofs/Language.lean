import SledeMachine.Proofs.LineByLine
import SledeMachine.Proofs.NormalForm
import SledeMachine.Proofs.RegisterGrammar

/-!
The language that is accepted and how the rest is refused. Each opcode has roles for its operands,
and a statement is well formed if its opcode is known and it has just the operands that fill these
roles. Of what is wrong with a statement the opcode is reported before the number of the operands
and that before the first operand that does not fill its role; of a source it is what is wrong with
the first ill-formed line.
-/

namespace SledeMachine

namespace Operand

/-- What an operand is read as. -/
inductive Role
  | register
  /-- The second operand of `SETT`. -/
  | source
  | address
  | byte
  deriving DecidableEq, Repr

namespace Role

/-- The operands that fill a role, where some names are defined. -/
def Accepts (defined : Text → Prop) : Role → Text → Prop
  | .register, token => ∃ r, Register.Denotes token r
  | .source, token => (∃ value, Literal.Denotes token value) ∨ ∃ r, Register.Denotes token r
  | .address, token => (∃ value, Literal.Denotes token value) ∨ defined token
  | .byte, token => ∃ value, Literal.Denotes token value

/-- What is reported of an operand that does not fill its role. -/
def refusal : Role → Text → StatementError
  | .register | .source => .invalidRegister
  | .address | .byte => .unexpectedToken

/-- The reading of an operand, less what it is read as. -/
def verdict (addressOf : Text → Option Nat) : Role → Text → Except StatementError Unit
  | .register, token => (Operand.register token).map fun _ => ()
  | .source, token =>
      match Literal.ofToken? token with
      | some _ => .ok ()
      | none => (Operand.register token).map fun _ => ()
  | .address, token => (Operand.address addressOf token).map fun _ => ()
  | .byte, token => (Operand.byte token).map fun _ => ()

/-- The reading of operands from left to right. -/
def verdicts (addressOf : Text → Option Nat) (operands : List (Role × Text)) :
    Except StatementError (List Unit) :=
  operands.mapM fun operand => verdict addressOf operand.1 operand.2

section
variable {addressOf : Text → Option Nat} {defined : Text → Prop}
  (names : ∀ name, (∃ a, addressOf name = some a) ↔ defined name)
include names

theorem verdict_cases (role : Role) (token : Text) :
    verdict addressOf role token = .ok () ∧ role.Accepts defined token ∨
      verdict addressOf role token = .error (role.refusal token) ∧
        ¬ role.Accepts defined token := by
  simp only [Accepts, ← Literal.ofToken?_eq_some_iff, ← Register.ofToken?_eq_some_iff]
  cases role with
  | register =>
      simp only [verdict, refusal, Operand.register]
      cases Register.ofToken? token <;> simp [Except.map]
  | source =>
      simp only [verdict, refusal, Operand.register]
      cases Literal.ofToken? token <;> cases Register.ofToken? token <;> simp [Except.map]
  | address =>
      simp only [verdict, refusal, Operand.address, ← names]
      cases Literal.ofToken? token <;> cases addressOf token <;> simp [Except.map]
  | byte =>
      simp only [verdict, refusal, Operand.byte]
      cases Literal.ofToken? token <;> simp [Except.map]

theorem verdict_eq_ok_iff {role : Role} {token : Text} {u : Unit} :
    verdict addressOf role token = .ok u ↔ role.Accepts defined token := by
  obtain ⟨given, accepts⟩ | ⟨given, refuses⟩ := verdict_cases names role token
  · simp [given, accepts]
  · simp [given, refuses]

theorem verdict_eq_error_iff {role : Role} {token : Text} {e : StatementError} :
    verdict addressOf role token = .error e ↔
      ¬ role.Accepts defined token ∧ role.refusal token = e := by
  obtain ⟨given, accepts⟩ | ⟨given, refuses⟩ := verdict_cases names role token
  · simp [given, accepts]
  · simp [given, refuses]

end
end Role
end Operand

namespace Mnemonic

/-- The roles of the operands. A data directive has as many as it is given. -/
def roles (m : Mnemonic) (args : List Text) : List Operand.Role :=
  match m with
  | .halt | .ret | .nop => []
  | .load | .store | .read | .write => [.register]
  | .alu _ | .compare _ => [.register, .register]
  | .set => [.register, .source]
  | .locate | .jump | .branch | .call => [.address]
  | .data => args.map fun _ => .byte

/-- The number of the operands is judged first, then they are from left to right. -/
def judge (addressOf : Text → Option Nat) (m : Mnemonic) (roles : List Operand.Role)
    (args : List Text) : Except StatementError Unit :=
  if args.length = roles.length then
    (Operand.Role.verdicts addressOf (roles.zip args)).map fun _ => ()
  else .error (.arity m roles.length args)

section
variable (addressOf : Text → Option Nat) (m : Mnemonic) (args : List Text)

theorem judge_of_length_ne {roles : List Operand.Role} (h : args.length ≠ roles.length) :
    m.judge addressOf roles args = .error (.arity m roles.length args) :=
  if_neg h

theorem judge_one (role : Operand.Role) (a : Text) :
    m.judge addressOf [role] [a] = role.verdict addressOf a := by
  rw [judge, if_pos (show [a].length = [role].length from rfl), Operand.Role.verdicts,
    List.zip_cons_cons, List.mapM_cons]
  cases role.verdict addressOf a <;> rfl

theorem judge_two (first second : Operand.Role) (a b : Text) :
    m.judge addressOf [first, second] [a, b] =
      first.verdict addressOf a >>= fun _ => second.verdict addressOf b := by
  rw [judge, if_pos (show [a, b].length = [first, second].length from rfl),
    Operand.Role.verdicts, List.zip_cons_cons, List.zip_cons_cons, List.mapM_cons, List.mapM_cons]
  cases first.verdict addressOf a <;> cases second.verdict addressOf b <;> rfl

theorem noOperand_verdict (i : Instruction) :
    (m.noOperand args i).map (fun _ => ()) = m.judge addressOf [] args := by
  match args with
  | [] => rfl
  | _ :: _ => rfl

theorem oneRegister_verdict (result : Register → Instruction) :
    (m.oneRegister args result).map (fun _ => ()) = m.judge addressOf [.register] args := by
  match args with
  | [] => rfl
  | [a] =>
      rw [judge_one, oneRegister, Operand.Role.verdict]
      cases Operand.register a <;> rfl
  | _ :: _ :: _ =>
      rw [judge_of_length_ne _ _ _ (by simp)]
      rfl

theorem oneAddress_verdict (result : Nat → Instruction) :
    (oneAddress addressOf m args result).map (fun _ => ()) = m.judge addressOf [.address] args := by
  match args with
  | [] => rfl
  | [a] =>
      rw [judge_one, oneAddress, Operand.Role.verdict]
      cases Operand.address addressOf a <;> rfl
  | _ :: _ :: _ =>
      rw [judge_of_length_ne _ _ _ (by simp)]
      rfl

theorem twoRegisters_verdict (result : Register → Register → Instruction) :
    (m.twoRegisters args result).map (fun _ => ()) =
      m.judge addressOf [.register, .register] args := by
  match args with
  | [] | [_] => rfl
  | [a, b] =>
      rw [judge_two, twoRegisters, Operand.Role.verdict, Operand.Role.verdict]
      cases Operand.register a <;> cases Operand.register b <;> rfl
  | _ :: _ :: _ :: _ =>
      rw [judge_of_length_ne _ _ _ (by simp)]
      rfl

theorem setOperands_verdict :
    (m.setOperands args).map (fun _ => ()) = m.judge addressOf [.register, .source] args := by
  match args with
  | [] | [_] => rfl
  | [a, b] =>
      rw [judge_two, setOperands, Operand.Role.verdict, Operand.Role.verdict]
      cases Operand.register a <;> cases Literal.ofToken? b <;> cases Operand.register b <;> rfl
  | _ :: _ :: _ :: _ =>
      rw [judge_of_length_ne _ _ _ (by simp)]
      rfl

theorem data_verdict :
    (args.mapM Operand.byte).map (fun _ => ()) =
      m.judge addressOf (args.map fun _ => .byte) args := by
  have operands : (args.map fun _ => Operand.Role.byte).zip args =
      args.map fun a => (.byte, a) := by
    simpa using List.zip_map' (f := fun _ => Operand.Role.byte) (g := id) (l := args)
  rw [judge, if_pos (List.length_map _).symm, Operand.Role.verdicts, operands, List.mapM_map]
  have reading := Traversal.mapM_map_eq Operand.byte (fun _ => ()) args
  simp only [Function.comp_def, Operand.Role.verdict, reading]
  cases args.mapM Operand.byte <;> rfl

/-- Whether a statement means something is told by the roles of its opcode alone. -/
theorem emission_verdict :
    (m.emission addressOf args).map (fun _ => ()) = m.judge addressOf (m.roles args) args := by
  cases m with
  | halt | ret | nop => exact noOperand_verdict ..
  | load | store | read | write => exact oneRegister_verdict ..
  | alu | compare => exact twoRegisters_verdict ..
  | set => exact setOperands_verdict ..
  | locate | jump | branch | call => exact oneAddress_verdict ..
  | data =>
      rw [roles, ← data_verdict, emission]
      cases args.mapM Operand.byte <;> rfl

end
end Mnemonic

namespace Statement

/-- An opcode with the operands that it takes. -/
def WellFormed (defined : Text → Prop) (s : Statement) : Prop :=
  ∃ m : Mnemonic, s.opcode = m.name ∧ List.Forall₂ (·.Accepts defined) (m.roles s.args) s.args

/-- What is reported of a statement that is not well formed. -/
inductive Violation (defined : Text → Prop) (s : Statement) : StatementError → Prop
  | opcode (unknown : ∀ m : Mnemonic, s.opcode ≠ m.name) :
      Violation defined s (.unknownOpcode s.opcode)
  | arity {m : Mnemonic} (known : s.opcode = m.name)
      (count : s.args.length ≠ (m.roles s.args).length) :
      Violation defined s (.arity m (m.roles s.args).length s.args)
  /-- The operands before this one fill their roles. -/
  | operand {m : Mnemonic} {role : Operand.Role} {token : Text}
      {before after : List (Operand.Role × Text)} (known : s.opcode = m.name)
      (count : s.args.length = (m.roles s.args).length)
      (split : (m.roles s.args).zip s.args = before ++ (role, token) :: after)
      (filled : ∀ operand ∈ before, operand.1.Accepts defined operand.2)
      (refused : ¬ role.Accepts defined token) :
      Violation defined s (role.refusal token)

end Statement

section
variable {addressOf : Text → Option Nat} {defined : Text → Prop}
  (names : ∀ name, (∃ a, addressOf name = some a) ↔ defined name)
include names

theorem Mnemonic.judge_eq_ok_iff {m : Mnemonic} {roles : List Operand.Role} {args : List Text} :
    m.judge addressOf roles args = .ok () ↔ List.Forall₂ (·.Accepts defined) roles args := by
  have all : (∃ units, Operand.Role.verdicts addressOf (roles.zip args) = .ok units) ↔
      ∀ operand ∈ roles.zip args, operand.1.Accepts defined operand.2 := by
    rw [Operand.Role.verdicts, Traversal.exists_mapM_iff]
    simp only [Operand.Role.verdict_eq_ok_iff names, exists_const]
  rw [judge, List.forall₂_iff_zip]
  split
  · rename_i count
    simp [Traversal.map_eq_ok_iff, all, count]
  · rename_i count
    simp [Ne.symm count]

theorem Mnemonic.judge_eq_error_iff {m : Mnemonic} {roles : List Operand.Role} {args : List Text}
    {e : StatementError} :
    m.judge addressOf roles args = .error e ↔
      args.length ≠ roles.length ∧ .arity m roles.length args = e ∨
        args.length = roles.length ∧
          ∃ before role token after, roles.zip args = before ++ (role, token) :: after ∧
            (∀ operand ∈ before, operand.1.Accepts defined operand.2) ∧
            ¬ role.Accepts defined token ∧ role.refusal token = e := by
  rw [judge]
  split
  · rename_i count
    rw [Traversal.map_eq_error_iff, Operand.Role.verdicts, Traversal.mapM_eq_error_iff]
    simp [Operand.Role.verdict_eq_ok_iff names, Operand.Role.verdict_eq_error_iff names, count]
  · rename_i count
    simp [count]

namespace Statement
variable {s : Statement}

theorem exists_emission_iff : (∃ e, s.emission addressOf = .ok e) ↔ s.WellFormed defined := by
  rw [emission, WellFormed]
  cases found : Mnemonic.ofToken? s.opcode with
  | none =>
      have unknown := Mnemonic.ofToken?_eq_none_iff.mp found
      simp [unknown]
  | some m =>
      have name := Mnemonic.ofToken?_eq_some_iff.mp found
      simp only [name, Mnemonic.name_inj, exists_eq_left']
      rw [← Mnemonic.judge_eq_ok_iff names (m := m), ← Mnemonic.emission_verdict,
        Traversal.map_eq_ok_iff]
      simp

theorem emission_eq_error_iff {e : StatementError} :
    s.emission addressOf = .error e ↔ s.Violation defined e := by
  rw [emission]
  cases found : Mnemonic.ofToken? s.opcode with
  | none =>
      have unknown := Mnemonic.ofToken?_eq_none_iff.mp found
      constructor
      · intro h
        cases h
        exact .opcode unknown
      · intro h
        cases h with
        | opcode => rfl
        | arity known | operand known => exact absurd known (unknown _)
  | some m =>
      have name := Mnemonic.ofToken?_eq_some_iff.mp found
      have judged : m.emission addressOf s.args = .error e ↔
          m.judge addressOf (m.roles s.args) s.args = .error e := by
        rw [← Mnemonic.emission_verdict, Traversal.map_eq_error_iff]
      simp only [judged, Mnemonic.judge_eq_error_iff names]
      constructor
      · rintro (⟨count, rfl⟩ | ⟨count, before, role, token, after, split, filled, refused, rfl⟩)
        · exact .arity name count
        · exact .operand name count split filled refused
      · intro h
        cases h with
        | opcode unknown => exact absurd name (unknown m)
        | arity known count =>
            obtain rfl := Mnemonic.name_inj.mp (name.symm.trans known)
            exact .inl ⟨count, rfl⟩
        | operand known count split filled refused =>
            obtain rfl := Mnemonic.name_inj.mp (name.symm.trans known)
            exact .inr ⟨count, _, _, _, _, split, filled, refused, rfl⟩

end Statement

namespace Layout
variable {line : Text}

theorem encodable_iff :
    Encodable addressOf line ↔
      (LineKind.IsCode line → ∃ s, Statement.Reads line s ∧ s.WellFormed defined) := by
  simp only [← LineKind.emits_ofLine_iff, ← Statement.ofLine_eq_iff, exists_eq_left',
    ← Statement.exists_emission_iff names]
  cases emits : (LineKind.ofLine line).emits with
  | false => simp [encodable_of_not_emits emits]
  | true => simp [Encodable, encodeLine_of_emits emits, Traversal.map_eq_ok_iff]

theorem encodeLine_eq_error_iff {cause : StatementError} :
    encodeLine addressOf line = .error cause ↔
      LineKind.IsCode line ∧ ∃ s, Statement.Reads line s ∧ s.Violation defined cause := by
  simp only [← LineKind.emits_ofLine_iff, ← Statement.ofLine_eq_iff, exists_eq_left',
    ← Statement.emission_eq_error_iff names]
  cases emits : (LineKind.ofLine line).emits with
  | false => simp [encodeLine_of_not_emits emits]
  | true => simp [encodeLine_of_emits emits, Traversal.map_eq_error_iff]

end Layout
end

namespace Layout

/-- A line anywhere in the source is the label of the name. -/
def Defines (source name : Text) : Prop := ∃ line ∈ sourceLines source, Label.Defines line name

theorem exists_addressOf_iff (source name : Text) :
    (∃ a, (ofSource source).addressOf name = some a) ↔ Defines source name := by
  constructor
  · rintro ⟨a, found⟩
    obtain ⟨before, after, lines, kind, -, -⟩ := addressOf_labelsFrom found
    refine ⟨name ++ [':'], ?_, LineKind.defines_of_label kind⟩
    rw [lines]
    exact List.mem_append_right _ List.mem_cons_self
  · rintro ⟨line, listed, label⟩
    cases found : (ofSource source).addressOf name with
    | some a => exact ⟨a, rfl⟩
    | none =>
        exact absurd (LineKind.ofLine_of_defines label)
          (not_label_of_addressOf_eq_none found line listed)

end Layout

/-- A source is accepted if all its statements are well formed, and otherwise refused for the first
that is not. -/
theorem assemble_accepts_language (source : Text) :
    let lines := Layout.sourceLines source
    let fine (line : Text) := LineKind.IsCode line →
      ∃ s, Statement.Reads line s ∧ s.WellFormed (Layout.Defines source)
    ((∃ target, assemble source = .ok target) ↔ ∀ line ∈ lines, fine line) ∧
      ∀ e, assemble source = .error e ↔
        ∃ before after, lines = before ++ e.text :: after ∧ before.length = e.line ∧
          (∀ line ∈ before, fine line) ∧ LineKind.IsCode e.text ∧
          ∃ s, Statement.Reads e.text s ∧ s.Violation (Layout.Defines source) e.cause := by
  intro lines fine
  have names := Layout.exists_addressOf_iff source
  refine ⟨?_, fun e => ?_⟩
  · rw [exists_assemble_iff]
    simp only [Layout.encodable_iff names]
    rfl
  · rw [assemble_eq_error_iff, Layout.FailsFrom]
    simp only [Layout.encodable_iff names, Layout.encodeLine_eq_error_iff names, Nat.zero_add]
    rfl

end SledeMachine
