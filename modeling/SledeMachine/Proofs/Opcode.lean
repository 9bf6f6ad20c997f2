import Mathlib.Data.List.Basic
import SledeMachine.Mnemonic

/-!
Opcodes and their names. Names are tried in an order in which none begins with an earlier one, so
the first that a text begins with is the longest; this holds of any names in such an order, and of
each family of opcodes it is checked once that its names are. A whole token is therefore an opcode
exactly if it is the name of one, and no two opcodes share a name.
-/

namespace SledeMachine

namespace Token

/-- The longest of the names that a text begins with, and what follows it. -/
structure Longest {α : Type} (name : α → Text) (t : Text) (a : α) (rest : Text) : Prop where
  parts : t = name a ++ rest
  longest : ∀ b, name b <+: t → (name b).length ≤ (name a).length

/-- A reader that takes the longest name off any text, and fails exactly where there is none. -/
def TakesLongest {α : Type} (token : Token α) (name : α → Text) : Prop :=
  ∀ t, (∀ a rest, token t = some (a, rest) ↔ Longest name t a rest) ∧
    (token t = none ↔ ∀ a, ¬ name a <+: t)

/-- None of the names begins with an earlier one. -/
def Ordered {α : Type} (name : α → Text) (candidates : List α) : Prop :=
  candidates.Pairwise fun a b => ¬ name a <+: name b

instance {α : Type} (name : α → Text) (candidates : List α) :
    Decidable (Ordered name candidates) :=
  inferInstanceAs (Decidable (List.Pairwise _ _))

section
variable {α : Type} {name : α → Text} {candidates : List α} {t rest : Text} {a c : α}

theorem ofNames_cons_append (name : α → Text) (candidates : List α) (c : α) (rest : Text) :
    ofNames (c :: candidates) name (name c ++ rest) = some (c, rest) := by
  have taken : (name c).isPrefixOf? (name c ++ rest) = some rest :=
    List.isPrefixOf?_eq_some_iff_append_eq.mpr rfl
  rw [ofNames, List.findSome?_cons, taken, Option.map_some]

theorem ofNames_cons_of_other (other : ¬ name c <+: t) :
    ofNames (c :: candidates) name t = ofNames candidates name t := by
  have passed : (name c).isPrefixOf? t = none := by
    refine Option.eq_none_iff_forall_ne_some.mpr fun rest taken => other ?_
    exact ⟨rest, List.isPrefixOf?_eq_some_iff_append_eq.mp taken⟩
  rw [ofNames, List.findSome?_cons, passed, Option.map_none, ofNames]

theorem ofNames_eq_none_iff :
    ofNames candidates name t = none ↔ ∀ a ∈ candidates, ¬ name a <+: t := by
  induction candidates with
  | nil => simp [ofNames]
  | cons c candidates ih =>
      by_cases first : name c <+: t
      · obtain ⟨rest, rfl⟩ := first
        simp [ofNames_cons_append]
      · rw [ofNames_cons_of_other first, ih, List.forall_mem_cons]
        exact (and_iff_right first).symm

theorem ofNames_eq_some_iff (ordered : Ordered name candidates) :
    ofNames candidates name t = some (a, rest) ↔
      a ∈ candidates ∧ t = name a ++ rest ∧
        ∀ b ∈ candidates, name b <+: t → (name b).length ≤ (name a).length := by
  induction candidates with
  | nil => simp [ofNames]
  | cons c candidates ih =>
      obtain ⟨apart, ordered⟩ := List.pairwise_cons.mp ordered
      by_cases first : name c <+: t
      · -- Both names begin the text, so a later one as long as this would begin with it.
        have shorter : ∀ b ∈ candidates, name b <+: t → (name b).length < (name c).length := by
          intro b hb begins
          refine Nat.lt_of_not_le fun le => apart b hb ?_
          exact List.prefix_of_prefix_length_le first begins le
        obtain ⟨tail, rfl⟩ := first
        rw [ofNames_cons_append, Option.some.injEq, Prod.mk.injEq]
        constructor
        · rintro ⟨rfl, rfl⟩
          refine ⟨List.mem_cons_self, rfl, List.forall_mem_cons.mpr ⟨fun _ => Nat.le_refl _, ?_⟩⟩
          exact fun b hb begins => Nat.le_of_lt (shorter b hb begins)
        · rintro ⟨member, parts, longest⟩
          obtain rfl | later := List.mem_cons.mp member
          · exact ⟨rfl, List.append_cancel_left parts⟩
          · have short := shorter a later ⟨rest, parts.symm⟩
            have long := longest c List.mem_cons_self (List.prefix_append _ _)
            omega
      · rw [ofNames_cons_of_other first, ih ordered, List.forall_mem_cons, List.mem_cons]
        constructor
        · rintro ⟨member, parts, longest⟩
          exact ⟨.inr member, parts, fun begins => absurd begins first, longest⟩
        · rintro ⟨rfl | member, parts, -, longest⟩
          · exact absurd ⟨rest, parts.symm⟩ first
          · exact ⟨member, parts, longest⟩

theorem takesLongest_ofNames (complete : ∀ a, a ∈ candidates)
    (ordered : Ordered name candidates) : TakesLongest (ofNames candidates name) name := by
  intro t
  constructor
  · intro a rest
    rw [ofNames_eq_some_iff ordered]
    constructor
    · rintro ⟨-, parts, longest⟩
      exact ⟨parts, fun b => longest b (complete b)⟩
    · rintro ⟨parts, longest⟩
      exact ⟨complete a, parts, fun b _ => longest b⟩
  · rw [ofNames_eq_none_iff]
    exact ⟨fun none a => none a (complete a), fun none a _ => none a⟩

theorem TakesLongest.whole_eq_some_iff {token : Token α} (h : token.TakesLongest name) :
    token.whole t = some a ↔ t = name a := by
  rw [Token.whole_eq_some_iff, (h t).1]
  constructor
  · rintro ⟨parts, -⟩
    rwa [List.append_nil] at parts
  · rintro rfl
    exact ⟨(List.append_nil _).symm, fun b begins => begins.length_le⟩

theorem ofNames_append (front back : List α) :
    ofNames (front ++ back) name t = (ofNames front name t).or (ofNames back name t) :=
  List.findSome?_append

theorem ofNames_map {β : Type} (f : β → α) (candidates : List β) :
    ofNames (candidates.map f) name t =
      (ofNames candidates (fun b => name (f b)) t).map fun (b, rest) => (f b, rest) := by
  rw [ofNames, ofNames, List.findSome?_map, List.map_findSome?]
  congr 1
  funext b
  simp only [Function.comp_apply, Option.map_map]
  rfl

end
end Token

theorem AluOp.takesLongest : AluOp.token.TakesLongest AluOp.name := by
  have complete (op : AluOp) : op ∈ AluOp.all := by cases op <;> decide
  exact Token.takesLongest_ofNames complete (by decide)

namespace CompareOp

/-- The comparisons in the order in which their names are tried. -/
def candidates : List CompareOp := [.eq, .ne, .le, .lt, .ge, .gt]

theorem takesLongest : CompareOp.token.TakesLongest CompareOp.name := by
  have complete (op : CompareOp) : op ∈ candidates := by cases op <;> decide
  exact Token.takesLongest_ofNames complete (by decide)

end CompareOp

namespace Mnemonic

/-- All opcodes in the order in which their names are tried. -/
def candidates : List Mnemonic :=
  simple ++ (AluOp.all.map .alu ++ CompareOp.candidates.map .compare)

theorem mem_candidates (m : Mnemonic) : m ∈ candidates := by
  cases m with
  | alu op => cases op <;> decide
  | compare op => cases op <;> decide
  | _ => decide

theorem token_eq_ofNames : token = Token.ofNames candidates name := by
  funext t
  rw [candidates, Token.ofNames_append, Token.ofNames_append, Token.ofNames_map,
    Token.ofNames_map]
  rfl

theorem takesLongest : Mnemonic.token.TakesLongest Mnemonic.name := by
  rw [token_eq_ofNames]
  exact Token.takesLongest_ofNames mem_candidates (by decide)

theorem ofToken?_eq_some_iff {t : Text} {m : Mnemonic} : ofToken? t = some m ↔ t = m.name :=
  takesLongest.whole_eq_some_iff

theorem ofToken?_eq_none_iff {t : Text} : ofToken? t = none ↔ ∀ m : Mnemonic, t ≠ m.name := by
  simp only [Option.eq_none_iff_forall_ne_some, ne_eq, ofToken?_eq_some_iff]

theorem ofToken?_name (m : Mnemonic) : ofToken? m.name = some m :=
  ofToken?_eq_some_iff.mpr rfl

theorem name_inj {m n : Mnemonic} : m.name = n.name ↔ m = n := by
  constructor
  · intro h
    have := ofToken?_name m
    rw [h, ofToken?_name n] at this
    exact (Option.some.inj this).symm
  · rintro rfl
    rfl

theorem name_eq_dataDirective_iff {m : Mnemonic} : m.name = dataDirective ↔ m = .data :=
  name_inj (n := .data)

/-- Opcodes, arithmetic operations and comparisons are each read by the longest of their names that
a text begins with, and the reading fails only where it begins with none of them; so a whole token
is an opcode if and only if it is the name of one. -/
theorem longest_name_taken :
    Mnemonic.token.TakesLongest Mnemonic.name ∧ AluOp.token.TakesLongest AluOp.name ∧
      CompareOp.token.TakesLongest CompareOp.name ∧
      ∀ t m, ofToken? t = some m ↔ t = m.name := by
  refine ⟨takesLongest, AluOp.takesLongest, CompareOp.takesLongest, fun t m => ?_⟩
  exact takesLongest.whole_eq_some_iff

example : token "SELV".toList = some (.compare .ge, "V".toList) := by decide

end Mnemonic
end SledeMachine
