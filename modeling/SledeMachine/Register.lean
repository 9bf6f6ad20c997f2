import SledeMachine.CodeError

/-!
The sixteen general registers of eight bits and the file that holds them. Registers 0 and 1 also
form a pair that holds an address: the low byte in register 0, the high four bits in register 1.
-/

namespace SledeMachine

abbrev Register := Fin 16

namespace Register

/-- The register named by the low four bits of a number. -/
def ofNibble (n : Nat) : Register := Fin.ofNat 16 n

def ofIndex (n : Nat) : Except CodeError Register :=
  if h : n < 16 then .ok ⟨n, h⟩ else .error (.register n)

def text (r : Register) : Text := 'r' :: Text.decimal r.val

end Register

structure Registers where
  values : Vector UInt8 16
  deriving DecidableEq, Repr

namespace Registers

def zero : Registers := ⟨Vector.replicate 16 0⟩

def get (rs : Registers) (r : Register) : UInt8 := rs.values[r]

def set (rs : Registers) (r : Register) (value : UInt8) : Registers :=
  ⟨rs.values.set r value⟩

/-- The address of twelve bits that the pair of registers 0 and 1 holds. The high four bits of
register 1 take no part. -/
def address (rs : Registers) : Nat :=
  (256 * (rs.get 1).toNat + (rs.get 0).toNat) % 4096

def setAddress (rs : Registers) (address : Nat) : Registers :=
  (rs.set 1 (UInt8.ofNat (address / 256 % 16))).set 0 (UInt8.ofNat (address % 256))

@[ext] theorem ext {rs ss : Registers} (h : ∀ r, rs.get r = ss.get r) : rs = ss := by
  cases rs
  cases ss
  congr 1
  exact Vector.ext fun i hi => h ⟨i, hi⟩

theorem get_set (rs : Registers) (r s : Register) (value : UInt8) :
    (rs.set r value).get s = if s = r then value else rs.get s := by
  simp only [get, set, Fin.getElem_fin, Vector.getElem_set, Fin.ext_iff, eq_comm]

theorem address_lt (rs : Registers) : rs.address < 4096 :=
  Nat.mod_lt _ (by decide)

@[simp] theorem address_setAddress (rs : Registers) (a : Nat) :
    (rs.setAddress a).address = a % 4096 := by
  simp only [setAddress, address, get_set, UInt8.toNat_ofNat', ite_true,
    show (1 : Register) ≠ 0 by decide, ite_false]
  omega

end Registers
end SledeMachine
