/-!
Machine words. A word has sixteen bits and is stored low byte first. Its low four bits name an
operation class; how the other twelve are divided depends on the class, so a word offers every
division: an operation and two arguments of four bits each, a byte, or an address of twelve bits.
The divisions are stated by quotient and remainder, which is the form that arithmetic decides.
-/

namespace SledeMachine

abbrev Word := UInt16

namespace Word

def low (w : Word) : UInt8 := UInt8.ofNat (w.toNat % 256)

def high (w : Word) : UInt8 := UInt8.ofNat (w.toNat / 256)

def bytes (w : Word) : List UInt8 := [w.low, w.high]

def ofBytes (low high : UInt8) : Word := UInt16.ofNat (low.toNat + 256 * high.toNat)

/-- Four nibbles, lowest first; of each argument only the low four bits count. -/
def ofNibbles (a b c d : Nat) : Word :=
  UInt16.ofNat (a % 16 + 16 * (b % 16) + 256 * (c % 16) + 4096 * (d % 16))

/-- Two nibbles and above them a byte. -/
def ofNibblesByte (a b : Nat) (byte : UInt8) : Word :=
  UInt16.ofNat (a % 16 + 16 * (b % 16) + 256 * byte.toNat)

/-- A nibble and above it an address, of which only the low twelve bits count. -/
def ofNibbleAddress (a address : Nat) : Word :=
  UInt16.ofNat (a % 16 + 16 * (address % 4096))

def classCode (w : Word) : Nat := w.toNat % 16

def operation (w : Word) : Nat := w.toNat / 16 % 16

def address (w : Word) : Nat := w.toNat / 16

def value (w : Word) : UInt8 := w.high

def arg1 (w : Word) : Nat := w.toNat / 256 % 16

def arg2 (w : Word) : Nat := w.toNat / 4096

theorem toNat_lt (w : Word) : w.toNat < 65536 := UInt16.toNat_lt w

@[simp] theorem toNat_low (w : Word) : w.low.toNat = w.toNat % 256 := by
  simp [low]

@[simp] theorem toNat_high (w : Word) : w.high.toNat = w.toNat / 256 := by
  have := w.toNat_lt
  simp only [high, UInt8.toNat_ofNat']
  omega

@[simp] theorem toNat_ofBytes (low high : UInt8) :
    (ofBytes low high).toNat = low.toNat + 256 * high.toNat := by
  have := low.toNat_lt
  have := high.toNat_lt
  simp only [ofBytes, UInt16.toNat_ofNat']
  omega

@[simp] theorem toNat_ofNibbles (a b c d : Nat) :
    (ofNibbles a b c d).toNat =
      a % 16 + 16 * (b % 16) + 256 * (c % 16) + 4096 * (d % 16) := by
  simp only [ofNibbles, UInt16.toNat_ofNat']
  omega

@[simp] theorem toNat_ofNibblesByte (a b : Nat) (byte : UInt8) :
    (ofNibblesByte a b byte).toNat = a % 16 + 16 * (b % 16) + 256 * byte.toNat := by
  have := byte.toNat_lt
  simp only [ofNibblesByte, UInt16.toNat_ofNat']
  omega

@[simp] theorem toNat_ofNibbleAddress (a address : Nat) :
    (ofNibbleAddress a address).toNat = a % 16 + 16 * (address % 4096) := by
  simp only [ofNibbleAddress, UInt16.toNat_ofNat']
  omega

@[simp] theorem ofBytes_low_high (w : Word) : ofBytes w.low w.high = w := by
  apply UInt16.toNat_inj.mp
  simp only [toNat_ofBytes, toNat_low, toNat_high]
  omega

@[simp] theorem low_ofBytes (low high : UInt8) : (ofBytes low high).low = low := by
  apply UInt8.toNat_inj.mp
  have := low.toNat_lt
  simp only [toNat_low, toNat_ofBytes]
  omega

@[simp] theorem high_ofBytes (low high : UInt8) : (ofBytes low high).high = high := by
  apply UInt8.toNat_inj.mp
  have := low.toNat_lt
  simp only [toNat_high, toNat_ofBytes]
  omega

end Word
end SledeMachine
