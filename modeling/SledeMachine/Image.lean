import SledeMachine.Text

/-!
Binary images: a tag of seven bytes and then the program, which is placed at address 0. An image
is accepted if the whole of it, tag included, would fit into memory.
-/

namespace SledeMachine

/-- The number of bytes of memory, and the most that an image may have. -/
def memorySize : Nat := 4096

inductive LoadError
  | oversized (size : Nat)
  | unsupportedFormat
  deriving DecidableEq, Repr

namespace LoadError

def message : LoadError → Text
  | .oversized size =>
      "program of ".toList ++ Text.decimal size ++ " bytes does not fit in ".toList ++
        Text.decimal memorySize ++ " bytes of memory".toList
  | .unsupportedFormat => "unsupported binary format (missing .SLEDE8 tag)".toList

end LoadError

namespace Image

def tag : List UInt8 := ".SLEDE8".toList.map fun c => UInt8.ofNat c.toNat

/-- What follows the tag, if the bytes begin with it. -/
def program? (bytes : List UInt8) : Option (List UInt8) := tag.isPrefixOf? bytes

/-- The program of an image that is fit for memory. Size is judged before the tag. -/
def program (image : List UInt8) : Except LoadError (List UInt8) :=
  if memorySize < image.length then .error (.oversized image.length)
  else match program? image with
    | some bytes => .ok bytes
    | none => .error .unsupportedFormat

@[simp] theorem length_tag : tag.length = 7 := rfl

end Image
end SledeMachine
