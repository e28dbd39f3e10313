/-!
# Byte strings

Game text, patterns and escaped text are all sequences of bytes. They are lists, so that every
pass over them is a recursion on the data.
-/

namespace FontCodec

abbrev Bytes := List UInt8

def asciiByte (c : Char) : UInt8 := UInt8.ofNat c.toNat

/-- The bytes of a text that holds ASCII characters only. -/
def asciiBytes (text : String) : Bytes := text.toList.map asciiByte

/-- A number that is no byte. -/
structure NotAByte where
  value : Int
  deriving DecidableEq, Repr

def NotAByte.message (_ : NotAByte) : String := "bytes must be in range(0, 256)"

/-- The numbers as bytes; the error names the first that lies outside `0 .. 255`. -/
def bytesOfInts : List Int → Except NotAByte Bytes
  | [] => .ok []
  | n :: rest =>
    if 0 ≤ n ∧ n ≤ 255 then (bytesOfInts rest).map (UInt8.ofNat n.toNat :: ·) else .error ⟨n⟩

/-- The lowest byte of an integer, in two's complement for negative ones. -/
def lowByte (n : Int) : UInt8 := UInt8.ofNat (n % 256).toNat

end FontCodec
