import FontCodec.Jamo.Span

/-!
# Packed sequences

The first four components of a span are packed into one number, sixteen bits for each. A key of
sixteen bits names a glyph and its page; no key is zero, so a zero group ends the sequence.
-/

namespace FontCodec.Jamo

/-- The number of components that a packed sequence keeps. -/
def positions : Nat := 4

/-- The key of a glyph of the alternate or the normal page. -/
def key (alternate : Bool) (glyph : UInt8) : Nat :=
  (if alternate then 0x100 else 0x300) ||| glyph.toNat

/-- A key moved to its position. -/
def place (key position : Nat) : Nat := key <<< (16 * position)

namespace Component

def key : Component → Nat
  | normal g => Jamo.key false g
  | alternate g => Jamo.key true g

end Component

/-- The packed sequence of a list of components. -/
def pack (items : List Component) : Nat :=
  ((items.take positions).zipIdx.map (fun c => place c.1.key c.2)).foldl (· ||| ·) 0

/-- The keys of a number, lowest group first, up to the first group that is zero. -/
def unpackFrom : Nat → Int → List Int
  | 0, _ => []
  | n + 1, sequence =>
    let group := sequence % 65536
    if group = 0 then [] else group :: unpackFrom n (sequence / 65536)

def unpack (sequence : Int) : List Int := unpackFrom positions sequence

/-- Why a key cannot be moved to a position. -/
inductive PlaceError where
  /-- The position is in front of the first one. -/
  | negative
  /-- The moved key would not fit into memory. -/
  | beyondMemory
  /-- The moved key has more digits than can be counted. -/
  | beyondCount
  deriving DecidableEq, Repr

def PlaceError.message : PlaceError → String
  | negative => "negative shift count"
  | beyondMemory => "the number does not fit into memory"
  | beyondCount => "too many digits in integer"

/-- The number of bits by which a key may be moved. -/
def maxShift : Nat := 0x100000000

/-- The number of bits that can be counted, in digits of thirty bits each. -/
def maxCountedShift : Nat := 2305843009213693944 * 30

/-- The key of any number's lowest byte, moved to any position that can be held. -/
def packAt (position glyph : Int) (alternate : Bool) : Except PlaceError Nat :=
  if position < 0 then .error .negative
  else if (maxCountedShift : Int) < 16 * position then .error .beyondCount
  else if (maxShift : Int) < 16 * position then .error .beyondMemory
  else .ok (place (key alternate (lowByte glyph)) position.toNat)

end FontCodec.Jamo
