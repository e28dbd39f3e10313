import FontCodec.Decimal.Shortest

/-!
# Decimal text of binary fractions

How a fraction is laid out in a message, and the reading of decimal digits as a fraction.
-/

namespace FontCodec.Decimal

/-- The choices behind the text of a number. -/
structure Layout where
  /-- Leading exponents from here on are written positionally. -/
  positionalFrom : Int
  /-- Leading exponents below this one are written positionally. -/
  positionalBelow : Int
  /-- The least number of digits of a written exponent. -/
  exponentDigits : Nat
  notANumber : String
  infinity : String

/-- Messages write numbers from `0.0001` up to sixteen digits positionally, always with a point,
and other numbers with a signed exponent of at least two digits. -/
def messageLayout : Layout where
  positionalFrom := -4
  positionalBelow := 16
  exponentDigits := 2
  notANumber := "nan"
  infinity := "inf"

/-- Decimal digits of a number, filled with zeros up to a width. -/
def padded (width n : Nat) : List Char :=
  let digits := Nat.toDigits 10 n
  List.replicate (width - digits.length) '0' ++ digits

/-- Digits with the point behind the digit of weight `10 ^ 0`; `leading` is the weight of the first
digit. -/
def positional (digits : List Char) (leading : Int) : List Char :=
  if leading < 0 then
    '0' :: '.' :: (List.replicate (-leading - 1).toNat '0' ++ digits)
  else
    let size := leading.toNat + 1
    let whole := digits.take size ++ List.replicate (size - digits.length) '0'
    let fraction := digits.drop size
    whole ++ '.' :: (if fraction.isEmpty then ['0'] else fraction)

/-- Digits with the point behind the first of them, and the weight of that one as exponent. -/
def scientific (layout : Layout) (digits : List Char) (leading : Int) : List Char :=
  let fraction := digits.drop 1
  digits.take 1 ++ (if fraction.isEmpty then [] else '.' :: fraction) ++
    'e' :: (if leading < 0 then '-' else '+') :: padded layout.exponentDigits leading.natAbs

def render (layout : Layout) (d : Scaled) : List Char :=
  let digits := Nat.toDigits 10 d.digits
  let leading := d.exponent + digits.length - 1
  if layout.positionalFrom ≤ leading ∧ leading < layout.positionalBelow then
    positional digits leading
  else scientific layout digits leading

/-- The leading binary digit of a number, which is not stored. -/
def hiddenBit : Nat := 0x10000000000000

/-- The text of a fraction from its sign, its biased exponent and its stored digits. -/
def renderParts (layout : Layout) (negative : Bool) (biased stored : Nat) : String :=
  let sign := if negative then "-" else ""
  if biased = 2047 then
    if stored = 0 then sign ++ layout.infinity else layout.notANumber
  else if biased = 0 ∧ stored = 0 then sign ++ "0.0"
  else
    let d :=
      if biased = 0 then shortest stored (-1074) false
      else shortest (hiddenBit + stored) (biased - 1075) (stored = 0 ∧ 1 < biased)
    sign ++ String.ofList (render layout d)

def ofFloat (layout : Layout) (x : Float) : String :=
  let bits := x.toBits.toNat
  renderParts layout (bits >>> 63 = 1) (bits >>> 52 &&& 0x7ff) (bits &&& 0xfffffffffffff)

/-- The double-precision number nearest to `digits * 10 ^ exponent`. Exponents far outside the range
of such numbers are settled by the number of digits alone. -/
def toFloat (negative : Bool) (digits : Nat) (exponent : Int) : Float :=
  let size : Int := (Nat.toDigits 10 digits).length
  let magnitude : Float :=
    if digits = 0 then 0.0
    else if size + exponent > 400 then 1.0 / 0.0
    else if size + exponent < -400 then 0.0
    else Float.ofScientific digits (exponent < 0) exponent.natAbs
  if negative then -magnitude else magnitude

end FontCodec.Decimal
