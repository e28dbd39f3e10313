import FontCodec.Bytes.Hex
import FontCodec.Decimal.Layout
import FontCodec.Document.Value
import FontCodec.Toml.Lexeme

/-!
# Numbers of TOML

Whole numbers to the bases ten, sixteen, eight and two, and decimal fractions. An underscore may
stand between two digits.
-/

namespace FontCodec.Toml

/-- Further digits of a number, each with an underscore in front of it or not. -/
def moreDigits (digit : Char → Bool) : List Char → List Char × List Char
  | [] => ([], [])
  | c :: rest =>
    if digit c then
      let (ds, rest) := moreDigits digit rest
      (c :: ds, rest)
    else
      match rest with
      | d :: tail =>
        if c = '_' ∧ digit d then
          let (ds, rest) := moreDigits digit tail
          (d :: ds, rest)
        else ([], c :: rest)
      | [] => ([], [c])

def digits (digit : Char → Bool) : Reader (List Char)
  | [] => none
  | c :: rest =>
    if digit c then
      let (ds, rest) := moreDigits digit rest
      some (c :: ds, rest)
    else none

def valueOf (base : Nat) (ds : List Char) : Nat :=
  ds.foldl (fun n c => base * n + (Hex.value? c).getD 0) 0

def markedInteger : Reader Value
  | '0' :: 'x' :: rest => (digits (fun c => (Hex.value? c).isSome) rest).map (fun (ds, rest) =>
      (.int (valueOf 16 ds), rest))
  | '0' :: 'o' :: rest => (digits (fun c => '0' ≤ c && c ≤ '7') rest).map (fun (ds, rest) =>
      (.int (valueOf 8 ds), rest))
  | '0' :: 'b' :: rest => (digits (fun c => c = '0' || c = '1') rest).map (fun (ds, rest) =>
      (.int (valueOf 2 ds), rest))
  | _ => none

def sign : List Char → Bool × List Char
  | '-' :: rest => (true, rest)
  | '+' :: rest => (false, rest)
  | cs => (false, cs)

/-- The digits in front of the point: a single zero, or no zero in front. -/
def wholePart : Reader (List Char)
  | '0' :: rest => some (['0'], rest)
  | cs => digits isDigit cs

/-- The digits behind the point, if there is a point with digits behind it. -/
def fractionPart (cs : List Char) : Option (List Char × List Char) :=
  match cs with
  | '.' :: rest => digits isDigit rest
  | _ => none

/-- The exponent, if there is one with digits. -/
def exponentPart (cs : List Char) : Option (Int × List Char) :=
  match cs with
  | e :: rest =>
    if e = 'e' ∨ e = 'E' then
      let (negative, rest) := sign rest
      (digits isDigit rest).map (fun (ds, rest) =>
        (if negative then -(decimalValue ds : Int) else decimalValue ds, rest))
    else none
  | [] => none

/-- A decimal number as it is spelled. -/
structure Numeral where
  negative : Bool
  whole : List Char
  places : Option (List Char)
  power : Option Int

def numeral (cs : List Char) : Option (Numeral × List Char) := do
  let (negative, cs) := sign cs
  let (whole, cs) ← wholePart cs
  let (places, cs) := match fractionPart cs with
    | some (ds, cs) => (some ds, cs)
    | none => (none, cs)
  let (power, cs) := match exponentPart cs with
    | some (n, cs) => (some n, cs)
    | none => (none, cs)
  return (⟨negative, whole, places, power⟩, cs)

/-- The value of a decimal number. It is a fraction if it has digits behind a point or an exponent;
only whole numbers are limited. -/
def Numeral.value (n : Numeral) : Except Limit Value :=
  match n.places, n.power with
  | none, none => do
    let size ← readDecimal n.whole
    return .int (if n.negative then -(size : Int) else size)
  | places, power =>
    let digits := places.getD []
    .ok (.float (Decimal.toFloat n.negative (decimalValue (n.whole ++ digits))
      (power.getD 0 - digits.length)))

/-- Infinity and the absence of a number, with a sign or without. -/
def specialFloat (cs : List Char) : Option (Value × List Char) :=
  let (negative, rest) := sign cs
  match rest with
  | 'i' :: 'n' :: 'f' :: rest => some (.float (if negative then -1.0 / 0.0 else 1.0 / 0.0), rest)
  | 'n' :: 'a' :: 'n' :: rest => some (.float (0.0 / 0.0), rest)
  | _ => none

end FontCodec.Toml
