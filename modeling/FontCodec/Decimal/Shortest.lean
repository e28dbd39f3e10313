/-!
# The shortest decimal of a binary fraction

A positive number `m * 2 ^ q` stands for every real that rounds to it. `shortest` picks, on the
coarsest grid of powers of ten that has a point among these reals, the point nearest to the number
itself. All arithmetic is exact.
-/

namespace FontCodec.Decimal

/-- A decimal: `digits * 10 ^ exponent`. -/
structure Scaled where
  digits : Nat
  exponent : Int
  deriving DecidableEq, Repr

/-- The reals that round to a number, as numerators over one denominator: the number itself, the
two ends of the interval, and whether the ends belong to it. -/
structure Interval where
  low : Nat
  middle : Nat
  high : Nat
  denominator : Nat
  closed : Bool
  deriving Repr

/-- The reals that round to `m * 2 ^ q`. Below a power of two the spacing halves, which
`narrowBelow` tells. The ends round to an even `m`. -/
def Interval.around (m : Nat) (q : Int) (narrowBelow : Bool) : Interval :=
  let unit := Nat.pow 2 (q - 2).toNat
  { low := (4 * m - if narrowBelow then 1 else 2) * unit
    middle := 4 * m * unit
    high := (4 * m + 2) * unit
    denominator := Nat.pow 2 (2 - q).toNat
    closed := m % 2 = 0 }

/-- The interval on the grid of multiples of `10 ^ k`: grid points become integers. -/
def Interval.onGrid (i : Interval) (k : Int) : Interval :=
  let up := Nat.pow 10 (-k).toNat
  { i with
    low := i.low * up
    middle := i.middle * up
    high := i.high * up
    denominator := i.denominator * Nat.pow 10 k.toNat }

def Interval.contains (i : Interval) (n : Nat) : Bool :=
  if i.closed then i.low ≤ n * i.denominator && n * i.denominator ≤ i.high
  else i.low < n * i.denominator && n * i.denominator < i.high

/-- The integer in the interval that is nearest to its middle, if one is among the two neighbours
of the middle. An exact tie goes to the even one. -/
def Interval.nearest? (i : Interval) : Option Nat :=
  let below := i.middle / i.denominator
  let above := below + 1
  match i.contains below, i.contains above with
  | false, false => none
  | true, false => some below
  | false, true => some above
  | true, true =>
    let rest := 2 * (i.middle % i.denominator)
    if rest < i.denominator then some below
    else if i.denominator < rest then some above
    else some (if below % 2 = 0 then below else above)

/-- Tries the grids `10 ^ k`, `10 ^ (k - 1)`, … until one has a point in the interval. -/
def search (i : Interval) : Nat → Int → Scaled
  | 0, k => ⟨(i.onGrid k).middle / (i.onGrid k).denominator, k⟩
  | steps + 1, k =>
    match (i.onGrid k).nearest? with
    | some n => ⟨n, k⟩
    | none => search i steps (k - 1)

/-- The shortest decimal that rounds to `m * 2 ^ q`, for a positive `m` of at most 53 binary
digits. The first grid is coarser than the number, and seventeen digits always suffice. -/
def shortest (m : Nat) (q : Int) (narrowBelow : Bool) : Scaled :=
  let start := (q + m.log2 + 1) * 30103 / 100000 + 1
  search (.around m q narrowBelow) 24 start

end FontCodec.Decimal
