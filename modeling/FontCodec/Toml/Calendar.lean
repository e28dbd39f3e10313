import FontCodec.Document.Value
import FontCodec.Toml.Lexeme

/-!
# Dates and times of TOML

A date, a time of day, or both with an offset or without. Seconds have to be given; of their
fraction, six digits count.
-/

namespace FontCodec.Toml

def fixedDigits : Nat → Nat → Reader Nat
  | 0, n, cs => some (n, cs)
  | _ + 1, _, [] => none
  | width + 1, n, c :: rest =>
    if isDigit c then fixedDigits width (10 * n + (c.toNat - 48)) rest else none

def twoDigits (low high : Nat) (cs : List Char) : Option (Nat × List Char) := do
  let (n, rest) ← fixedDigits 2 0 cs
  if low ≤ n ∧ n ≤ high then some (n, rest) else none

def expect (c : Char) : List Char → Option (List Char)
  | d :: rest => if d = c then some rest else none
  | [] => none

/-- Microseconds from the digits behind the point. -/
def microseconds (ds : List Char) : Nat :=
  (ds ++ List.replicate 6 '0').take 6 |>.foldl (fun n c => 10 * n + (c.toNat - 48)) 0

/-- The fraction of a second, if a point with digits stands here. -/
def secondFraction : List Char → Nat × List Char
  | '.' :: c :: rest =>
    if isDigit c then
      (microseconds ((c :: rest).takeWhile isDigit), (c :: rest).dropWhile isDigit)
    else (0, '.' :: c :: rest)
  | cs => (0, cs)

def timeOfDay (cs : List Char) : Option (TimeOfDay × List Char) := do
  let (hour, cs) ← twoDigits 0 23 cs
  let cs ← expect ':' cs
  let (minute, cs) ← twoDigits 0 59 cs
  let cs ← expect ':' cs
  let (second, cs) ← twoDigits 0 59 cs
  let (microsecond, cs) := secondFraction cs
  return (⟨hour, minute, second, microsecond⟩, cs)

def offset (cs : List Char) : Option (Int × List Char) :=
  match cs with
  | c :: rest =>
    if c = 'Z' ∨ c = 'z' then some (0, rest)
    else if c = '+' ∨ c = '-' then do
      let (hours, rest) ← twoDigits 0 23 rest
      let rest ← expect ':' rest
      let (minutes, rest) ← twoDigits 0 59 rest
      let total : Int := 60 * hours + minutes
      return (if c = '-' then -total else total, rest)
    else none
  | [] => none

/-- A date, whose day need not exist in that month. -/
def date (cs : List Char) : Option (Date × List Char) := do
  let (year, cs) ← fixedDigits 4 0 cs
  let cs ← expect '-' cs
  let (month, cs) ← twoDigits 1 12 cs
  let cs ← expect '-' cs
  let (day, cs) ← twoDigits 1 31 cs
  return (⟨year, month, day⟩, cs)

def isLeap (year : Nat) : Bool := year % 4 = 0 && (year % 100 ≠ 0 || year % 400 = 0)

def daysIn (year month : Nat) : Nat :=
  if month = 2 then if isLeap year then 29 else 28
  else if month = 4 ∨ month = 6 ∨ month = 9 ∨ month = 11 then 30
  else 31

/-- Whether the calendar has the date. It begins with the year one. -/
def isOnCalendar (d : Date) : Bool := 1 ≤ d.year && d.day ≤ daysIn d.year d.month

/-- The time behind a date, with its offset. -/
def timeBehindDate : List Char → Option ((TimeOfDay × Option Int) × List Char)
  | c :: rest =>
    if c = 'T' ∨ c = 't' ∨ c = ' ' then do
      let (time, rest) ← timeOfDay rest
      match offset rest with
      | some (minutes, rest) => return ((time, some minutes), rest)
      | none => return ((time, none), rest)
    else none
  | [] => none

/-- A date with a time or without. -/
def dateValue (d : Date) (cs : List Char) : Value × List Char :=
  match timeBehindDate cs with
  | some ((time, minutes), rest) => (.dateTime ⟨d, time, minutes⟩, rest)
  | none => (.date d, cs)

end FontCodec.Toml
