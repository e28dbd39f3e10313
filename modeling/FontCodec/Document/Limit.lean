import FontCodec.Document.Value

/-!
# Limits on values

A whole number is read from a bounded number of decimal digits and written with as many at most, and
a value is written only if its containers do not nest too deeply.
-/

namespace FontCodec

/-- The number of decimal digits that a whole number may have. -/
def maxDigits : Nat := 4300

/-- The number of containers that may stand inside each other in a message. -/
def maxShownDepth : Nat := 980

inductive Limit where
  /-- A number of so many digits is to be read. -/
  | digitsRead (count : Nat)
  /-- A number of too many digits is to be written. -/
  | digitsWritten
  /-- Containers stand inside each other too deeply. -/
  | nesting
  deriving DecidableEq, Repr

def Limit.message : Limit → String
  | digitsRead count =>
    "Exceeds the limit (" ++ toString maxDigits ++
      " digits) for integer string conversion: value has " ++ toString count ++
      " digits; use sys.set_int_max_str_digits() to increase the limit"
  | digitsWritten =>
    "Exceeds the limit (" ++ toString maxDigits ++
      " digits) for integer string conversion; use sys.set_int_max_str_digits() to increase the limit"
  | nesting => "containers nest too deeply"

/-- The number that decimal digits spell. -/
def decimalValue (ds : List Char) : Nat := ds.foldl (fun n c => 10 * n + (c.toNat - 48)) 0

def readDecimal (ds : List Char) : Except Limit Nat :=
  if maxDigits < ds.length then .error (.digitsRead ds.length) else .ok (decimalValue ds)

theorem readDecimal_eq_ok_iff {ds : List Char} {n : Nat} :
    readDecimal ds = .ok n ↔ ds.length ≤ maxDigits ∧ decimalValue ds = n := by
  unfold readDecimal
  split
  · simp
    omega
  · simp
    omega

/-- Whether a number has few enough digits to be written. -/
def isWritable (n : Int) : Bool := n.natAbs < Nat.pow 10 maxDigits

namespace Value

mutual

/-- The first limit that keeps a value from being written, if so many containers may still be
opened. -/
def limit? : Nat → Value → Option Limit
  | _, int n => if isWritable n then none else some .digitsWritten
  | 0, array _ => some .nesting
  | 0, table _ => some .nesting
  | depth + 1, array items => limits? depth items
  | depth + 1, table entries => entryLimits? depth entries
  | _, _ => none

def limits? (depth : Nat) : List Value → Option Limit
  | [] => none
  | v :: rest =>
    match limit? depth v with
    | some l => some l
    | none => limits? depth rest

def entryLimits? (depth : Nat) : List (String × Value) → Option Limit
  | [] => none
  | (_, v) :: rest =>
    match limit? depth v with
    | some l => some l
    | none => entryLimits? depth rest

end

end Value

end FontCodec
