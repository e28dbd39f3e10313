/-!
# Values of a configuration document

A bank file is a tree of tables, arrays and scalars. A table keeps its keys in the order in which
they were written. `null` never occurs in a file, but mappings built elsewhere may hold it.
-/

namespace FontCodec

structure Date where
  year : Nat
  month : Nat
  day : Nat
  deriving DecidableEq, Repr

structure TimeOfDay where
  hour : Nat
  minute : Nat
  second : Nat
  microsecond : Nat
  deriving DecidableEq, Repr

/-- A date with a time of day. The offset from universal time is in minutes; local times have
none. -/
structure DateTime where
  date : Date
  time : TimeOfDay
  offset : Option Int
  deriving DecidableEq, Repr

inductive Value where
  | null
  | bool (value : Bool)
  | int (value : Int)
  | float (value : Float)
  | string (value : String)
  | date (value : Date)
  | time (value : TimeOfDay)
  | dateTime (value : DateTime)
  | array (items : List Value)
  | table (entries : List (String × Value))

abbrev Table := List (String × Value)

namespace Table

def get? (table : Table) (key : String) : Option Value := table.lookup key

/-- The value of a key, with `null` for a key that is not there. -/
def getOrNull (table : Table) (key : String) : Value := (table.get? key).getD .null

def set (table : Table) (key : String) (value : Value) : Table :=
  match table with
  | [] => [(key, value)]
  | (k, v) :: rest => if k = key then (k, value) :: rest else (k, v) :: set rest key value

end Table

end FontCodec
