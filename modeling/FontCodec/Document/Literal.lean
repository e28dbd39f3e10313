import FontCodec.Decimal.Layout
import FontCodec.Document.Value
import FontCodec.Text.Quoted

/-!
# Values in messages

A message that rejects a value shows it as a literal (`Value.literal`) or names its kind
(`Value.kind`). `Value.shown` is the literal without the quotes around a text.
-/

namespace FontCodec

def Date.parts (d : Date) : List Int := [d.year, d.month, d.day]

/-- The parts of a time, without microseconds and then seconds that are zero. -/
def TimeOfDay.parts (t : TimeOfDay) : List Int :=
  [(t.hour : Int), (t.minute : Int)] ++
    (if t.microsecond ≠ 0 then [(t.second : Int), (t.microsecond : Int)]
     else if t.second ≠ 0 then [(t.second : Int)]
     else [])

def commaList (texts : List String) : String := ", ".intercalate texts

def callText (name : String) (arguments : List String) : String :=
  name ++ "(" ++ commaList arguments ++ ")"

/-- An offset in minutes as whole days and the seconds left over, each only if it is not zero. -/
def offsetText (minutes : Int) : String :=
  if minutes = 0 then "datetime.timezone.utc"
  else
    let days := minutes / 1440
    let seconds := minutes % 1440 * 60
    let parts := (if days = 0 then [] else ["days=" ++ toString days]) ++
      (if seconds = 0 then [] else ["seconds=" ++ toString seconds])
    callText "datetime.timezone" [callText "datetime.timedelta" parts]

def Date.literal (d : Date) : String := callText "datetime.date" (d.parts.map toString)

def TimeOfDay.literal (t : TimeOfDay) : String :=
  callText "datetime.time" (t.parts.map toString)

def DateTime.literal (d : DateTime) : String :=
  callText "datetime.datetime"
    ((d.date.parts ++ d.time.parts).map toString ++
      match d.offset with
      | none => []
      | some minutes => ["tzinfo=" ++ offsetText minutes])

namespace Value

mutual

/-- The value as a literal. -/
def literal : Value → String
  | null => "None"
  | bool true => "True"
  | bool false => "False"
  | int n => toString n
  | float x => Decimal.ofFloat Decimal.messageLayout x
  | string s => quoted s
  | date d => d.literal
  | time t => t.literal
  | dateTime d => d.literal
  | array items => "[" ++ commaList (literals items) ++ "]"
  | table entries => "\x7b" ++ commaList (entryLiterals entries) ++ "\x7d"

def literals : List Value → List String
  | [] => []
  | v :: rest => v.literal :: literals rest

def entryLiterals : List (String × Value) → List String
  | [] => []
  | (k, v) :: rest => (quoted k ++ ": " ++ v.literal) :: entryLiterals rest

end

/-- The value as plain text: texts stand for themselves. -/
def shown : Value → String
  | string s => s
  | v => v.literal

def kindName : Value → String
  | null => "NoneType"
  | bool _ => "bool"
  | int _ => "int"
  | float _ => "float"
  | string _ => "str"
  | date _ => "datetime.date"
  | time _ => "datetime.time"
  | dateTime _ => "datetime.datetime"
  | array _ => "list"
  | table _ => "dict"

/-- The kind of the value, as messages name it. -/
def kind (v : Value) : String := "<class '" ++ v.kindName ++ "'>"

end Value

end FontCodec
