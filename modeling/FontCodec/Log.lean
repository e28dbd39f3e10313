/-!
# Log records

A record has a level, the name of the part that wrote it and a message. A log shows the records from
some level on.
-/

namespace FontCodec

inductive LogLevel where
  | debug
  | info
  | warning
  | error
  | critical
  deriving DecidableEq, Repr

namespace LogLevel

def all : List LogLevel := [.debug, .info, .warning, .error, .critical]

def name : LogLevel → String
  | debug => "DEBUG"
  | info => "INFO"
  | warning => "WARNING"
  | error => "ERROR"
  | critical => "CRITICAL"

def ofName? (text : String) : Option LogLevel := all.find? (fun l => l.name = text)

def severity : LogLevel → Nat
  | debug => 0
  | info => 1
  | warning => 2
  | error => 3
  | critical => 4

theorem ofName?_name (l : LogLevel) : ofName? l.name = some l := by cases l <;> decide

end LogLevel

structure LogRecord where
  level : LogLevel
  /-- The part that wrote the record. -/
  logger : String
  message : String
  deriving DecidableEq, Repr

namespace LogRecord

def line (r : LogRecord) : String := r.level.name ++ ":" ++ r.logger ++ ":" ++ r.message

/-- Whether a log from this level on shows the record. -/
def isShown (threshold : LogLevel) (r : LogRecord) : Bool :=
  threshold.severity ≤ r.level.severity

end LogRecord

end FontCodec
