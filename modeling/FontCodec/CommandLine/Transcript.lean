import FontCodec.Bytes.Hex
import FontCodec.FontTables.Document
import FontCodec.Log

/-!
# Transcripts

What a run of a command prints, with the log records among its notes. Which records are shown is
decided only when the transcript is written out.
-/

namespace FontCodec.CommandLine

/-- A line for the error stream. -/
inductive Note where
  | record (r : LogRecord)
  | text (line : String)
  deriving DecidableEq, Repr

/-- The line of a note, if a log from this level on shows it. -/
def Note.line? (threshold : LogLevel) : Note → Option String
  | record r => if r.isShown threshold then some r.line else none
  | text line => some line

structure Transcript where
  status : Nat
  output : List String
  notes : List Note
  deriving DecidableEq, Repr

/-- Why a command ends without an answer of its own. -/
inductive Refusal where
  | fileNotFound (path : String)
  | unknownVersion (e : VersionError)
  /-- The file declares no tables; the text is the message of its fault. -/
  | document (text : String)
  | escape (e : EscapeError)
  /-- The payload is not hexadecimal from this character on. -/
  | hex (position : Nat)

def Refusal.message : Refusal → String
  | fileNotFound path => "font bank file not found: " ++ path
  | unknownVersion e => "error: " ++ e.message
  | document text => "error: " ++ text
  | escape e => "error: " ++ e.message
  | hex position =>
    "invalid hex payload: non-hexadecimal number found in fromhex() arg at position " ++
      toString position

def unlines (lines : List String) : String := String.join (lines.map (fun l => l ++ "\n"))

namespace Transcript

def refused (r : Refusal) : Transcript := ⟨1, [], [.text r.message]⟩

def after (records : List LogRecord) (t : Transcript) : Transcript :=
  { t with notes := records.map Note.record ++ t.notes }

def stdout (t : Transcript) : String := unlines t.output

def stderr (threshold : LogLevel) (t : Transcript) : String :=
  unlines (t.notes.filterMap (Note.line? threshold))

end Transcript

end FontCodec.CommandLine
