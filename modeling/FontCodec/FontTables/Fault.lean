import FontCodec.Bytes.Hex
import FontCodec.Document.Limit
import FontCodec.Version

/-!
# Faults of a bank document

What keeps a document from declaring font tables. The fault of an entry names the entry by its
number, which starts at one. The message of a fault shows at most one value of the document, and
cannot be written if that value exceeds a limit.
-/

namespace FontCodec

/-- The two lists of entries of a document. -/
inductive Listing where
  | glyphs
  | composites
  deriving DecidableEq, Repr

def Listing.key : Listing → String
  | glyphs => "encode"
  | composites => "replace"

inductive EntryFault where
  | notATable (value : Value)
  | missingChars
  | missingBytes
  | tooManyBytes (count : Nat)
  | invalidByte (value : Value)
  /-- An earlier glyph has the same bytes. -/
  | reusedBytes (chars : String) (raw : Bytes) (owner : String)
  | missingText (key : String)

inductive BankFault where
  | syntaxError
  | missingVersion
  | versionNotText
  | unknownVersion (name : String)
  | passthroughNotText
  | passthroughNotAscii
  | passthroughBackslash
  | notAnArray (listing : Listing)
  | entry (listing : Listing) (number : Nat) (fault : EntryFault)

structure BankError where
  source : String
  fault : BankFault

def maxGlyphBytes : Nat := 2

def EntryFault.message : EntryFault → String
  | notATable v => " must be a table, received " ++ v.kind
  | missingChars => " requires non-empty chars"
  | missingBytes => " requires a non-empty bytes array"
  | tooManyBytes count =>
    " has " ++ toString count ++ " bytes; glyphs use at most " ++ toString maxGlyphBytes
  | invalidByte v => " has invalid byte value " ++ v.literal
  | reusedBytes chars raw owner =>
    " (" ++ quoted chars ++ ") reuses bytes " ++ Hex.spaced raw ++ " already assigned to " ++
      quoted owner
  | missingText key => " requires a non-empty '" ++ key ++ "' string"

def BankFault.message : BankFault → String
  | syntaxError => "<toml syntax>"
  | missingVersion => "font bank requires a version"
  | versionNotText => "version must be a string"
  | unknownVersion name => (VersionError.unknownName (.string name)).message
  | passthroughNotText => "passthrough must be a string"
  | passthroughNotAscii => "passthrough characters must be single-byte ASCII"
  | passthroughBackslash => "backslash cannot be a passthrough character"
  | notAnArray listing => listing.key ++ " must be an array of tables"
  | entry listing number fault => listing.key ++ " entry #" ++ toString number ++ fault.message

/-- The value of the document that the message of a fault shows. -/
def BankFault.shownValue? : BankFault → Option Value
  | entry _ _ (.invalidByte v) => some v
  | _ => none

/-- The message of an error, or the limit that keeps it from being written. -/
def BankError.message (e : BankError) : Except Limit String :=
  match e.fault.shownValue?.bind (Value.limit? maxShownDepth) with
  | some l => .error l
  | none => .ok (e.source ++ ": " ++ e.fault.message)

end FontCodec
