import FontCodec.Escape
import FontCodec.Glyph
import FontCodec.Jamo.Collector
import FontCodec.Version

/-!
# Font banks

A font bank holds the tables of one font version and converts between readable text and the bytes of
the game. Encoding resolves escapes, expands composites and then looks up glyphs. Decoding looks up
glyphs, spells every other byte so that it survives, and joins composites again, before and after
escaping.
-/

namespace FontCodec

/-- The tables of one font with their compiled substitutions. Glyphs are ordered by the length of
their bytes and composites by that of their game side. -/
structure FontBank where
  version : Version
  glyphs : List Glyph
  composites : List Composite
  /-- The codes that may stand unescaped beside digits and letters. -/
  passthrough : IntSet
  glyphsToGame : Substitution
  glyphsToReadable : Substitution
  compositesToGame : Substitution
  compositesToReadable : Substitution
  glyphsToGame_eq : glyphsToGame = .ofRules (glyphs.map Glyph.toGame)
  glyphsToReadable_eq : glyphsToReadable = .ofRules (glyphs.map Glyph.toReadable)
  compositesToGame_eq : compositesToGame = .ofRules (composites.map Composite.toGame)
  compositesToReadable_eq : compositesToReadable = .ofRules (composites.map Composite.toReadable)

/-- Why a payload has no readable text. -/
inductive DecodeError where
  /-- Packed sequences are asked for, but the payload is not decoded as Korean. -/
  | collectorWithoutKorean
  | notAByte (e : NotAByte)
  /-- The result is no UTF-8, because a byte past ASCII passed through. -/
  | notUtf8
  deriving DecidableEq, Repr

namespace FontBank

/-- The bank with the given entries, in the order in which they are declared. -/
def build (version : Version) (glyphs : List Glyph) (composites : List Composite)
    (passthrough : IntSet) : FontBank where
  version := version
  glyphs := Glyph.sorted glyphs
  composites := Composite.sorted composites
  passthrough := passthrough
  glyphsToGame := .ofRules ((Glyph.sorted glyphs).map Glyph.toGame)
  glyphsToReadable := .ofRules ((Glyph.sorted glyphs).map Glyph.toReadable)
  compositesToGame := .ofRules ((Composite.sorted composites).map Composite.toGame)
  compositesToReadable := .ofRules ((Composite.sorted composites).map Composite.toReadable)
  glyphsToGame_eq := rfl
  glyphsToReadable_eq := rfl
  compositesToGame_eq := rfl
  compositesToReadable_eq := rfl

def name (bank : FontBank) : String := bank.version.name

def isDigit (code : Int) : Bool := 0x30 ≤ code && code ≤ 0x39
def isUpper (code : Int) : Bool := 0x41 ≤ code && code ≤ 0x5a
def isLower (code : Int) : Bool := 0x61 ≤ code && code ≤ 0x7a

/-- Whether a code may stand unescaped in readable text. Only the second game has lower-case
letters, and the backslash never passes. -/
def isPlain (bank : FontBank) (code : Int) : Bool :=
  code ≠ 0x5c &&
    (isDigit code || isUpper code || decide (code ∈ bank.passthrough) ||
      (bank.version = .jak2 && isLower code))

/-- Whether a text is one character that may stand unescaped. -/
def isPlainText (bank : FontBank) (text : String) : Bool :=
  match text.toList with
  | [c] => bank.isPlain c.toNat
  | _ => false

/-- Bytes that the escaping pass looks after. -/
def isVerbatim (b : UInt8) : Bool :=
  b = lineFeed || b = tabulator || b = backslash || b = quoteMark

/-- The spelling of a byte that belongs to no glyph. -/
def spell (bank : FontBank) (b : UInt8) : Bytes :=
  if bank.isPlain b.toNat || isVerbatim b then [b] else byteEscape b

/-- The bytes of the game for bytes of readable text without escapes. -/
def encodeBytes (bank : FontBank) (text : Bytes) : Bytes :=
  bank.glyphsToGame.apply (bank.compositesToGame.apply text)

/-- The bytes of the game for a readable text, whose escapes may be taken literally. -/
def encode (bank : FontBank) (text : String) (resolveEscapes : Bool) : Except EscapeError Bytes :=
  if resolveEscapes then (unescape (utf8 text)).map bank.encodeBytes
  else .ok (bank.encodeBytes (utf8 text))

/-- The glyphs of a payload, with every other byte spelled out. -/
def glyphText (bank : FontBank) (payload : Bytes) : Bytes :=
  bank.glyphsToReadable.replace bank.spell payload

/-- The UTF-8 form of the readable text for a payload that is no longer tagged as Korean. -/
def readableBytes (bank : FontBank) (payload : Bytes) : Bytes :=
  bank.compositesToReadable.apply
    (escape (bank.compositesToReadable.apply (bank.glyphText payload)))

/-- The readable text of a payload. -/
def decode (bank : FontBank) (payload : Bytes) (korean : Bool) : Except DecodeError String :=
  match text? (bank.readableBytes (if korean then Jamo.retag payload else payload)) with
  | some text => .ok text
  | none => .error .notUtf8

/-- Decodes numbers that need not be bytes, and records packed sequences if a collector is given. The
collector comes back in either case. -/
def decodeRecording (bank : FontBank) (payload : List Int) (korean : Bool)
    (collector : Option Jamo.Collector) : Except DecodeError String × Option Jamo.Collector :=
  if collector.isSome && !korean then (.error .collectorWithoutKorean, collector)
  else
    match bytesOfInts payload with
    | .error e => (.error (.notAByte e), collector)
    | .ok bytes => (bank.decode bytes korean, collector.map (·.recordPayload bytes))

/-- The bank as a one-line description. -/
def description (bank : FontBank) : String := "FontBank(" ++ quoted bank.name ++ ")"

end FontBank

def DecodeError.message : DecodeError → String
  | .collectorWithoutKorean => "a jamo collector requires korean decoding"
  | .notAByte e => e.message
  | .notUtf8 => "the text is not valid UTF-8"

/-- Why a text does not come back from a round trip. -/
inductive TranscodeError where
  | escape (e : EscapeError)
  | decode (e : DecodeError)
  deriving DecidableEq, Repr

def FontBank.roundTrip (bank : FontBank) (text : String) :
    Except TranscodeError (Bytes × String) :=
  match bank.encode text true with
  | .error e => .error (.escape e)
  | .ok payload =>
    match bank.decode payload false with
    | .error e => .error (.decode e)
    | .ok readable => .ok (payload, readable)

end FontCodec
