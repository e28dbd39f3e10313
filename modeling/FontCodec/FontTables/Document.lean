import FontCodec.FontTables
import FontCodec.FontTables.Fault
import FontCodec.Toml.Document

/-!
# Font tables from a document

The version is read first, then the codes that pass, the glyphs and the composites, each list from
the front. The first fault in this order is the one reported.
-/

namespace FontCodec

def Value.nonEmptyText? : Value → Option String
  | .string text => if text = "" then none else some text
  | _ => none

theorem Value.nonEmptyText?_eq_some_iff {v : Value} {text : String} :
    v.nonEmptyText? = some text ↔ v = .string text ∧ text ≠ "" := by
  cases v <;> grind [nonEmptyText?]

namespace FontTables

def readVersion (document : Table) : Except BankFault Version :=
  match document.getOrNull "version" with
  | .null => .error .missingVersion
  | .string name =>
    match Version.ofName? name with
    | some v => .ok v
    | none => .error (.unknownVersion name)
  | _ => .error .versionNotText

def isAscii (text : String) : Bool := text.toList.all (fun c => c.toNat < 128)

/-- The codes that pass. None do if the key is not there. -/
def readPassthrough (document : Table) : Except BankFault IntSet :=
  match (document.get? "passthrough").getD (.string "") with
  | .string text =>
    if !isAscii text then .error .passthroughNotAscii
    else if '\\' ∈ text.toList then .error .passthroughBackslash
    else .ok (asciiCodes text)
  | _ => .error .passthroughNotText

/-- The values of a list of entries, which is empty if the key is not there. -/
def listed (listing : Listing) (document : Table) : Except BankFault (List Value) :=
  match (document.get? listing.key).getD (.array []) with
  | .array items => .ok items
  | _ => .error (.notAnArray listing)

def readByte : Value → Except EntryFault UInt8
  | .int n => if 0 ≤ n ∧ n ≤ 0xff then .ok (lowByte n) else .error (.invalidByte (.int n))
  | v => .error (.invalidByte v)

def readRaw : Value → Except EntryFault Bytes
  | .array items =>
    if items.isEmpty then .error .missingBytes
    else if maxGlyphBytes < items.length then .error (.tooManyBytes items.length)
    else items.mapM readByte
  | _ => .error .missingBytes

/-- A glyph, whose bytes no earlier glyph may have. -/
def readGlyph (earlier : List Glyph) : Value → Except EntryFault Glyph
  | .table fields =>
    match (Table.getOrNull fields "chars").nonEmptyText? with
    | none => .error .missingChars
    | some chars => do
      let raw ← readRaw (Table.getOrNull fields "bytes")
      match earlier.find? (fun g => g.raw = raw) with
      | some owner => .error (.reusedBytes chars raw owner.chars)
      | none => return ⟨chars, raw⟩
  | v => .error (.notATable v)

def readComposite : Value → Except EntryFault Composite
  | .table fields =>
    match (Table.getOrNull fields "from").nonEmptyText?, (Table.getOrNull fields "to").nonEmptyText? with
    | some game, some readable => .ok ⟨game, readable⟩
    | none, _ => .error (.missingText "from")
    | _, none => .error (.missingText "to")
  | v => .error (.notATable v)

/-- The glyphs of a list behind those already read, with the number of the first. -/
def readGlyphs (earlier : List Glyph) (number : Nat) : List Value → Except BankFault (List Glyph)
  | [] => .ok []
  | v :: rest => do
    let glyph ← (readGlyph earlier v).mapError (.entry .glyphs number)
    let glyphs ← readGlyphs (glyph :: earlier) (number + 1) rest
    return glyph :: glyphs

def readComposites (number : Nat) : List Value → Except BankFault (List Composite)
  | [] => .ok []
  | v :: rest => do
    let composite ← (readComposite v).mapError (.entry .composites number)
    let composites ← readComposites (number + 1) rest
    return composite :: composites

/-- The tables that a document declares, or its first fault. -/
def ofDocument (document : Table) : Except BankFault FontTables := do
  let version ← readVersion document
  let passthrough ← readPassthrough document
  let glyphs ← readGlyphs [] 1 (← listed .glyphs document)
  let composites ← readComposites 1 (← listed .composites document)
  return ⟨version, glyphs, composites, passthrough⟩

end FontTables

inductive BankFileError where
  | notUtf8
  | limit (l : Limit)
  | invalid (e : BankError)

/-- Reads the contents of a file, which is named as the source of a fault. -/
def FontTables.ofFile (source : String) (contents : Bytes) : Except BankFileError FontTables :=
  match text? contents with
  | none => .error .notUtf8
  | some text =>
    match Toml.parse text with
    | .error .syntaxError => .error (.invalid ⟨source, .syntaxError⟩)
    | .error (.limit l) => .error (.limit l)
    | .ok document => (ofDocument document).mapError (fun fault => .invalid ⟨source, fault⟩)

end FontCodec
