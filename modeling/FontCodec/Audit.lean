import FontCodec.Bytes.Hex
import FontCodec.FontBank

/-!
# Audit of a font bank

An audit looks for glyphs or bytes that a round trip changes. Glyphs go from their characters to the
game and back. Bytes go from the game to readable text and back.
-/

namespace FontCodec

/-- What an audit sends on a round trip. -/
inductive Check where
  | glyphs
  | bytes
  deriving DecidableEq, Repr

namespace Check

def all : List Check := [.glyphs, .bytes]

def name : Check → String
  | glyphs => "glyphs"
  | bytes => "bytes"

def ofName? (text : String) : Option Check := all.find? (fun c => c.name = text)

end Check

/-- What came back from a round trip in place of its start. -/
inductive Loss where
  | escape (e : EscapeError)
  | readable (text : String)
  | raw (bytes : Bytes)
  deriving DecidableEq, Repr

/-- A round trip that changes its start. -/
inductive Finding where
  | glyph (g : Glyph) (loss : Loss)
  | byte (b : UInt8) (text : String) (loss : Loss)
  deriving DecidableEq, Repr

structure Audit where
  check : Check
  bank : String
  checked : Nat
  findings : List Finding
  deriving DecidableEq, Repr

namespace FontBank

def auditGlyph (bank : FontBank) (g : Glyph) : Except DecodeError (Option Finding) :=
  match bank.encode g.chars true with
  | .error e => .ok (some (.glyph g (.escape e)))
  | .ok raw => (bank.decode raw false).map (fun text =>
      if text = g.chars then none else some (.glyph g (.readable text)))

def auditByte (bank : FontBank) (b : UInt8) : Except DecodeError (Option Finding) :=
  (bank.decode [b] false).map (fun text =>
    match bank.encode text true with
    | .error e => some (.byte b text (.escape e))
    | .ok raw => if raw = [b] then none else some (.byte b text (.raw raw)))

def everyByte : Bytes := (List.range 256).map (fun n => UInt8.ofNat n)

/-- The findings of a check, in the order of the bank's glyphs or of the bytes. -/
def audit (bank : FontBank) (check : Check) : Except DecodeError Audit := do
  match check with
  | .glyphs =>
    let found ← bank.glyphs.mapM bank.auditGlyph
    return ⟨check, bank.name, bank.glyphs.length, found.filterMap id⟩
  | .bytes =>
    let found ← everyByte.mapM bank.auditByte
    return ⟨check, bank.name, everyByte.length, found.filterMap id⟩

end FontBank

def Loss.message : Loss → String
  | escape e => e.message
  | readable text => "decoded as " ++ quoted text
  | raw bytes => "encoded as " ++ Hex.shown bytes

def Finding.message : Finding → String
  | glyph g loss =>
    "glyph " ++ quoted g.chars ++ " (" ++ Hex.spaced g.raw ++ "): " ++ loss.message
  | byte b text loss =>
    "byte " ++ Hex.compact [b] ++ " (" ++ quoted text ++ "): " ++ loss.message

namespace Audit

def passed (a : Audit) : Bool := a.findings.isEmpty

/-- A line for the whole audit, then a line for each finding. -/
def lines (a : Audit) : List String :=
  (a.bank ++ " " ++ a.check.name ++ ": " ++ toString a.checked ++ " checked, " ++
    toString a.findings.length ++ " failed [" ++ (if a.passed then "PASS" else "FAIL") ++ "]") ::
    a.findings.map (fun f => "  " ++ f.message)

def report (a : Audit) : String := "\n".intercalate a.lines

end Audit

end FontCodec
