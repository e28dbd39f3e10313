import FontCodec.Bytes.Hex
import FontCodec.Text.Utf8

/-!
# Escape syntax of readable text

Readable text spells a byte that the font cannot show as `\cXX`, and a double quote or a backslash
behind a backslash. Both passes work on UTF-8 bytes, so positions are byte offsets.

A double quote without a backslash stands for itself and hides the byte behind it.
-/

namespace FontCodec

def backslash : UInt8 := 0x5c
def quoteMark : UInt8 := 0x22
def lineFeed : UInt8 := 0x0a
def tabulator : UInt8 := 0x09

/-- The code behind a backslash that announces two hexadecimal digits. -/
def byteCode : UInt8 := 0x63

inductive EscapeFault where
  /-- The text ends before the operands of the escape. -/
  | incomplete
  /-- The character stands where a hexadecimal digit has to. -/
  | invalidHex (character : Char)
  /-- No escape has this code. -/
  | unknownCode (character : Char)
  deriving DecidableEq, Repr

/-- A malformed escape and the byte offset of its backslash. -/
structure EscapeError where
  position : Nat
  fault : EscapeFault
  deriving DecidableEq, Repr

def EscapeFault.message : EscapeFault → String
  | .incomplete => "incomplete string escape code"
  | .invalidHex _ => "invalid character escape hex number"
  | .unknownCode c =>
    "unknown string escape code '" ++ c.toString ++ "' (0x" ++ Hex.ofNat c.toNat ++ ")"

def EscapeFault.character? : EscapeFault → Option Char
  | .incomplete => none
  | .invalidHex c => some c
  | .unknownCode c => some c

def EscapeError.message (e : EscapeError) : String :=
  e.fault.message ++ " at offset " ++ toString e.position

/-- Resolves escapes in bytes that start at the given offset. -/
def unescapeFrom (position : Nat) : Bytes → Except EscapeError Bytes
  | [] => .ok []
  | b :: rest =>
    if b = quoteMark then
      match rest with
      | [] => .ok [quoteMark]
      | _ :: tail => (unescapeFrom (position + 2) tail).map (quoteMark :: ·)
    else if b ≠ backslash then (unescapeFrom (position + 1) rest).map (b :: ·)
    else match rest with
      | [] => .error ⟨position, .incomplete⟩
      | code :: operands =>
        if code = byteCode then
          match operands with
          | high :: low :: tail =>
            match Hex.byteValue? high, Hex.byteValue? low with
            | some h, some l => (unescapeFrom (position + 4) tail).map (Hex.join h l :: ·)
            | some _, none => .error ⟨position, .invalidHex (characterAt (low :: tail))⟩
            | none, _ => .error ⟨position, .invalidHex (characterAt (high :: low :: tail))⟩
          | _ => .error ⟨position, .incomplete⟩
        else if code = quoteMark ∨ code = backslash then
          (unescapeFrom (position + 2) operands).map (code :: ·)
        else .error ⟨position, .unknownCode (characterAt (code :: operands))⟩

def unescape (source : Bytes) : Except EscapeError Bytes := unescapeFrom 0 source

/-- The spelling of a byte in front of `rest`. A backslash in front of `c` already starts an escape
and stays as it is. -/
def escapeByte (b : UInt8) (rest : Bytes) : Bytes :=
  if b = backslash then
    if rest.head? = some byteCode then [backslash] else [backslash, backslash]
  else if b = lineFeed then [backslash, asciiByte 'n']
  else if b = tabulator then [backslash, asciiByte 't']
  else if b = quoteMark then [backslash, quoteMark]
  else [b]

/-- Spells line feeds, tabs, quotes and backslashes as escapes. -/
def escape : Bytes → Bytes
  | [] => []
  | b :: rest => escapeByte b rest ++ escape rest

/-- The escape that names a byte by its two digits. -/
def byteEscape (b : UInt8) : Bytes :=
  backslash :: byteCode :: (Hex.digits b).map asciiByte

theorem escape_append_of_ne {a : UInt8} (h : a ≠ byteCode) (p q : Bytes) :
    escape (p ++ a :: q) = escape p ++ escape (a :: q) := by
  induction p with
  | nil => rfl
  | cons b p ih =>
    have hb : escapeByte b (p ++ a :: q) = escapeByte b p := by
      cases p with
      | nil => simp [escapeByte, h]
      | cons c p => rfl
    rw [List.cons_append, escape, escape, ih, hb, List.append_assoc]

end FontCodec
