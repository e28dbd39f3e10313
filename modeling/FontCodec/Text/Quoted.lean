import FontCodec.Text.Printable

/-!
# Quoted text

Messages show a text between quotes. The single quote is used unless the text holds one and no
double quote. The quote in use and the backslash are escaped, tab, line feed and carriage return
have names, and every other unprintable character is given by its number.
-/

namespace FontCodec

namespace Quoted

/-- Lower-case hexadecimal digits of a number, filled with zeros up to a width. -/
def padded (width n : Nat) : List Char :=
  let digits := Nat.toDigits 16 n
  List.replicate (width - digits.length) '0' ++ digits

/-- The number of a character, in the shortest of the three forms that holds it. -/
def numbered (c : Char) : List Char :=
  if c.toNat < 0x100 then ['\\', 'x'] ++ padded 2 c.toNat
  else if c.toNat < 0x10000 then ['\\', 'u'] ++ padded 4 c.toNat
  else ['\\', 'U'] ++ padded 8 c.toNat

def character (quote c : Char) : List Char :=
  if c = quote ∨ c = '\\' then ['\\', c]
  else if c = '\t' then ['\\', 't']
  else if c = '\n' then ['\\', 'n']
  else if c = '\r' then ['\\', 'r']
  else if isPrintable c then [c]
  else numbered c

/-- The quote that goes around a text. -/
def quoteFor (chars : List Char) : Char :=
  if '\x27' ∈ chars ∧ '"' ∉ chars then '"' else '\x27'

end Quoted

def quoted (text : String) : String :=
  let quote := Quoted.quoteFor text.toList
  String.ofList (quote :: (text.toList.flatMap (Quoted.character quote) ++ [quote]))

end FontCodec
