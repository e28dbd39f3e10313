import FontCodec.Document.Limit

/-!
# Characters, blanks and comments of TOML

A reader takes characters and gives what it read with the characters that are left, or nothing when
the text breaks the grammar. Where a limit may be exceeded, a fault tells which of the two it is.
-/

namespace FontCodec.Toml

abbrev Reader (α : Type) := List Char → Option (α × List Char)

/-- Why a text is not read. -/
inductive Fault where
  | syntaxError
  | limit (l : Limit)
  deriving DecidableEq, Repr

/-- A result that is missing only if the text breaks the grammar. -/
def required {α : Type} : Option α → Except Fault α
  | some a => .ok a
  | none => .error .syntaxError

def isBlank (c : Char) : Bool := c = ' ' || c = '\t'

def isControl (c : Char) : Bool := c.toNat < 32 || c.toNat = 127

/-- Characters that neither a comment nor a text of one line may hold. -/
def breaksLine (c : Char) : Bool := isControl c && c ≠ '\t'

/-- Characters that a text of several lines may not hold. -/
def breaksText (c : Char) : Bool := breaksLine c && c ≠ '\n'

def isDigit (c : Char) : Bool := '0' ≤ c && c ≤ '9'

def isLetter (c : Char) : Bool := ('a' ≤ c && c ≤ 'z') || ('A' ≤ c && c ≤ 'Z')

def isBareKey (c : Char) : Bool := isLetter c || isDigit c || c = '-' || c = '_'

def skipBlanks (cs : List Char) : List Char := cs.dropWhile isBlank

/-- The rest of a comment's line, from its end on. -/
def comment : List Char → Option (List Char)
  | [] => some []
  | c :: rest => if c = '\n' then some (c :: rest) else if breaksLine c then none else comment rest

def skipComment : List Char → Option (List Char)
  | '#' :: rest => comment rest
  | cs => some cs

/-- Skips blanks, line ends and comments between the items of an array. -/
def skipGap (inComment : Bool) : List Char → Option (List Char)
  | [] => some []
  | c :: rest =>
    if inComment then
      if c = '\n' then skipGap false rest else if breaksLine c then none else skipGap true rest
    else if isBlank c || c = '\n' then skipGap false rest
    else if c = '#' then skipGap true rest
    else some (c :: rest)

/-- Line ends of two characters count as one. -/
def unifyLines : List Char → List Char
  | '\r' :: '\n' :: rest => '\n' :: unifyLines rest
  | c :: rest => c :: unifyLines rest
  | [] => []

end FontCodec.Toml
