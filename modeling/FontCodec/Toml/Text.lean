import FontCodec.Bytes.Hex
import FontCodec.Toml.Lexeme

/-!
# Quoted texts of TOML

Texts in double quotes have escapes, texts in single quotes have none. Three quotes open a text of
several lines.
-/

namespace FontCodec.Toml

/-- What is being skipped behind a backslash at the end of a line. -/
inductive Trim where
  | nothing
  /-- Blanks up to the end of the line, which has to come. -/
  | line
  /-- Blanks and line ends. -/
  | all
  deriving DecidableEq

/-- The character with a number given in hexadecimal, if it is one. -/
def scalar? (digits : List Char) : Option Char := do
  let n ← digits.foldlM (fun n c => (Hex.value? c).map (16 * n + ·)) 0
  if n < 0xd800 ∨ (0xdfff < n ∧ n < 0x110000) then some (Char.ofNat n) else none

def simpleEscape? : Char → Option Char
  | 'b' => some '\x08'
  | 't' => some '\t'
  | 'n' => some '\n'
  | 'f' => some '\x0c'
  | 'r' => some '\r'
  | '"' => some '"'
  | '\\' => some '\\'
  | _ => none

def prepend (c : Char) (read : Option (List Char × List Char)) : Option (List Char × List Char) :=
  read.map (fun (cs, rest) => (c :: cs, rest))

/-- A text with escapes, behind its opening quotes. -/
def basicText (multiline : Bool) (trim : Trim) : Reader (List Char)
  | [] => none
  | c :: rest =>
    if trim = .line ∧ isBlank c then basicText multiline .line rest
    else if trim = .line then if c = '\n' then basicText multiline .all rest else none
    else if trim = .all ∧ (isBlank c ∨ c = '\n') then basicText multiline .all rest
    else if c = '"' then
      if multiline then
        match rest with
        | '"' :: '"' :: tail => some ([], tail)
        | _ => prepend c (basicText multiline .nothing rest)
      else some ([], rest)
    else if c = '\\' then
      match rest with
      | 'u' :: c1 :: c2 :: c3 :: c4 :: tail => do
        prepend (← scalar? [c1, c2, c3, c4]) (basicText multiline .nothing tail)
      | 'U' :: c1 :: c2 :: c3 :: c4 :: c5 :: c6 :: c7 :: c8 :: tail => do
        prepend (← scalar? [c1, c2, c3, c4, c5, c6, c7, c8]) (basicText multiline .nothing tail)
      | e :: tail =>
        if multiline ∧ e = '\n' then basicText multiline .all tail
        else if multiline ∧ isBlank e then basicText multiline .line tail
        else do prepend (← simpleEscape? e) (basicText multiline .nothing tail)
      | [] => none
    else if (if multiline then breaksText c else breaksLine c) then none
    else prepend c (basicText multiline .nothing rest)

/-- A text without escapes, behind its opening quotes. -/
def literalText (multiline : Bool) : Reader (List Char)
  | [] => none
  | c :: rest =>
    if c = '\x27' then
      if multiline then
        match rest with
        | '\x27' :: '\x27' :: tail => some ([], tail)
        | _ => prepend c (literalText multiline rest)
      else some ([], rest)
    else if (if multiline then breaksText c else breaksLine c) then none
    else prepend c (literalText multiline rest)

/-- Up to two quotes in front of the closing ones belong to the text. -/
def closingQuotes (quote : Char) (read : List Char × List Char) : List Char × List Char :=
  let extra := (read.2.take 2).takeWhile (· = quote)
  (read.1 ++ extra, read.2.drop extra.length)

/-- A line end right behind the opening quotes does not count. -/
def skipFirstLine : List Char → List Char
  | '\n' :: rest => rest
  | cs => cs

def lineText : Reader String
  | '"' :: rest => (basicText false .nothing rest).map (fun (cs, rest) => (String.ofList cs, rest))
  | '\x27' :: rest => (literalText false rest).map (fun (cs, rest) => (String.ofList cs, rest))
  | _ => none

def text : Reader String
  | '"' :: '"' :: '"' :: rest =>
    (basicText true .nothing (skipFirstLine rest)).map (fun read =>
      let (cs, rest) := closingQuotes '"' read
      (String.ofList cs, rest))
  | '\x27' :: '\x27' :: '\x27' :: rest =>
    (literalText true (skipFirstLine rest)).map (fun read =>
      let (cs, rest) := closingQuotes '\x27' read
      (String.ofList cs, rest))
  | cs => lineText cs

end FontCodec.Toml
