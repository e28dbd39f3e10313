import FontCodec.Document.Literal
import FontCodec.Toml.Calendar
import FontCodec.Toml.Number
import FontCodec.Toml.Text

/-!
# Values of TOML

Texts, numbers, truth values, dates, arrays and inline tables. A table is grown key by key, and a key
of several parts opens a table for each part but the last.
-/

namespace FontCodec

/-- The parts of a dotted key, or the place of a table. -/
abbrev Path := List String

namespace Table

/-- Changes the table at a path, opening those on the way that are missing. The path may lead into
the last table of an array, if arrays are to be entered. -/
def modify (enterArrays : Bool) (path : Path) (change : Table → Option Table) (table : Table) :
    Option Table :=
  match path with
  | [] => change table
  | key :: path =>
    match table.get? key with
    | none => (modify enterArrays path change []).map (fun t => table.set key (.table t))
    | some (.table t) =>
      (modify enterArrays path change t).map (fun t => table.set key (.table t))
    | some (.array items) =>
      if enterArrays then
        match items.getLast? with
        | some (.table t) =>
          (modify enterArrays path change t).map (fun t =>
            table.set key (.array (items.dropLast ++ [.table t])))
        | _ => none
      else none
    | some _ => none

def add? (key : String) (value : Value) (table : Table) : Option Table :=
  match table.get? key with
  | none => some (table.set key value)
  | some _ => none

end Table

namespace Toml

/-- Whether a value is a table or an array, which nothing may be added to later. -/
def isContainer : Value → Bool
  | .table _ => true
  | .array _ => true
  | _ => false

def isWithin (places : List Path) (path : Path) : Bool := places.any (fun p => p.isPrefixOf path)

def keyPart (cs : List Char) : Option (String × List Char) :=
  let bare := cs.takeWhile isBareKey
  if bare.isEmpty then lineText cs else some (String.ofList bare, cs.dropWhile isBareKey)

/-- A key of one part or more with points between them. Each part takes at least one character, so
the length of the text bounds their number. -/
def keyParts : Nat → Reader Path
  | 0, _ => none
  | fuel + 1, cs => do
    let (part, cs) ← keyPart cs
    match skipBlanks cs with
    | '.' :: cs =>
      let (parts, cs) ← keyParts fuel (skipBlanks cs)
      return (part :: parts, cs)
    | cs => return ([part], cs)

def key (cs : List Char) : Option (Path × List Char) := keyParts (cs.length + 1) cs

/-- A value that is neither an array nor an inline table. -/
def scalar (cs : List Char) : Except Fault (Value × List Char) :=
  match cs with
  | 't' :: 'r' :: 'u' :: 'e' :: rest => .ok (.bool true, rest)
  | 'f' :: 'a' :: 'l' :: 's' :: 'e' :: rest => .ok (.bool false, rest)
  | '"' :: _ => required ((text cs).map (fun (s, rest) => (.string s, rest)))
  | '\x27' :: _ => required ((text cs).map (fun (s, rest) => (.string s, rest)))
  | _ =>
    match date cs with
    | some (d, rest) => if isOnCalendar d then .ok (dateValue d rest) else .error .syntaxError
    | none =>
      match timeOfDay cs with
      | some (t, rest) => .ok (.time t, rest)
      | none =>
        match markedInteger cs with
        | some read => .ok read
        | none =>
          match numeral cs with
          | some (n, rest) => (n.value.mapError .limit).map (fun v => (v, rest))
          | none => required (specialFloat cs)

/-- The steps down that reading a value may take. An array takes two steps and an inline table
three. -/
def maxSteps : Nat := 980

def arraySteps : Nat := 2

def inlineSteps : Nat := 3

/-- The steps left inside a container, if it may still be opened. -/
def descend (cost steps : Nat) : Except Fault Nat :=
  if steps < cost then .error (.limit .nesting) else .ok (steps - cost)

mutual

/-- A value. Every second step along the text takes a character, so twice the length of the text is
fuel enough. -/
def valueWith (fuel steps : Nat) (cs : List Char) : Except Fault (Value × List Char) :=
  match fuel with
  | 0 => .error .syntaxError
  | fuel + 1 =>
    match cs with
    | '[' :: rest => do
      let steps ← descend arraySteps steps
      match ← required (skipGap false rest) with
      | ']' :: rest => return (.array [], rest)
      | rest =>
        let (items, rest) ← itemsWith fuel steps rest
        return (.array items, rest)
    | '{' :: rest => do
      let steps ← descend inlineSteps steps
      match skipBlanks rest with
      | '}' :: rest => return (.table [], rest)
      | rest =>
        let (table, rest) ← inlineWith fuel steps [] [] rest
        return (.table table, rest)
    | _ => scalar cs

/-- The items of an array up to its closing bracket. A comma may stand behind the last. -/
def itemsWith (fuel steps : Nat) (cs : List Char) : Except Fault (List Value × List Char) :=
  match fuel with
  | 0 => .error .syntaxError
  | fuel + 1 => do
    let (v, rest) ← valueWith fuel steps cs
    match ← required (skipGap false rest) with
    | ']' :: rest => return ([v], rest)
    | ',' :: rest =>
      match ← required (skipGap false rest) with
      | ']' :: rest => return ([v], rest)
      | rest =>
        let (vs, rest) ← itemsWith fuel steps rest
        return (v :: vs, rest)
    | _ => .error .syntaxError

/-- The entries of an inline table up to its closing brace, on one line. Containers that are written
as the value of an entry are closed for the entries behind them. -/
def inlineWith (fuel steps : Nat) (closed : List Path) (table : Table) (cs : List Char) :
    Except Fault (Table × List Char) :=
  match fuel with
  | 0 => .error .syntaxError
  | fuel + 1 => do
    let (path, rest) ← required (key cs)
    match rest with
    | '=' :: rest =>
      let (v, rest) ← valueWith fuel steps (skipBlanks rest)
      if isWithin closed path then .error .syntaxError
      else
        let table ← required
          (table.modify false path.dropLast (Table.add? (path.getLastD "") v))
        match skipBlanks rest with
        | '}' :: rest => return (table, rest)
        | ',' :: rest =>
          inlineWith fuel steps (if isContainer v then path :: closed else closed) table
            (skipBlanks rest)
        | _ => .error .syntaxError
    | _ => .error .syntaxError

end

def value (cs : List Char) : Except Fault (Value × List Char) :=
  valueWith (2 * cs.length + 2) maxSteps cs

end Toml

end FontCodec
