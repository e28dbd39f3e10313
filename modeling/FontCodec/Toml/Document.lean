import FontCodec.Toml.Value

/-!
# TOML documents

A document is a sequence of entries and headers, one on a line. A header opens a table, or appends a
table to an array; the entries behind it belong to that table. No table is declared twice, and
nothing is added to a container that was written as a value.
-/

namespace FontCodec.Toml

/-- A document as far as it was read. -/
structure Draft where
  root : Table
  header : Path
  /-- Tables that may not be declared or opened by a dotted key again. -/
  declared : List Path
  /-- Tables opened by dotted keys since the last header; they count as declared from the next
  header on. -/
  opened : List Path
  /-- Containers that were written as values. -/
  closed : List Path

namespace Draft

def empty : Draft := ⟨[], [], [], [], []⟩

/-- The tables on the way to a dotted key, shortest path first. -/
def openedBy (header path : Path) : List Path :=
  (List.range (path.length - 1)).map (fun i => header ++ path.take (i + 1))

def addEntry (d : Draft) (path : Path) (v : Value) : Option Draft :=
  let opened := openedBy d.header path
  let parent := d.header ++ path.dropLast
  if opened.any (fun p => d.declared.contains p) || isWithin d.closed parent then none
  else
    (d.root.modify true parent (Table.add? (path.getLastD "") v)).map (fun root =>
      { d with
        root := root
        opened := opened ++ d.opened
        closed := if isContainer v then (d.header ++ path) :: d.closed else d.closed })

/-- Declares what dotted keys opened under the previous header. -/
def declareOpened (d : Draft) : Draft := { d with declared := d.opened ++ d.declared, opened := [] }

def openTable (d : Draft) (path : Path) : Option Draft :=
  let d := d.declareOpened
  if d.declared.contains path || isWithin d.closed path then none
  else
    (d.root.modify true path some).map (fun root =>
      { d with root := root, header := path, declared := path :: d.declared })

/-- Appends an empty table to the array under a key, which may be new. -/
def appendTable (key : String) (table : Table) : Option Table :=
  match table.get? key with
  | none => some (table.set key (.array [.table []]))
  | some (.array items) => some (table.set key (.array (items ++ [.table []])))
  | some _ => none

/-- Opens a further table of an array. What was declared or closed inside the previous one is free
again. -/
def openItem (d : Draft) (path : Path) : Option Draft :=
  let d := d.declareOpened
  if isWithin d.closed path then none
  else
    (d.root.modify true path.dropLast (appendTable (path.getLastD ""))).map (fun root =>
      { d with
        root := root
        header := path
        declared := path :: d.declared.filter (fun p => !path.isPrefixOf p)
        closed := d.closed.filter (fun p => !path.isPrefixOf p) })

end Draft

/-- An entry or a header. -/
def statement (d : Draft) (cs : List Char) : Except Fault (Draft × List Char) :=
  match cs with
  | '[' :: '[' :: rest => do
    let (path, rest) ← required (key (skipBlanks rest))
    match rest with
    | ']' :: ']' :: rest => return (← required (d.openItem path), rest)
    | _ => .error .syntaxError
  | '[' :: rest => do
    let (path, rest) ← required (key (skipBlanks rest))
    match rest with
    | ']' :: rest => return (← required (d.openTable path), rest)
    | _ => .error .syntaxError
  | _ => do
    let (path, rest) ← required (key cs)
    match rest with
    | '=' :: rest =>
      let (v, rest) ← value (skipBlanks rest)
      return (← required (d.addEntry path v), rest)
    | _ => .error .syntaxError

/-- The lines of a document. Each takes at least one character, so the length of the text bounds
their number. -/
def lines : Nat → Draft → List Char → Except Fault Draft
  | 0, _, _ => .error .syntaxError
  | fuel + 1, d, cs =>
    match skipBlanks cs with
    | [] => .ok d
    | '\n' :: rest => lines fuel d rest
    | c :: rest => do
      let (d, rest) ← if c = '#' then .ok (d, c :: rest) else statement d (c :: rest)
      match ← required (skipComment (skipBlanks rest)) with
      | [] => return d
      | '\n' :: rest => lines fuel d rest
      | _ => .error .syntaxError

/-- The root table of a document. -/
def parse (source : String) : Except Fault Table :=
  let cs := unifyLines source.toList
  (lines (cs.length + 1) .empty cs).map Draft.root

end FontCodec.Toml
