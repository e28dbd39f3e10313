import FontCodec.Text.DecimalDigit

/-!
# Arguments of a command line

An argument is an option, an operand or the separator behind which all arguments are operands. An
option is known by its spellings. A value may be attached to it, behind an equals sign or directly
behind a short option, and a long option may be cut short as long as it stays unique.
-/

namespace FontCodec.CommandLine

/-- The options of a command under all their spellings. -/
abbrev Options (α : Type) := List (String × α)

inductive Role (α : Type) where
  | operand
  | separator
  | known (option : α) (attached : Option String)
  /-- The spelling of an option that the command does not have. -/
  | unknown
  deriving DecidableEq, Repr

structure Argument (α : Type) where
  text : String
  role : Role α
  deriving DecidableEq, Repr

def dropLineFeed (cs : List Char) : List Char :=
  if cs.getLast? = some '\n' then cs.dropLast else cs

/-- Whether a text behind a dash makes a negative number. -/
def isNumber (cs : List Char) : Bool :=
  let cs := dropLineFeed cs
  match cs.dropWhile isDecimalDigit with
  | [] => !cs.isEmpty
  | '.' :: places => !places.isEmpty && places.all isDecimalDigit
  | _ => false

/-- The text in front of the first equals sign and the one behind it. -/
def splitValue (cs : List Char) : List Char × Option String :=
  match cs.dropWhile (· ≠ '=') with
  | _ :: rest => (cs.takeWhile (· ≠ '='), some (String.ofList rest))
  | [] => (cs, none)

/-- The options that a spelling may mean which is none of theirs. A long option may be cut short, and
a short option has its value right behind it. -/
def candidates {α : Type} (options : Options α) (cs : List Char) : List (Role α) :=
  if ['-', '-'].isPrefixOf cs then
    let (start, value) := splitValue cs
    (options.filter (fun (s, _) => start.isPrefixOf s.toList)).map (fun (_, o) => .known o value)
  else
    (options.filter (fun (s, _) => s.toList = cs.take 2)).map (fun (_, o) =>
      .known o (some (String.ofList (cs.drop 2))))

/-- The role of an argument that begins with a dash, or nothing if it may mean several options. -/
def dashedRole {α : Type} (options : Options α) (text : String) : Option (Role α) :=
  let cs := text.toList
  match options.lookup text with
  | some o => some (.known o none)
  | none =>
    let (spelling, value) := splitValue cs
    match options.lookup (String.ofList spelling), value with
    | some o, some v => some (.known o (some v))
    | _, _ =>
      match candidates options cs with
      | [role] => some role
      | _ :: _ :: _ => none
      | [] => if isNumber (cs.drop 1) || cs.contains ' ' then some .operand else some .unknown

def roleOf {α : Type} (options : Options α) (text : String) : Option (Role α) :=
  match text.toList with
  | [] => some .operand
  | ['-'] => some .operand
  | c :: _ => if c = '-' then dashedRole options text else some .operand

theorem roleOf_of_head?_ne {α : Type} {options : Options α} {text : String}
    (h : text.toList.head? ≠ some '-') : roleOf options text = some .operand := by
  unfold roleOf
  split <;> simp_all

/-- The arguments with their roles, or nothing if one of them may mean several options. -/
def classify {α : Type} (options : Options α) : List String → Option (List (Argument α))
  | [] => some []
  | text :: rest =>
    if text = "--" then some (⟨text, .separator⟩ :: rest.map (fun s => ⟨s, .operand⟩))
    else do
      let role ← roleOf options text
      let arguments ← classify options rest
      return ⟨text, role⟩ :: arguments

end FontCodec.CommandLine
