import FontCodec.Document.Literal

/-!
# Font versions

The game releases use three font encodings. A version is named by text in files and on the
command line; callers may also hand in the version itself, or any other value by mistake.
-/

namespace FontCodec

inductive Version where
  | jak1V1
  | jak1V2
  | jak2
  deriving DecidableEq, Repr

namespace Version

def all : List Version := [.jak1V1, .jak1V2, .jak2]

def name : Version → String
  | .jak1V1 => "jak1-v1"
  | .jak1V2 => "jak1-v2"
  | .jak2 => "jak2"

def names : List String := all.map name

def ofName? (text : String) : Option Version := all.find? (fun v => v.name = text)

theorem mem_all (v : Version) : v ∈ all := by cases v <;> decide

theorem ofName?_name (v : Version) : ofName? v.name = some v := by cases v <;> decide

theorem ofName?_eq_some_iff {text : String} {v : Version} :
    ofName? text = some v ↔ v.name = text := by
  constructor
  · intro h
    simpa using List.find?_some h
  · rintro rfl
    exact ofName?_name v

end Version

/-- What a caller hands in to choose a version. -/
inductive Selector where
  | version (v : Version)
  | value (v : Value)

/-- Why no version was chosen. -/
inductive VersionError where
  | unknownName (value : Value)
  /-- The value is neither a version nor a name. -/
  | notAVersion (value : Value)
  /-- A container cannot be looked up. -/
  | notAKey (value : Value)

def VersionError.message : VersionError → String
  | .unknownName v => "unknown text version " ++ v.shown
  | .notAVersion v => "invalid text version " ++ v.literal
  | .notAKey v => "unhashable type: '" ++ v.kindName ++ "'"

def Value.isKey : Value → Bool
  | .array _ => false
  | .table _ => false
  | _ => true

namespace Version

def ofNameValue : Value → Except VersionError Version
  | .string text =>
    match ofName? text with
    | some v => .ok v
    | none => .error (.unknownName (.string text))
  | v => if v.isKey then .error (.unknownName v) else .error (.notAKey v)

end Version

namespace Selector

/-- The version itself; a name does not count. -/
def member : Selector → Except VersionError Version
  | .version v => .ok v
  | .value v => .error (.notAVersion v)

/-- The version itself or the version of that name. -/
def resolve : Selector → Except VersionError Version
  | .value (.string text) => Version.ofNameValue (.string text)
  | s => s.member

def isMember : Selector → Except VersionError Bool
  | .version _ => .ok true
  | .value v => if v.isKey then .ok false else .error (.notAKey v)

end Selector

end FontCodec
