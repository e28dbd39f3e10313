import FontCodec.BuiltIn.Jak1
import FontCodec.BuiltIn.Jak2
import FontCodec.FontTables

/-!
# The built-in font banks

One bank for each version, chosen by the version or by its name.
-/

namespace FontCodec.BuiltIn

def tables : Version → FontTables
  | .jak1V1 => ⟨.jak1V1, Jak1.glyphsV1, Jak1.composites, asciiCodes Jak1.passthrough⟩
  | .jak1V2 => ⟨.jak1V2, Jak1.glyphsV2, Jak1.composites, asciiCodes Jak1.passthrough⟩
  | .jak2 => ⟨.jak2, Jak2.glyphs, Jak2.composites, asciiCodes Jak2.passthrough⟩

theorem version_tables (v : Version) : (tables v).version = v := by cases v <;> rfl

/-- The name under which messages mention the tables of a version. -/
def source (v : Version) : String := "<builtin " ++ v.name ++ ">"

def jak1V1 : FontBank := (tables .jak1V1).bank
def jak1V2 : FontBank := (tables .jak1V2).bank
def jak2 : FontBank := (tables .jak2).bank

def bank : Version → FontBank
  | .jak1V1 => jak1V1
  | .jak1V2 => jak1V2
  | .jak2 => jak2

theorem bank_eq (v : Version) : bank v = (tables v).bank := by cases v <;> rfl

theorem version_bank (v : Version) : (bank v).version = v := by
  rw [bank_eq, FontTables.version_bank, version_tables]

/-- The bank of a version or of a version's name. -/
def find (s : Selector) : Except VersionError FontBank := s.resolve.map bank

/-- The bank of a version; names do not count. -/
def load (s : Selector) : Except VersionError FontBank := s.member.map bank

def contains (s : Selector) : Except VersionError Bool := s.isMember

end FontCodec.BuiltIn
