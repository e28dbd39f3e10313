import FontCodec.FontBank

/-!
# Font tables

The tables of a bank as they are declared: the version, the entries in their order and the codes
that pass. A bank is built from them.
-/

namespace FontCodec

structure FontTables where
  version : Version
  glyphs : List Glyph
  composites : List Composite
  /-- The codes that may stand unescaped beside digits and letters. -/
  passthrough : IntSet

def asciiCodes (text : String) : IntSet := .ofList (text.toList.map (fun c => (c.toNat : Int)))

theorem mem_asciiCodes (text : String) (n : Int) :
    n ∈ asciiCodes text ↔ ∃ c ∈ text.toList, (c.toNat : Int) = n := by
  simp [asciiCodes, IntSet.mem_ofList]

namespace FontTables

def bank (tables : FontTables) : FontBank :=
  .build tables.version tables.glyphs tables.composites tables.passthrough

theorem version_bank (tables : FontTables) : tables.bank.version = tables.version := rfl

theorem passthrough_bank (tables : FontTables) : tables.bank.passthrough = tables.passthrough := rfl

theorem glyphs_bank (tables : FontTables) : tables.bank.glyphs = Glyph.sorted tables.glyphs := rfl

theorem composites_bank (tables : FontTables) :
    tables.bank.composites = Composite.sorted tables.composites := rfl

end FontTables

end FontCodec
