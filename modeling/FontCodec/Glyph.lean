import FontCodec.Substitution.Table
import FontCodec.Text.Utf8

/-!
# Entries of a font

A glyph ties characters to the bytes that draw them. A composite ties a sequence of glyphs and
positioning codes to the text that a person would type for it. Each kind compiles into one
substitution for either direction. Both kinds are ordered by the length of one of their sides, longest
first, and entries of one length keep the order in which they were declared.
-/

namespace FontCodec

/-- The items by descending key. Each one goes behind those of larger keys only, so items of one key keep
their order. -/
def sortDescending {α : Type} (key : α → Nat) (items : List α) : List α :=
  items.foldr (fun item sorted =>
    sorted.takeWhile (key item < key ·) ++ item :: sorted.dropWhile (key item < key ·)) []

/-- Characters and the font bytes that draw them. -/
structure Glyph where
  chars : String
  raw : Bytes
  deriving DecidableEq, Repr

/-- A composed sequence on the game's side and its readable form. -/
structure Composite where
  game : String
  readable : String
  deriving DecidableEq, Repr

namespace Glyph

def toGame (g : Glyph) : Rule := ⟨utf8 g.chars, g.raw⟩

def toReadable (g : Glyph) : Rule := ⟨g.raw, utf8 g.chars⟩

/-- Glyphs by the length of their bytes, longest first. -/
def sorted (glyphs : List Glyph) : List Glyph := sortDescending (fun g => g.raw.length) glyphs

end Glyph

namespace Composite

def toGame (c : Composite) : Rule := ⟨utf8 c.readable, utf8 c.game⟩

def toReadable (c : Composite) : Rule := ⟨utf8 c.game, utf8 c.readable⟩

/-- Composites by the length of their UTF-8 form on the game's side, longest first. -/
def sorted (composites : List Composite) : List Composite :=
  sortDescending (fun c => (utf8 c.game).length) composites

end Composite

end FontCodec
