import FontCodec.Proofs.FontBank.Tables
import Mathlib.Data.List.Nodup

/-!
# Glyph codes on pages

A glyph has one byte, or a page byte and one more. No code opens another, so the glyph stage reads codes
one after the other.
-/

namespace FontCodec

/-- A code of one byte that is no page, or of a page and one more byte. -/
def OnPages (pages : List UInt8) : Bytes → Prop
  | [a] => a ∉ pages
  | [a, _] => a ∈ pages
  | _ => False

instance (pages : List UInt8) : (raw : Bytes) → Decidable (OnPages pages raw)
  | [] => inferInstanceAs (Decidable False)
  | [a] => inferInstanceAs (Decidable (a ∉ pages))
  | [a, _] => inferInstanceAs (Decidable (a ∈ pages))
  | _ :: _ :: _ :: _ => inferInstanceAs (Decidable False)

theorem OnPages.eq_of_opens {pages : List UInt8} {r s : Bytes} (hr : OnPages pages r)
    (hs : OnPages pages s) (h : r <+: s) : r = s := by
  match r, hr with
  | [a], hr =>
    match s, hs with
    | [b], _ => exact h.eq_of_length rfl
    | [b, _], hs => exact absurd hs ((List.cons_prefix_cons.1 h).1 ▸ hr)
  | [a, b], _ =>
    match s, hs with
    | [c], _ => exact absurd h.length_le (by simp)
    | [c, d], _ => exact h.eq_of_length rfl

/-- The bytes of a code as one number, with a mark in front that keeps leading zeros apart. -/
def codeNumber (raw : Bytes) : Nat := raw.foldl (fun n b => 256 * n + b.toNat) 1

/-- Glyphs on the given pages, none of whose codes opens another one. -/
structure Paged (pages : List UInt8) (glyphs : List Glyph) : Prop where
  onPages : ∀ g ∈ glyphs, OnPages pages g.raw
  apart : ∀ g ∈ glyphs, ∀ g' ∈ glyphs, g.raw <+: g'.raw → g' = g

namespace Paged

variable {pages : List UInt8} {glyphs : List Glyph}

theorem of_nodup (h : ∀ g ∈ glyphs, OnPages pages g.raw)
    (hnodup : (glyphs.map fun g => codeNumber g.raw).Nodup) : Paged pages glyphs where
  onPages := h
  apart g hg g' hg' hp :=
    List.inj_on_of_nodup_map hnodup hg' hg
      (congrArg codeNumber ((h g hg).eq_of_opens (h g' hg') hp).symm)

theorem raw_ne_nil (h : Paged pages glyphs) {g : Glyph} (hg : g ∈ glyphs) : g.raw ≠ [] := by
  intro hnil
  have := h.onPages g hg
  rw [hnil] at this
  exact this

end Paged

namespace FontBank

variable {bank : FontBank} {pages : List UInt8}

theorem glyphText_raw_append (h : Paged pages bank.glyphs) {g : Glyph} (hg : g ∈ bank.glyphs)
    (w : Bytes) : bank.glyphText (g.raw ++ w) = utf8 g.chars ++ bank.glyphText w :=
  Substitution.replace_item_append Glyph.toReadable bank.glyphsToReadable_eq hg (h.raw_ne_nil hg)
    (h.apart g hg) w

/-- The first byte of no glyph. -/
def IsFree (bank : FontBank) (b : UInt8) : Prop := ∀ g ∈ bank.glyphs, g.raw.head? ≠ some b

instance (b : UInt8) : Decidable (bank.IsFree b) :=
  inferInstanceAs (Decidable (∀ g ∈ bank.glyphs, g.raw.head? ≠ some b))

theorem glyphText_free_cons {b : UInt8} (h : bank.IsFree b) (w : Bytes) :
    bank.glyphText (b :: w) = bank.spell b ++ bank.glyphText w := by
  refine Substitution.replace_of_find?_eq_none (Substitution.find?_cons_eq_none (fun rule hm => ?_) w)
  obtain ⟨g, hg, rfl⟩ := mem_rules_glyphsToReadable.1 hm
  exact h g hg

end FontBank

end FontCodec
