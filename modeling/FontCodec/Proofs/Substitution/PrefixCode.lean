import FontCodec.Glyph
import FontCodec.Proofs.Substitution.Scan
import Mathlib.Data.List.Nodup
import Mathlib.Tactic.MkIffOfInductiveProp

/-!
# Tables that read words in a row

If no pattern opens another one, the longest match never runs over the end of a word, and a table
replaces words in a row one by one. So the two directions of a font's entries undo each other.
-/

namespace FontCodec

/-- Words that are not empty, all different, and none of which is a proper beginning of another one. -/
@[mk_iff]
structure PrefixCode (words : List Bytes) : Prop where
  nonempty : ∀ word ∈ words, word ≠ []
  nodup : words.Nodup
  eq_of_prefix : ∀ a ∈ words, ∀ b ∈ words, a <+: b → a = b

instance (words : List Bytes) : Decidable (PrefixCode words) :=
  decidable_of_iff _ (prefixCode_iff words).symm

namespace Substitution

variable {α : Type} {items sequence : List α}

/-- A table made from items replaces what stands on one side of items in a row by what stands on the
other side, if what it looks for opens no other item's. -/
theorem apply_flatMap_of_alone {s : Substitution} {toRule : α → Rule} (hs : s = ofRules (items.map toRule))
    (hsequence : ∀ item ∈ sequence, item ∈ items ∧ (toRule item).pattern ≠ [] ∧
      ∀ other ∈ items, (toRule item).pattern <+: (toRule other).pattern → other = item) :
    s.apply (sequence.flatMap fun item => (toRule item).pattern) =
      sequence.flatMap fun item => (toRule item).output := by
  induction sequence with
  | nil => rfl
  | cons item sequence ih =>
    obtain ⟨⟨hm, hne, halone⟩, hrest⟩ := List.forall_mem_cons.1 hsequence
    rw [List.flatMap_cons, List.flatMap_cons, ← ih hrest]
    exact replace_item_append toRule hs hm hne halone _

theorem apply_flatMap_of_prefixCode (toRule : α → Rule)
    (h : PrefixCode (items.map fun item => (toRule item).pattern))
    (hsequence : ∀ item ∈ sequence, item ∈ items) :
    (ofRules (items.map toRule)).apply (sequence.flatMap fun item => (toRule item).pattern) =
      sequence.flatMap fun item => (toRule item).output := by
  have hword : ∀ item ∈ items, (toRule item).pattern ∈ items.map fun item => (toRule item).pattern :=
    fun item hm => List.mem_map_of_mem hm
  refine apply_flatMap_of_alone rfl fun item hi => ?_
  have hm : item ∈ items := hsequence item hi
  refine ⟨hm, h.nonempty _ (hword item hm), fun other ho hp => ?_⟩
  have heq := h.eq_of_prefix _ (hword item hm) _ (hword other ho) hp
  exact List.inj_on_of_nodup_map h.nodup ho hm heq.symm

/-- The two directions of glyphs whose sides are prefix codes undo each other on glyphs in a row, and so do
those of composites. -/
theorem apply_entries_in_a_row :
    (∀ glyphs : List Glyph, PrefixCode (glyphs.map fun g => utf8 g.chars) →
      PrefixCode (glyphs.map Glyph.raw) → ∀ sequence : List Glyph, (∀ g ∈ sequence, g ∈ glyphs) →
        (ofRules (glyphs.map Glyph.toGame)).apply (sequence.flatMap fun g => utf8 g.chars) =
          sequence.flatMap Glyph.raw ∧
        (ofRules (glyphs.map Glyph.toReadable)).apply (sequence.flatMap Glyph.raw) =
          sequence.flatMap fun g => utf8 g.chars) ∧
    (∀ composites : List Composite, PrefixCode (composites.map fun c => utf8 c.game) →
      PrefixCode (composites.map fun c => utf8 c.readable) →
      ∀ sequence : List Composite, (∀ c ∈ sequence, c ∈ composites) →
        (ofRules (composites.map Composite.toGame)).apply
            (sequence.flatMap fun c => utf8 c.readable) = sequence.flatMap (fun c => utf8 c.game) ∧
        (ofRules (composites.map Composite.toReadable)).apply
            (sequence.flatMap fun c => utf8 c.game) = sequence.flatMap fun c => utf8 c.readable) := by
  refine ⟨fun glyphs hchars hraws sequence hsequence => ⟨?_, ?_⟩,
    fun composites hgames hreadables sequence hsequence => ⟨?_, ?_⟩⟩
  · exact apply_flatMap_of_prefixCode Glyph.toGame hchars hsequence
  · exact apply_flatMap_of_prefixCode Glyph.toReadable hraws hsequence
  · exact apply_flatMap_of_prefixCode Composite.toGame hreadables hsequence
  · exact apply_flatMap_of_prefixCode Composite.toReadable hgames hsequence

/-- Two glyphs that share the first byte on either side. -/
def accented : List Glyph := [⟨"é", [0x01, 0x10]⟩, ⟨"ê", [0x01, 0x11]⟩]

/-- Two sequences that share the letter they begin with. -/
def composed : List Composite := [⟨"a~1", "á"⟩, ⟨"a~2", "à"⟩]

theorem apply_accented_in_a_row :
    PrefixCode (accented.map fun g => utf8 g.chars) ∧ PrefixCode (accented.map Glyph.raw) ∧
      (ofRules (accented.map Glyph.toGame)).apply (utf8 "ê" ++ utf8 "é" ++ utf8 "ê") =
        [0x01, 0x11, 0x01, 0x10, 0x01, 0x11] ∧
      PrefixCode (composed.map fun c => utf8 c.game) ∧
      PrefixCode (composed.map fun c => utf8 c.readable) ∧
      (ofRules (composed.map Composite.toReadable)).apply (utf8 "a~2" ++ utf8 "a~1") =
        utf8 "à" ++ utf8 "á" := by
  have hchars : PrefixCode (accented.map fun g => utf8 g.chars) := by decide +kernel
  have hraws : PrefixCode (accented.map Glyph.raw) := by decide
  have hgames : PrefixCode (composed.map fun c => utf8 c.game) := by decide +kernel
  have hreadables : PrefixCode (composed.map fun c => utf8 c.readable) := by decide +kernel
  have hglyphs := apply_entries_in_a_row.1 accented hchars hraws
    [⟨"ê", [0x01, 0x11]⟩, ⟨"é", [0x01, 0x10]⟩, ⟨"ê", [0x01, 0x11]⟩] (by simp [accented])
  have hcomposites := apply_entries_in_a_row.2 composed hgames hreadables
    [⟨"a~2", "à"⟩, ⟨"a~1", "á"⟩] (by simp [composed])
  exact ⟨hchars, hraws, by simpa using hglyphs.1, hgames, hreadables, by simpa using hcomposites.2⟩

end Substitution

end FontCodec
