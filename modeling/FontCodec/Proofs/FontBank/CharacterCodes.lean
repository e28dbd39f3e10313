import FontCodec.Proofs.FontBank.GlyphStage
import FontCodec.Proofs.FontBank.Totality

/-!
# From the game and back through the glyphs

Where every byte past some bound is a glyph and the characters of glyphs can be told apart, looking up
the characters that a payload shows gives the payload again. Only a glyph whose name begins with a
byte that shows as itself can be spelled out by a payload.
-/

namespace FontCodec

namespace FontBank

variable {bank : FontBank} {pages : List UInt8} {name : Bytes}

def IsCode (bank : FontBank) (b : UInt8) : Prop := ∃ g ∈ bank.glyphs, g.raw = [b]

/-- What a bank needs for the characters of its glyphs to be looked up again. The name is the one that
a payload can spell out. -/
structure CharacterCodes (bank : FontBank) (pages : List UInt8) (name : Bytes) : Prop where
  paged : Paged pages bank.glyphs
  shown : ∀ g ∈ bank.glyphs, (∀ b ∈ utf8 g.chars, IsShown b) ∧ utf8 g.chars ≠ []
  apart : ∀ g ∈ bank.glyphs, ∀ g' ∈ bank.glyphs, utf8 g.chars <+: utf8 g'.chars → g' = g
  heads : ∀ g ∈ bank.glyphs, ∀ b ∈ (utf8 g.chars).head?, bank.IsCode b ∨ utf8 g.chars = name
  name : ∀ g ∈ bank.glyphs, ¬ BeginsIn (utf8 g.chars) name.tail
  ascii : bank.AsciiPassthrough
  backslash : bank.IsCode backslash

def characters (bank : FontBank) (payload : Bytes) : Bytes := bank.glyphsToReadable.apply payload

/-- No glyph begins where the glyph stage skips a byte that is a code. -/
theorem not_isCode_of_find?_eq_none {b : UInt8} {w : Bytes}
    (hf : bank.glyphsToReadable.find? (b :: w) = none) : ¬ bank.IsCode b := by
  rintro ⟨g, hg, hraw⟩
  have hm : g.toReadable ∈ bank.glyphsToReadable.rules := mem_rules_glyphsToReadable.2 ⟨g, hg, rfl⟩
  refine Substitution.find?_eq_none_iff.1 hf g.toReadable hm ?_ ?_
  · change g.raw ≠ []
    rw [hraw]
    exact List.cons_ne_nil b []
  · change g.raw <+: b :: w
    rw [hraw]
    exact List.prefix_append [b] w

theorem exists_glyph_of_find? {r : NumberedRule} {w : Bytes}
    (hf : bank.glyphsToReadable.find? w = some r) : ∃ g ∈ bank.glyphs, g.toReadable = r.1 := by
  exact mem_rules_glyphsToReadable.1 (Substitution.mem_rules_of_find? hf).1

namespace CharacterCodes

variable (h : bank.CharacterCodes pages name)
include h

theorem glyphsToGame_chars_append {g : Glyph} (hg : g ∈ bank.glyphs) (w : Bytes) :
    bank.glyphsToGame.apply (utf8 g.chars ++ w) = g.raw ++ bank.glyphsToGame.apply w :=
  Substitution.replace_item_append Glyph.toGame bank.glyphsToGame_eq hg (h.shown g hg).2
    (h.apart g hg) w

/-- No characters of a glyph begin at a byte that no glyph begins with, but for a name that the payload
spells out. -/
theorem find?_characters_eq_none {b : UInt8} {rest : Bytes}
    (hf : bank.glyphsToReadable.find? (b :: rest) = none) (hname : ¬ name <+: b :: rest) :
    bank.glyphsToGame.find? (b :: bank.characters rest) = none := by
  rw [Substitution.find?_eq_none_iff]
  intro rule hm _ hp
  obtain ⟨g, hg, rfl⟩ := mem_rules_glyphsToGame.1 hm
  change utf8 g.chars <+: _ at hp
  have hheads := h.heads g hg
  cases hchars : utf8 g.chars with
  | nil => exact (h.shown g hg).2 hchars
  | cons a tail =>
    rw [hchars, List.cons_prefix_cons] at hp
    obtain ⟨rfl, htail⟩ := hp
    rcases hheads a (by rw [hchars]; rfl) with hcode | hn
    · exact not_isCode_of_find?_eq_none hf hcode
    · rw [hchars] at hn
      -- the rest of the name was not made by a glyph
      have hout : ∀ rule ∈ bank.glyphsToReadable.rules, ¬ BeginsIn rule.output tail := by
        intro rule hm
        obtain ⟨g', hg', rfl⟩ := mem_rules_glyphsToReadable.1 hm
        have := h.name g' hg'
        rwa [← hn] at this
      have hpay := Substitution.prefix_of_prefix_apply hout htail
      refine hname ?_
      rw [← hn]
      exact List.cons_prefix_cons.2 ⟨rfl, hpay⟩

theorem glyphsToGame_characters {payload : Bytes} (hname : ¬ name <:+: payload) :
    bank.glyphsToGame.apply (bank.characters payload) = payload := by
  induction payload using Substitution.scan_induction bank.glyphsToReadable with
  | nil => rfl
  | hit r rest hf ih =>
    obtain ⟨g, hg, hr⟩ := exists_glyph_of_find? hf
    have hrest : ¬ name <:+: rest := fun hi => hname (hi.trans (List.suffix_append _ _).isInfix)
    rw [characters, Substitution.apply_hit hf, ← hr]
    change bank.glyphsToGame.apply (utf8 g.chars ++ bank.characters rest) = g.raw ++ rest
    rw [h.glyphsToGame_chars_append hg, ih hrest]
  | miss b rest hf ih =>
    have hrest : ¬ name <:+: rest := fun hi => hname (hi.trans (List.suffix_cons b rest).isInfix)
    have hskip := h.find?_characters_eq_none hf fun hp => hname hp.isInfix
    rw [characters, Substitution.apply_miss hf, ← characters, Substitution.apply_miss hskip, ih hrest]

theorem isInline_of_mem_chars {g : Glyph} (hg : g ∈ bank.glyphs) :
    ∀ x ∈ g.chars.toList.map Symbol.char, x.IsInline := by
  intro x hx
  obtain ⟨c, hc, rfl⟩ := List.mem_map.1 hx
  refine Symbol.isInline_of_shown fun b hb => (h.shown g hg).1 b ?_
  rw [utf8_eq_utf8Bytes]
  exact List.mem_flatMap.2 ⟨c, hc, hb⟩

/-- A byte without a glyph shows as a character if it passes through, and as a loose byte otherwise. -/
theorem exists_symbol_of_spell {b : UInt8} (hb : b ≠ FontCodec.backslash) (hn : b ≠ lineFeed)
    (ht : b ≠ tabulator) : ∃ x : Symbol, bank.spell b = x.spelled ∧ [b] = x.raw ∧ x.IsInline := by
  by_cases hs : bank.isPlain b.toNat ∨ isVerbatim b
  · have hlt := h.ascii.lt_of_passes hs
    refine ⟨.char (Char.ofNat b.toNat), ?_, ?_, Symbol.isInline_ofNat hlt hb hn ht⟩
    · rw [spell_of_passes hs, Symbol.spelled, utf8EncodeChar_ofNat hlt]
    · rw [Symbol.raw, utf8EncodeChar_ofNat hlt]
  · exact ⟨.byte b, spell_of_hidden hs, rfl, trivial⟩

/-- A payload without line codes shows as characters that can be escaped and resolved again. -/
theorem exists_symbols {payload : Bytes} (hline : lineFeed ∉ payload) (htab : tabulator ∉ payload) :
    ∃ xs : List Symbol, bank.glyphText payload = xs.flatMap Symbol.spelled ∧
      bank.characters payload = xs.flatMap Symbol.raw ∧
      ∀ x ∈ xs, x.IsInline := by
  unfold glyphText characters
  induction payload using Substitution.scan_induction bank.glyphsToReadable with
  | nil => exact ⟨[], rfl, rfl, by simp⟩
  | hit r rest hf ih =>
    obtain ⟨g, hg, hr⟩ := exists_glyph_of_find? hf
    obtain ⟨xs, hspelled, hraw, hxs⟩ := ih (fun hm => hline (by simp [hm]))
      (fun hm => htab (by simp [hm]))
    have hout : r.1.output = utf8Bytes g.chars.toList := by
      rw [← hr, ← utf8_eq_utf8Bytes]
      rfl
    refine ⟨g.chars.toList.map Symbol.char ++ xs, ?_, ?_, ?_⟩
    · rw [Substitution.replace_hit hf, hspelled, hout, List.flatMap_append,
        Symbol.flatMap_spelled_map_char]
    · rw [Substitution.apply_hit hf, hraw, hout, List.flatMap_append, Symbol.flatMap_raw_map_char]
    · exact List.forall_mem_append.2 ⟨h.isInline_of_mem_chars hg, hxs⟩
  | miss b rest hf ih =>
    obtain ⟨xs, hspelled, hraw, hxs⟩ := ih (fun hm => hline (by simp [hm]))
      (fun hm => htab (by simp [hm]))
    have hcode := not_isCode_of_find?_eq_none hf
    have hb : b ≠ FontCodec.backslash := fun heq => hcode (heq ▸ h.backslash)
    have hn : b ≠ lineFeed := fun heq => hline (by simp [heq])
    have ht : b ≠ tabulator := fun heq => htab (by simp [heq])
    obtain ⟨x, hxspelled, hxraw, hx⟩ := h.exists_symbol_of_spell hb hn ht
    refine ⟨x :: xs, ?_, ?_, List.forall_mem_cons.2 ⟨hx, hxs⟩⟩
    · rw [Substitution.replace_of_find?_eq_none hf, hspelled, hxspelled, List.flatMap_cons]
    · rw [Substitution.apply_miss hf, hraw, List.flatMap_cons, ← hxraw]
      rfl

end CharacterCodes

end FontBank

end FontCodec
