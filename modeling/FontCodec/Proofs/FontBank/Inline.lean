import FontCodec.Proofs.FontBank.CharacterCodes
import FontCodec.Proofs.Text.Quotes

/-!
# Readable text on one line between quotes

The glyph stage lets only line feeds and tabs through below the space, and escaping spells both out. It
also puts a backslash in front of every quote, and joining composites leaves it there. No second backslash
can stand before that one if a backslash of the payload is a glyph, or if pairs are joined.
-/

namespace FontCodec

theorem space_le_of_mem_byteEscape {a b : UInt8} (ha : a ∈ byteEscape b) : 0x20 ≤ a := by
  rcases mem_byteEscape ha with rfl | rfl | hex
  · decide
  · decide
  · unfold IsHexDigit at hex
    grind

theorem space_le_of_mem_escapeByte {a b : UInt8} {rest : Bytes}
    (ha : 0x20 ≤ a ∨ a = lineFeed ∨ a = tabulator) (hb : b ∈ escapeByte a rest) : 0x20 ≤ b := by
  unfold escapeByte at hb
  grind [backslash, quoteMark, asciiByte]

theorem space_le_of_mem_escape {bytes : Bytes}
    (h : ∀ b ∈ bytes, 0x20 ≤ b ∨ b = lineFeed ∨ b = tabulator) : ∀ b ∈ escape bytes, 0x20 ≤ b := by
  induction bytes with
  | nil => simp [escape]
  | cons a rest ih =>
    rw [List.forall_mem_cons] at h
    intro b hb
    rcases List.mem_append.1 hb with hb | hb
    · exact space_le_of_mem_escapeByte h.1 hb
    · exact ih h.2 b hb

theorem space_le_of_mem_utf8 {text : String} (h : ∀ b ∈ utf8 text, 0x20 ≤ b) :
    ∀ c ∈ text.toList, 0x20 ≤ c.toNat := by
  intro c hc
  by_contra hlt
  have hlt : c.toNat < 0x20 := Nat.not_le.1 hlt
  have hmem : UInt8.ofNat c.toNat ∈ utf8 text := by
    rw [utf8_eq_flatMap, List.mem_flatMap]
    exact ⟨c, hc, by simp [utf8EncodeChar_of_lt (show c.toNat < 128 by omega)]⟩
  have hle : 0x20 ≤ (UInt8.ofNat c.toNat).toNat := UInt8.le_iff_toNat_le.1 (h _ hmem)
  rw [UInt8.toNat_ofNat'] at hle
  omega

namespace FontBank

variable {bank : FontBank}

/-- What the tables of a bank need for readable text to stay on one line between quotes. -/
structure InlineTables (bank : FontBank) : Prop where
  ascii : bank.AsciiPassthrough
  charsShown : ∀ g ∈ bank.glyphs, ∀ b ∈ utf8 g.chars, IsShown b
  plainShown : ∀ b : UInt8, bank.isPlain b.toNat → 0x20 ≤ b
  joins : bank.compositesToReadable.KeepsQuotes
  codes : ∀ rule ∈ bank.compositesToReadable.rules, rule.pattern.head? ≠ some byteCode
  single : bank.compositesToReadable.TakesPairs ∨ bank.IsCode backslash

theorem backslashesCoded_spell {b : UInt8} (hb : b ≠ backslash) : BackslashesCoded (bank.spell b) := by
  by_cases hpass : bank.isPlain b.toNat ∨ isVerbatim b
  · rw [spell_of_passes hpass]
    exact backslashesCoded_of_not_mem (by simpa using hb.symm)
  · rw [spell_of_hidden hpass]
    exact backslashesCoded_byteEscape b

namespace InlineTables

variable (h : bank.InlineTables)
include h

theorem mem_spell {a b : UInt8} (hb : b ∈ bank.spell a) : 0x20 ≤ b ∨ b = lineFeed ∨ b = tabulator := by
  by_cases hpass : bank.isPlain a.toNat ∨ isVerbatim a
  · rw [spell_of_passes hpass, List.mem_singleton] at hb
    subst hb
    rcases hpass with hplain | hverbatim
    · exact .inl (h.plainShown b hplain)
    · rcases isVerbatim_iff.1 hverbatim with rfl | hn | ht | rfl
      · exact .inl (by decide)
      · exact .inr (.inl hn)
      · exact .inr (.inr ht)
      · exact .inl (by decide)
  · rw [spell_of_hidden hpass] at hb
    exact .inl (space_le_of_mem_byteEscape hb)

theorem mem_glyphText {payload : Bytes} {b : UInt8} (hb : b ∈ bank.glyphText payload) :
    0x20 ≤ b ∨ b = lineFeed ∨ b = tabulator := by
  rcases Substitution.mem_replace hb with ⟨a, -, hb⟩ | ⟨rule, hm, hb⟩
  · exact h.mem_spell hb
  · obtain ⟨g, hg, rfl⟩ := mem_rules_glyphsToReadable.1 hm
    exact .inl (h.charsShown g hg b hb).1

theorem space_le_readableBytes (payload : Bytes) : ∀ b ∈ bank.readableBytes payload, 0x20 ≤ b := by
  intro b hb
  rcases Substitution.mem_apply hb with hb | ⟨rule, hm, hb⟩
  · refine space_le_of_mem_escape (fun a ha => ?_) b hb
    rcases Substitution.mem_apply ha with ha | ⟨rule, hm, ha⟩
    · exact h.mem_glyphText ha
    · exact .inl ((h.joins.shown rule hm).2 a ha).1
  · exact ((h.joins.shown rule hm).2 b hb).1

theorem quotesEscaped_readableBytes (payload : Bytes) : QuotesEscaped false (bank.readableBytes payload) :=
  h.joins.quotesEscaped_apply (by simp) (quotesEscaped_escape _)

/-- Where the backslash is a glyph, the glyph stage writes backslashes only to spell other bytes. -/
theorem backslashesCoded_glyphText (hcode : bank.IsCode backslash) (payload : Bytes) :
    BackslashesCoded (bank.glyphText payload) := by
  unfold glyphText
  induction payload using Substitution.scan_induction bank.glyphsToReadable with
  | nil => trivial
  | hit r rest hf ih =>
    obtain ⟨g, hg, hr⟩ := exists_glyph_of_find? hf
    have hback : backslash ∉ r.1.output := by
      rw [← hr]
      exact fun hm => (h.charsShown g hg _ hm).2 (.inl rfl)
    rw [Substitution.replace_hit hf]
    exact (backslashesCoded_of_not_mem hback).append ih
  | miss b rest hf ih =>
    have hb : b ≠ backslash := by
      rintro rfl
      exact not_isCode_of_find?_eq_none hf hcode
    rw [Substitution.replace_of_find?_eq_none hf]
    exact (backslashesCoded_spell hb).append ih

theorem not_pair_infix_readableBytes (payload : Bytes) :
    ¬ [backslash, backslash] <:+: bank.readableBytes payload := by
  refine h.joins.not_pair_infix_apply (h.single.imp_right fun hcode => ?_)
  exact (h.joins.backslashesCoded_apply h.codes
    (h.backslashesCoded_glyphText hcode payload)).not_pair_infix_escape

end InlineTables

end FontBank

end FontCodec
