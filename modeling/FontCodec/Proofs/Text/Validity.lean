import FontCodec.Proofs.Text.EscapeSyntax

/-!
# Passes that keep UTF-8 valid

Both the substitutions of texts and the escaping pass read bytes, yet from a text they make a text.
-/

namespace FontCodec

open String (utf8EncodeChar)

def IsText (bytes : Bytes) : Prop := ∃ chars, bytes = utf8Bytes chars

theorem isText_nil : IsText [] := ⟨[], rfl⟩

theorem isText_utf8 (text : String) : IsText (utf8 text) := ⟨text.toList, utf8_eq_utf8Bytes text⟩

theorem IsText.append {a b : Bytes} (ha : IsText a) (hb : IsText b) : IsText (a ++ b) := by
  obtain ⟨x, rfl⟩ := ha
  obtain ⟨y, rfl⟩ := hb
  exact ⟨x ++ y, (utf8Bytes_append x y).symm⟩

theorem IsText.exists_utf8 {bytes : Bytes} (h : IsText bytes) : ∃ text, bytes = utf8 text := by
  obtain ⟨chars, rfl⟩ := h
  exact ⟨String.ofList chars, (utf8_ofList chars).symm⟩

theorem isText_of_ascii {bytes : Bytes} (h : ∀ b ∈ bytes, b < 128) : IsText bytes := by
  induction bytes with
  | nil => exact isText_nil
  | cons b bytes ih =>
    have hb : IsText [b] := ⟨[Char.ofNat b.toNat], by simp [utf8EncodeChar_ofNat (h b (by simp))]⟩
    exact hb.append (ih fun x hx => h x (by simp [hx]))

theorem IsHexDigit.lt {b : UInt8} (h : IsHexDigit b) : b < 128 := by
  unfold IsHexDigit at h
  grind

theorem isText_byteEscape (b : UInt8) : IsText (byteEscape b) := by
  refine isText_of_ascii fun a ha => ?_
  rcases mem_byteEscape ha with rfl | rfl | hex
  · decide
  · decide
  · exact hex.lt

/-- A table of texts that puts texts in their place makes a text from a text. -/
theorem isText_apply {s : Substitution} (h : s.OfTexts) (hout : ∀ rule ∈ s.rules, IsText rule.output)
    {bytes : Bytes} (hb : IsText bytes) : IsText (s.apply bytes) := by
  obtain ⟨chars, rfl⟩ := hb
  induction chars using Substitution.text_induction h with
  | nil => exact isText_nil
  | hit r p rest hp hf ih =>
    have hm := (Substitution.mem_rules_of_find? hf).1
    rw [utf8Bytes_append, ← hp, Substitution.apply_hit hf]
    exact (hout r.1 hm).append ih
  | miss c rest hf ih =>
    rw [utf8Bytes_cons, Substitution.apply_char h hf]
    exact IsText.append ⟨[c], by simp⟩ ih

theorem escapeByte_lt {b : UInt8} (hb : b < 128) (rest : Bytes) :
    ∀ x ∈ escapeByte b rest, x < 128 := by
  intro x hx
  unfold escapeByte at hx
  grind [backslash, quoteMark, asciiByte]

theorem isText_escape {bytes : Bytes} (h : IsText bytes) : IsText (escape bytes) := by
  obtain ⟨chars, rfl⟩ := h
  induction chars with
  | nil => exact isText_nil
  | cons c chars ih =>
    rw [utf8Bytes_cons]
    rcases utf8EncodeChar_cases c with ⟨b, hb, he⟩ | hge
    · rw [he, List.singleton_append, escape]
      exact (isText_of_ascii (escapeByte_lt hb _)).append ih
    · have hplain : ∀ b ∈ utf8EncodeChar c, ¬ IsSpecial b := by
        intro b hb hs
        have h128 := hge b hb
        rcases hs with rfl | rfl | rfl | rfl <;> exact absurd h128 (by decide)
      rw [escape_append_of_not_special hplain]
      exact IsText.append ⟨[c], by simp⟩ ih

end FontCodec
