import FontCodec.Proofs.BuiltIn.Tables

/-!
# Bytes without a glyph in the built-in banks

In the fonts of the first game the spelling of such a byte always shows up intact. The font of the second
game has a pair of backslashes and lower-case letters with accents among its composed sequences,
and these can take a part of a spelling.
-/

namespace FontCodec.BuiltIn

/-- The spelling of a byte without a glyph shows up intact between the texts of its neighbours exactly
if it does not merge with them. -/
theorem decode_fallback_iff (v : Version) (p q : Bytes) (b : UInt8) (hfree : (bank v).IsFree b)
    (hplain : ¬ (bank v).isPlain b.toNat) (hb : b ≠ backslash)
    (hp : ∀ g ∈ (bank v).glyphs, g.raw.length = 2 → p.getLast? ≠ g.raw.head?) :
    ∃ x y z, (bank v).decode p false = .ok x ∧ (bank v).decode q false = .ok y ∧
      (bank v).decode (p ++ b :: q) false = .ok z ∧
      (z = x ++ fallback b ++ y ↔ ¬ (bank v).Merges p b q) :=
  (fallbackTables v).decode_append_iff hfree hplain hb hp q

theorem decode_fallback_between_letters :
    ∃ x y z, (bank .jak1V1).decode [0x48] false = .ok x ∧ (bank .jak1V1).decode [0x49] false = .ok y ∧
      (bank .jak1V1).decode [0x48, 0x00, 0x49] false = .ok z ∧
      (z = x ++ fallback 0 ++ y ↔ ¬ (bank .jak1V1).Merges [0x48] 0 [0x49]) := by
  have hletter : ∀ g ∈ (bank .jak1V1).glyphs, g.raw.head? ≠ some 0x48 :=
    FontTables.isFree_bank (by decide +kernel)
  exact decode_fallback_iff .jak1V1 [0x48] [0x49] 0 (FontTables.isFree_bank (by decide +kernel))
    (by decide +kernel) (by decide) fun g hg _ => (hletter g hg).symm

theorem jak1_heads : ∀ c ∈ Jak1.composites, utf8 c.game ≠ [backslash, backslash] ∧
    (utf8 c.game).head?.all (¬ IsFallbackEnd ·) := by decide +kernel

/-- No spelling merges in a font of the first game. -/
theorem not_merges_of_ne_jak2 {v : Version} (hv : v ≠ .jak2) (p : Bytes) (b : UInt8) (q : Bytes) :
    ¬ (bank v).Merges p b q := by
  have hmem : ∀ c ∈ (bank v).composites, c ∈ Jak1.composites := by
    intro c hc
    rw [bank_eq, FontTables.mem_composites_bank] at hc
    cases v with
    | jak1V1 => exact hc
    | jak1V2 => exact hc
    | jak2 => exact absurd rfl hv
  rintro (⟨-, ⟨c, hc, hgame⟩, -⟩ | ⟨y, hy, c, hc, tail, he, -⟩)
  · exact (jak1_heads c (hmem c hc)).1 hgame
  · have hhead := (jak1_heads c (hmem c hc)).2
    rw [he] at hhead
    exact absurd (FontBank.isFallbackEnd_of_getLast? hy) (by simpa using hhead)

theorem jak2_hasPair : (bank .jak2).HasPair := by
  have hm : ⟨"\\\\", "~%"⟩ ∈ (bank .jak2).composites :=
    FontTables.mem_composites_bank.2 (by simp [tables, Jak2.composites, Jak2.symbols])
  exact ⟨_, hm, by decide⟩

/-- A zero behind a backslash loses the backslash of its escape. -/
theorem decode_backslash_zero :
    (bank .jak2).IsFree 0 ∧ ¬ (bank .jak2).isPlain 0 ∧
      (∀ g ∈ (bank .jak2).glyphs, g.raw.length = 2 → [backslash].getLast? ≠ g.raw.head?) ∧
      (bank .jak2).decode [backslash] false = .ok "~%" ∧ (bank .jak2).decode [] false = .ok "" ∧
      (bank .jak2).decode ([backslash] ++ 0 :: []) false = .ok "~%c00" ∧
      "~%c00" ≠ "~%" ++ fallback 0 ++ "" := by
  have h := fallbackTables .jak2
  have hfree : (bank .jak2).IsFree 0 := FontTables.isFree_bank (by decide +kernel)
  have hback : (bank .jak2).IsFree backslash := FontTables.isFree_bank (by decide +kernel)
  have hpage : ∀ g ∈ (bank .jak2).glyphs, g.raw.length = 2 → [backslash].getLast? ≠ g.raw.head? :=
    fun g hg _ => (hback g hg).symm
  have hplain : ¬ (bank .jak2).isPlain 0 := by decide +kernel
  have hback' : (bank .jak2).spell backslash = [backslash] := FontBank.spell_of_passes (.inr rfl)
  have hzero : (bank .jak2).spell 0 = byteEscape 0 :=
    FontBank.spell_of_hidden (not_or.2 ⟨hplain, by decide⟩)
  have hspell : (bank .jak2).glyphText [backslash] = [backslash] := by
    rw [FontBank.glyphText_free_cons hback, hback']
    simp [FontBank.glyphText]
  have hsingle : (bank .jak2).finish [backslash] = utf8 "~%" := by
    have heq := h.finish_append_backslash jak2_hasPair (show endsOdd [] = false from rfl)
    have hnil : (bank .jak2).finish [] = [] := by simp [FontBank.finish, escape]
    rw [List.nil_append, hnil] at heq
    rw [heq]
    decide
  have hdigits : (bank .jak2).finish [0x30, 0x30] = [0x30, 0x30] := by
    have hcopy : (bank .jak2).compositesToReadable.apply [0x30, 0x30] = [0x30, 0x30] := by
      rw [h.apply_cons_of_end (by decide) (by decide), h.apply_cons_of_end (by decide) (by decide)]
      rfl
    have hescape : escape [0x30, 0x30] = [0x30, 0x30] := by decide
    rw [FontBank.finish, hcopy, hescape, hcopy]
  have hboth : (bank .jak2).readableBytes ([backslash] ++ 0 :: []) = utf8 "~%c00" := by
    have heq := h.finish_byteEscape_odd jak2_hasPair (show endsOdd [backslash] = true from rfl)
      (show byteEscape 0 = [backslash, byteCode, 0x30, 0x30] by decide) []
    have hempty : (bank .jak2).glyphText [] = [] := by simp [FontBank.glyphText]
    rw [FontBank.readableBytes_eq_finish, h.glyphText_append_cons hfree hpage, hspell, hzero, hempty,
      heq, hsingle, hdigits]
    decide
  have hone : (bank .jak2).readableBytes [backslash] = utf8 "~%" := by
    rw [FontBank.readableBytes_eq_finish, hspell, hsingle]
  have hnone : (bank .jak2).readableBytes [] = utf8 "" := by
    simp [FontBank.readableBytes, FontBank.glyphText, escape, utf8]
  exact ⟨hfree, hplain, hpage, FontBank.decode_eq_ok_of_utf8 hone,
    FontBank.decode_eq_ok_of_utf8 hnone, FontBank.decode_eq_ok_of_utf8 hboth, by decide⟩

end FontCodec.BuiltIn
