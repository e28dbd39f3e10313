import FontCodec.Proofs.BuiltIn.ByteSpelling
import FontCodec.Proofs.BuiltIn.PayloadRoundTrip
import FontCodec.Proofs.FontBank.Inline

/-!
# Readable text of the built-in fonts on one line between quotes

In the fonts of the first game a backslash is the code of a glyph, and in the second game pairs of
backslashes are joined. So quotes stand behind a single backslash in all of them.
-/

namespace FontCodec.BuiltIn

theorem jak2_takesPairs : (bank .jak2).compositesToReadable.TakesPairs := by
  obtain ⟨c, hc, hgame⟩ := jak2_hasPair
  exact ⟨c.toReadable, FontBank.mem_rules_compositesToReadable.2 ⟨c, hc, rfl⟩, hgame⟩

theorem inlineTables (v : Version) : (bank v).InlineTables where
  ascii := (fallbackTables v).ascii
  charsShown g hg b hb := ((readableTables v).charsShown g hg b hb).1
  plainShown b hplain := by
    have hlt := (fallbackTables v).ascii.lt_of_isPlain hplain
    have hshown := ((readableTables v).plain b.toNat (by omega) hplain).1
    rw [UInt8.ofNat_toNat] at hshown
    exact hshown.1
  joins := {
    pair := (fallbackTables v).pattern_eq_pair
    shown := by
      intro rule hm
      obtain ⟨c, hc, rfl⟩ := FontBank.mem_rules_compositesToReadable.1 hm
      exact ⟨(encodingTables v).readable_ne_nil hc, ((readableTables v).readableShown c hc).1⟩ }
  codes := by
    intro rule hm
    obtain ⟨c, hc, rfl⟩ := FontBank.mem_rules_compositesToReadable.1 hm
    obtain ⟨y, tail, hgame, -, hne, -⟩ := (fallbackTables v).exists_game hc
    simpa [Composite.toReadable, hgame] using hne
  single := by
    by_cases hv : v = .jak2
    · exact .inl (hv ▸ jak2_takesPairs)
    · obtain ⟨h⟩ := nonempty_payloadInspection hv
      have hcode := h.characterCodes.backslash
      rw [← bank_eq] at hcode
      exact .inr hcode

/-- Readable text has no control codes, and a single backslash stands in front of each quote. So no quote
is ever read alone. -/
theorem decode_inline (v : Version) (payload : Bytes) (korean : Bool) :
    ∃ text, (bank v).decode payload korean = .ok text ∧ (∀ c ∈ text.toList, 0x20 ≤ c.toNat) ∧
      (∀ u w, text.toList = u ++ '"' :: w → ∃ front, u = front ++ ['\\'] ∧ front.getLast? ≠ some '\\') ∧
      ¬ EscapeToken.MeetsBareQuote (utf8 text) := by
  have h := inlineTables v
  obtain ⟨text, hdecode, hbytes⟩ := FontBank.exists_decode_tagged h.ascii payload korean
  have hquotes := h.quotesEscaped_readableBytes (if korean then Jamo.retag payload else payload)
  have hpair := h.not_pair_infix_readableBytes (if korean then Jamo.retag payload else payload)
  have hspace := h.space_le_readableBytes (if korean then Jamo.retag payload else payload)
  rw [← hbytes] at hquotes hpair hspace
  refine ⟨text, hdecode, space_le_of_mem_utf8 hspace, fun u w htext => ?_,
    EscapeToken.not_meetsBareQuote hquotes⟩
  rw [utf8_eq_utf8Bytes, htext] at hquotes hpair
  exact exists_single_backslash hquotes hpair

end FontCodec.BuiltIn
