import FontCodec.FontTables
import FontCodec.Proofs.FontBank.Tables
import FontCodec.Proofs.Jamo.Retag
import FontCodec.Proofs.StableSort

/-!
# What the version of a bank decides

Two banks of the same entries differ in one thing only: the second game spells lower-case letters as they
are. So they decode alike a payload whose letters pass in any case or are glyphs of their own.
-/

namespace FontCodec.FontBank

variable {v w : Version} {glyphs : List Glyph} {composites : List Composite} {passthrough : IntSet}

/-- The version of a bank has no say in how the byte is spelled. -/
def IsSettled (glyphs : List Glyph) (passthrough : IntSet) (b : UInt8) : Prop :=
  isLower b.toNat = true → (b.toNat : Int) ∈ passthrough ∨ ∃ g ∈ glyphs, g.raw = [b]

instance (glyphs : List Glyph) (passthrough : IntSet) (b : UInt8) :
    Decidable (IsSettled glyphs passthrough b) :=
  inferInstanceAs (Decidable (isLower b.toNat = true →
    (b.toNat : Int) ∈ passthrough ∨ ∃ g ∈ glyphs, g.raw = [b]))

theorem spell_build_eq {b : UInt8}
    (h : v = .jak2 ∨ w = .jak2 → isLower b.toNat = true → (b.toNat : Int) ∈ passthrough) :
    (build v glyphs composites passthrough).spell b =
      (build w glyphs composites passthrough).spell b := by
  have hopen : ∀ u, (build u glyphs composites passthrough).isPlain b.toNat =
      ((b.toNat : Int) ≠ 0x5c && (isDigit b.toNat || isUpper b.toNat ||
        decide ((b.toNat : Int) ∈ passthrough) || (u = .jak2 && isLower b.toNat))) := fun _ => rfl
  have hplain : (build v glyphs composites passthrough).isPlain b.toNat =
      (build w glyphs composites passthrough).isPlain b.toNat := by
    rw [hopen, hopen]
    by_cases hlower : isLower b.toNat = true
    · by_cases hpass : (b.toNat : Int) ∈ passthrough
      · simp [hpass]
      · have hversions : ¬ (v = .jak2 ∨ w = .jak2) := fun hversion => hpass (h hversion hlower)
        simp only [not_or] at hversions
        simp [hversions]
    · simp [hlower]
  rw [spell, spell, hplain]

/-- Where a byte is a glyph of its own, the glyph stage never comes to spell it. -/
theorem find?_glyphsToReadable_ne_none {b : UInt8} (h : ∃ g ∈ glyphs, g.raw = [b]) (rest : Bytes) :
    (build v glyphs composites passthrough).glyphsToReadable.find? (b :: rest) ≠ none := by
  obtain ⟨g, hg, hraw⟩ := h
  intro hf
  have hm : g.toReadable ∈ (build v glyphs composites passthrough).glyphsToReadable.rules :=
    mem_rules_glyphsToReadable.2 ⟨g, mem_sortDescending.2 hg, rfl⟩
  refine Substitution.find?_eq_none_iff.1 hf g.toReadable hm ?_ ?_
  · simp [Glyph.toReadable, hraw]
  · exact ⟨rest, by simp [Glyph.toReadable, hraw]⟩

theorem readableBytes_build_eq {payload : Bytes}
    (h : v = .jak2 ∨ w = .jak2 → ∀ b ∈ payload, IsSettled glyphs passthrough b) :
    (build v glyphs composites passthrough).readableBytes payload =
      (build w glyphs composites passthrough).readableBytes payload := by
  have hglyphs : (build v glyphs composites passthrough).glyphText payload =
      (build w glyphs composites passthrough).glyphText payload := by
    refine Substitution.replace_congr_copy fun b hb rest hf => spell_build_eq ?_
    intro hversion hlower
    exact (h hversion b hb hlower).resolve_right fun hglyph =>
      find?_glyphsToReadable_ne_none hglyph rest hf
  unfold readableBytes
  rw [hglyphs]
  rfl

/-- The tags that the Korean pass puts in are no letters. -/
theorem isSettled_retag {payload : Bytes} (h : ∀ b ∈ payload, IsSettled glyphs passthrough b) :
    ∀ b ∈ Jamo.retag payload, IsSettled glyphs passthrough b := by
  intro b hb
  rcases Jamo.mem_retagFrom hb with hb | rfl | rfl
  · exact h b hb
  · exact fun hlower => absurd hlower (by decide)
  · exact fun hlower => absurd hlower (by decide)

theorem decode_build_eq {payload : Bytes}
    (h : v = .jak2 ∨ w = .jak2 → ∀ b ∈ payload, IsSettled glyphs passthrough b) (korean : Bool) :
    (build v glyphs composites passthrough).decode payload korean =
      (build w glyphs composites passthrough).decode payload korean := by
  have hread : ∀ b ∈ if korean then Jamo.retag payload else payload,
      v = .jak2 ∨ w = .jak2 → IsSettled glyphs passthrough b := by
    intro b hb hversion
    split at hb
    · exact isSettled_retag (h hversion) b hb
    · exact h hversion b hb
  rw [decode, decode, readableBytes_build_eq fun hversion b hb => hread b hb hversion]

/-- The two versions of the first game decode alike, with the same entries. The second game does as well
if every lower-case letter of the payload passes in any case or is a glyph of its own. -/
theorem decode_build_versions (glyphs : List Glyph) (composites : List Composite)
    (passthrough : IntSet) (payload : Bytes) (korean : Bool) :
    (build .jak1V1 glyphs composites passthrough).decode payload korean =
        (build .jak1V2 glyphs composites passthrough).decode payload korean ∧
      ((∀ b ∈ payload, IsSettled glyphs passthrough b) →
        (build .jak2 glyphs composites passthrough).decode payload korean =
          (build .jak1V1 glyphs composites passthrough).decode payload korean) :=
  ⟨decode_build_eq (fun hversion => by simp at hversion) korean,
    fun h => decode_build_eq (fun _ => h) korean⟩

/-- A letter that is a glyph, one that passes and a glyph of Korean text. -/
theorem decode_build_versions_letters :
    (∀ b ∈ [0x03, 0x61, 0x62, 0x04, 0x01, 0x62], IsSettled [⟨"é", [0x61]⟩] (asciiCodes "b") b) ∧
      (build .jak2 [⟨"é", [0x61]⟩] [] (asciiCodes "b")).decode [0x03, 0x61, 0x62, 0x04, 0x01, 0x62] true =
        (build .jak1V1 [⟨"é", [0x61]⟩] [] (asciiCodes "b")).decode
          [0x03, 0x61, 0x62, 0x04, 0x01, 0x62] true := by
  have h : ∀ b ∈ [0x03, 0x61, 0x62, 0x04, 0x01, 0x62],
      IsSettled [⟨"é", [0x61]⟩] (asciiCodes "b") b := by decide +kernel
  exact ⟨h, (decode_build_versions _ [] _ _ true).2 h⟩

/-- Any other letter is spelled by its number in the first game. -/
example : (build .jak2 [] [] .empty).decode [0x61] false = .ok "a" ∧
    (build .jak1V1 [] [] .empty).decode [0x61] false = .ok "\\c61" := by decide +kernel

end FontCodec.FontBank
