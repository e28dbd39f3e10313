import FontCodec.Proofs.BuiltIn.Tables
import FontCodec.Proofs.FontBank.ByteSpelling

/-!
# Payloads spelled byte by byte in the built-in fonts

Whatever a built-in font puts in for characters differs from them. So a payload that is spelled byte by
byte comes back as it is exactly if it spells nothing that the font encodes.
-/

namespace FontCodec

/-- A composed sequence opens with two bytes that differ from its readable side, and one of them is in
no characters. -/
def GameFront (opens : UInt8 → Bool) (readable : Bytes) : Bytes → Prop
  | x :: y :: _ => opens x ∧ opens y ∧ (x = tilde ∨ x = backslash ∨ y = tilde) ∧
      ¬ Comparable readable [x, y]
  | _ => False

instance (opens : UInt8 → Bool) (readable : Bytes) : (game : Bytes) →
    Decidable (GameFront opens readable game)
  | x :: y :: _ => inferInstanceAs (Decidable (opens x ∧ opens y ∧
      (x = tilde ∨ x = backslash ∨ y = tilde) ∧ ¬ Comparable readable [x, y]))
  | [] => inferInstanceAs (Decidable False)
  | [_] => inferInstanceAs (Decidable False)

theorem GameFront.exists_front {opens : UInt8 → Bool} {readable game : Bytes}
    (h : GameFront opens readable game) : ∃ x y tail, game = x :: y :: tail ∧ opens x ∧ opens y ∧
      (x = tilde ∨ x = backslash ∨ y = tilde) ∧ ¬ Comparable readable [x, y] := by
  match game, h with
  | x :: y :: tail, h => exact ⟨x, y, tail, rfl, h⟩

/-- A composed sequence begins in no bytes of which the last one opens none. -/
theorem GameFront.not_beginsIn {opens : UInt8 → Bool} {readable game bytes : Bytes}
    (h : GameFront opens readable game) (hshown : ∀ b ∈ bytes, IsShown b ∧ b ≠ tilde)
    (hlast : bytes.getLast?.all (¬ opens ·)) : ¬ BeginsIn game bytes := by
  obtain ⟨x, y, tail, rfl, hx, -, hmark, -⟩ := h.exists_front
  induction bytes with
  | nil => exact id
  | cons a bytes ih =>
    have ha := hshown a (by simp)
    rintro (hc | hb)
    · obtain ⟨rfl, hrest⟩ := comparable_cons_iff.1 hc
      cases bytes with
      | nil => simp [hx] at hlast
      | cons b bytes =>
        obtain ⟨rfl, -⟩ := comparable_cons_iff.1 hrest
        rcases hmark with rfl | rfl | rfl
        · exact ha.2 rfl
        · exact ha.1.2 (.inl rfl)
        · exact (hshown tilde (by simp)).2 rfl
    · cases bytes with
      | nil => exact hb
      | cons b bytes => exact ih (fun c hc => hshown c (by simp [hc])) (by simpa using hlast) hb

/-- Entries of which each puts in something that differs from what it takes out. -/
@[mk_iff]
structure EncodingFacts (heads opens inert : UInt8 → Bool) (glyphs : List Glyph)
    (composites : List Composite) : Prop where
  charsFront : ∀ g ∈ glyphs, (utf8 g.chars).head?.all (¬ opens ·)
  charsEnd : ∀ g ∈ glyphs, (utf8 g.chars).tail.getLast?.all (¬ opens ·)
  charsTail : ∀ g ∈ glyphs, Avoids heads (composites.map fun d => utf8 d.readable) (utf8 g.chars).tail
  rawFront : ∀ g ∈ glyphs, FontBank.Leads inert g.raw (utf8 g.chars)
  readableFront : ∀ d ∈ composites, (utf8 d.readable).head?.any (heads ·)
  gameFront : ∀ c ∈ composites, GameFront opens (utf8 c.readable) (utf8 c.game)

instance (heads opens inert : UInt8 → Bool) (glyphs : List Glyph) (composites : List Composite) :
    Decidable (EncodingFacts heads opens inert glyphs composites) :=
  decidable_of_iff _ (encodingFacts_iff heads opens inert glyphs composites).symm

theorem Inspection.encodingTables {clashes : List (Char × Char)} {t : FontTables}
    (inspected : Inspection clashes t) {heads opens inert : UInt8 → Bool}
    (h : EncodingFacts heads opens inert t.glyphs t.composites)
    (hopens : ∀ b, opens b → ¬ inert b) : t.bank.EncodingTables opens inert where
  charsFront g hg b hb := by
    have hall := h.charsFront g (FontTables.mem_glyphs_bank.1 hg)
    rw [hb] at hall
    simpa using hall
  gameFront c hc := by
    obtain ⟨x, y, tail, hgame, hx, hy, -, hdiffer⟩ :=
      (h.gameFront c (FontTables.mem_composites_bank.1 hc)).exists_front
    exact ⟨x, y, tail, hgame, hx, hy, hdiffer⟩
  rawFront g hg := h.rawFront g (FontTables.mem_glyphs_bank.1 hg)
  gamesBegin c hc g hg := by
    refine (h.gameFront c (FontTables.mem_composites_bank.1 hc)).not_beginsIn (fun b hb => ?_)
      (h.charsEnd g (FontTables.mem_glyphs_bank.1 hg))
    exact inspected.isShown_chars hg b (List.mem_of_mem_tail hb)
  readablesBegin d hd g hg := by
    have hd := FontTables.mem_composites_bank.1 hd
    exact (h.charsTail g (FontTables.mem_glyphs_bank.1 hg)).not_beginsIn (List.mem_map_of_mem hd)
      ((Option.any_eq_true _ _).1 (h.readableFront d hd))
  opensApart := hopens

namespace BuiltIn

def typedHeads (b : UInt8) : Bool :=
  b = 0x2c || b = 0x3c || b = 0x4e || (0x67 ≤ b && b < 0x80) || 0xc2 ≤ b

/-- Signs, letters and brackets with which no characters of a glyph begin or end. -/
def composedHeads (b : UInt8) : Bool :=
  (0x2b ≤ b && b ≤ 0x31) || (0x41 ≤ b && b ≤ 0x5c) || (0x61 ≤ b && b ≤ 0x7e)

/-- In the first game no glyph has a code that begins with one of these bytes. -/
def inertBytes : Version → UInt8 → Bool
  | .jak2, _ => false
  | _, b => 0x80 ≤ b && b < 0x90

theorem composedHeads_not_inert (v : Version) (b : UInt8) (hb : composedHeads b) :
    ¬ inertBytes v b := by
  cases v <;> simp_all [composedHeads, inertBytes, UInt8.le_iff_toNat_le] <;> omega

theorem encodingFacts (v : Version) : EncodingFacts typedHeads composedHeads (inertBytes v)
    (tables v).glyphs (tables v).composites := by
  cases v with
  | jak1V1 => decide +kernel
  | jak1V2 => decide +kernel
  | jak2 => decide +kernel

theorem encodingTables (v : Version) : (bank v).EncodingTables composedHeads (inertBytes v) := by
  rw [bank_eq]
  exact (inspection v).encodingTables (encodingFacts v) (composedHeads_not_inert v)

/-- A payload spelled byte by byte is encoded like typed text, and comes back as it is exactly if it
spells out no characters of a glyph and no readable composite. -/
theorem encode_spelledOut_iff (v : Version) (payload : Bytes) :
    utf8 (spelledOut payload) = payload.flatMap byteEscape ∧
      (bank v).encode (spelledOut payload) true = .ok ((bank v).encodeBytes payload) ∧
      ((bank v).encode (spelledOut payload) true = .ok payload ↔
        (∀ g ∈ (bank v).glyphs, ¬ utf8 g.chars <:+: payload) ∧
          ∀ c ∈ (bank v).composites, ¬ utf8 c.readable <:+: payload) := by
  have hencode := FontBank.encode_spelledOut (bank v) payload
  refine ⟨utf8_spelledOut payload, hencode, ?_⟩
  rw [hencode, Except.ok.injEq]
  exact (encodingTables v).encodeBytes_eq_self_iff payload

/-- The escape of a byte that is the ASCII code of an apostrophe becomes the glyph of an apostrophe. -/
theorem encode_escape_apostrophe : spelledOut [0x27] = "\\c27" ∧
    (bank .jak1V1).encode (spelledOut [0x27]) true = .ok [0x12] ∧
      (bank .jak1V1).encode (spelledOut [0x27]) true ≠ .ok [0x27] := by
  have hglyph : (bank .jak1V1).encodeBytes [0x27] = [0x12] := by decide +kernel
  have hencode := FontBank.encode_spelledOut (bank .jak1V1) [0x27]
  rw [hglyph] at hencode
  refine ⟨by decide, hencode, ?_⟩
  rw [hencode, ne_eq, Except.ok.injEq]
  decide

end BuiltIn

end FontCodec
