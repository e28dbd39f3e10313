import FontCodec.Proofs.BuiltIn.Fallback
import FontCodec.Proofs.FontBank.PayloadRoundTrip

/-!
# Payloads through the banks of the first game

Every payload without line codes comes back from its readable text, unless it spells out byte by byte
what the font has a glyph or a composite for.
-/

namespace FontCodec

/-- Composites whose readable sides, like their composed sequences, begin nowhere inside each other. The
readable ones of one kind begin with a byte past all letters, and those of the other are listed. -/
@[mk_iff]
structure ReadableFacts (heads : UInt8 → Bool) (listed : List Bytes)
    (composites : List Composite) : Prop where
  opens : ∀ d ∈ composites, (utf8 d.readable).head?.any fun x =>
    heads x ∧ (0x90 ≤ x ∨ utf8 d.readable ∈ listed)
  gameOpens : ∀ c ∈ composites, (utf8 c.game).head?.any (· < 0x80)
  gamesBegin : ∀ d ∈ composites,
    Avoids (· < 0x80) (composites.map fun c => utf8 c.game) (utf8 d.readable)
  readablesBegin : ∀ c ∈ composites,
    Avoids heads (composites.map fun d => utf8 d.readable) (utf8 c.game).tail ∧
      Avoids heads (composites.map fun d => utf8 d.readable) (utf8 c.readable).tail

instance (heads : UInt8 → Bool) (listed : List Bytes) (composites : List Composite) :
    Decidable (ReadableFacts heads listed composites) :=
  decidable_of_iff _ (readableFacts_iff heads listed composites).symm

/-- Characters of glyphs that part from each other and from readable composites, which do not begin
inside them either. Most begin with a byte that has a code of its own. -/
@[mk_iff]
structure CharacterFacts (heads : UInt8 → Bool) (listed : List Bytes) (name : Bytes)
    (glyphs : List Glyph) (composites : List Composite) : Prop where
  parting : (sortWords 16 ((composites.map fun d => utf8 d.readable) ++
    glyphs.map fun g => utf8 g.chars)).IsChain Below
  opens : ∀ g ∈ glyphs, (utf8 g.chars).head?.any fun b =>
    0x90 ≤ b ∨ (∃ g' ∈ glyphs, g'.raw = [b]) ∨ utf8 g.chars = name
  tails : ∀ g ∈ glyphs, (utf8 g.chars).tail.all fun b => heads b = false
  nameTail : ∀ g ∈ glyphs, ¬ BeginsIn (utf8 g.chars) name.tail
  ends : ∀ r ∈ listed, ∀ g ∈ glyphs, EndsBefore r (utf8 g.chars)
  backslash : ∃ g ∈ glyphs, g.raw = [backslash]

instance (heads : UInt8 → Bool) (listed : List Bytes) (name : Bytes) (glyphs : List Glyph)
    (composites : List Composite) :
    Decidable (CharacterFacts heads listed name glyphs composites) :=
  decidable_of_iff _ (characterFacts_iff heads listed name glyphs composites).symm

variable {heads : UInt8 → Bool} {listed : List Bytes} {name : Bytes} {glyphs : List Glyph}
  {composites : List Composite}

theorem ReadableFacts.exists_head (h : ReadableFacts heads listed composites) {d : Composite}
    (hd : d ∈ composites) : ∃ x ∈ (utf8 d.readable).head?, heads x ∧
      (0x90 ≤ x ∨ utf8 d.readable ∈ listed) := by
  obtain ⟨x, hx, hopen⟩ := (Option.any_eq_true _ _).1 (h.opens d hd)
  exact ⟨x, hx, by simpa using hopen⟩

theorem ReadableFacts.exists_game_head (h : ReadableFacts heads listed composites) {c : Composite}
    (hc : c ∈ composites) : ∃ x ∈ (utf8 c.game).head?, decide (x < 0x80) :=
  (Option.any_eq_true _ _).1 (h.gameOpens c hc)

namespace CharacterFacts

variable (h : CharacterFacts heads listed name glyphs composites)
include h

theorem pairwise : ((composites.map fun d => utf8 d.readable) ++
    glyphs.map fun g => utf8 g.chars).Pairwise fun a b => ¬ Comparable a b :=
  pairwise_of_isChain_sortWords h.parting

theorem readables_apart {c d : Composite} (hc : c ∈ composites) (hd : d ∈ composites)
    (hp : utf8 c.readable <+: utf8 d.readable) : d = c :=
  eq_of_comparable (List.pairwise_map.1 (List.pairwise_append.1 h.pairwise).1) hc hd (.inl hp)

theorem chars_apart {g g' : Glyph} (hg : g ∈ glyphs) (hg' : g' ∈ glyphs)
    (hp : utf8 g.chars <+: utf8 g'.chars) : g' = g :=
  eq_of_comparable (List.pairwise_map.1 (List.pairwise_append.1 h.pairwise).2.1) hg hg' (.inl hp)

theorem exists_head {g : Glyph} (hg : g ∈ glyphs) : ∃ b ∈ (utf8 g.chars).head?,
    0x90 ≤ b ∨ (∃ g' ∈ glyphs, g'.raw = [b]) ∨ utf8 g.chars = name := by
  obtain ⟨b, hb, hopen⟩ := (Option.any_eq_true _ _).1 (h.opens g hg)
  exact ⟨b, hb, by simpa using hopen⟩

theorem not_beginsIn_chars {d : Composite} (hd : d ∈ composites)
    (hhead : ∃ x ∈ (utf8 d.readable).head?, heads x) {g : Glyph} (hg : g ∈ glyphs) :
    ¬ BeginsIn (utf8 d.readable) (utf8 g.chars) := by
  have htail : ∀ b ∈ (utf8 g.chars).tail, heads b = false := by simpa using h.tails g hg
  have hapart := (List.pairwise_append.1 h.pairwise).2.2 _ (List.mem_map_of_mem hd) _
    (List.mem_map_of_mem hg)
  cases hchars : utf8 g.chars with
  | nil => exact id
  | cons b tail =>
    rw [hchars] at htail hapart
    have havoids : Avoids heads [utf8 d.readable] tail := .of_forall htail
    rintro (hc | hb)
    · exact hapart hc
    · exact havoids.not_beginsIn (List.mem_singleton_self _) hhead hb

end CharacterFacts

/-- The tables of a font whose payloads come back, with what has been seen of them. -/
structure PayloadInspection (clashes : List (Char × Char)) (listed : List Bytes) (name : Bytes)
    (t : FontTables) extends Inspection clashes t where
  heads : UInt8 → Bool
  readables : ReadableFacts heads listed t.composites
  characters : CharacterFacts heads listed name t.glyphs t.composites
  games : ∀ c ∈ t.composites, utf8 c.game ≠ [backslash, backslash] ∧
    (utf8 c.game).head?.all (¬ IsFallbackEnd ·)
  high : ∀ b : UInt8, 0x90 ≤ b → ∃ g ∈ t.glyphs, g.raw = [b]

namespace PayloadInspection

variable {clashes : List (Char × Char)} {t : FontTables} (h : PayloadInspection clashes listed name t)
include h

open FontTables

omit h in
theorem isCode {b : UInt8} (hb : ∃ g ∈ t.glyphs, g.raw = [b]) : t.bank.IsCode b := by
  obtain ⟨g, hg, hraw⟩ := hb
  exact ⟨g, mem_glyphs_bank.2 hg, hraw⟩

theorem characterCodes : t.bank.CharacterCodes h.pages name where
  paged := h.paged
  shown g hg := by
    refine ⟨fun b hb => (h.isShown_chars hg b hb).1, fun hnil => ?_⟩
    obtain ⟨b, hb, -⟩ := h.characters.exists_head (mem_glyphs_bank.1 hg)
    simp [hnil] at hb
  apart g hg g' hg' := h.characters.chars_apart (mem_glyphs_bank.1 hg) (mem_glyphs_bank.1 hg')
  heads g hg b hb := by
    obtain ⟨x, hx, hhead⟩ := h.characters.exists_head (mem_glyphs_bank.1 hg)
    obtain rfl := Option.mem_unique hb hx
    rcases hhead with hhigh | hcode | hname
    · exact .inl (isCode (h.high b hhigh))
    · exact .inl (isCode hcode)
    · exact .inr hname
  name g hg := h.characters.nameTail g (mem_glyphs_bank.1 hg)
  ascii := h.ascii
  backslash := isCode h.characters.backslash

theorem exists_head {d : Composite} (hd : d ∈ t.bank.composites) :
    ∃ x ∈ (utf8 d.readable).head?, h.heads x := by
  obtain ⟨x, hx, hhead, -⟩ := h.readables.exists_head (mem_composites_bank.1 hd)
  exact ⟨x, hx, hhead⟩

theorem isCode_head_or_mem {d : Composite} (hd : d ∈ t.bank.composites) :
    (∀ b ∈ (utf8 d.readable).head?, t.bank.IsCode b) ∨ utf8 d.readable ∈ listed := by
  obtain ⟨x, hx, -, hhigh | hlisted⟩ := h.readables.exists_head (mem_composites_bank.1 hd)
  · refine .inl fun b hb => ?_
    obtain rfl := Option.mem_unique hb hx
    exact isCode (h.high b hhigh)
  · exact .inr hlisted

theorem payloadTables : t.bank.PayloadTables h.pages name where
  toCharacterCodes := h.characterCodes
  readableShown d hd := by
    refine ⟨h.isShown_readable hd, fun hnil => ?_⟩
    obtain ⟨x, hx, -⟩ := h.exists_head hd
    simp [hnil] at hx
  gameShown c hc b hb := by
    refine (h.isShown_game hc b hb).resolve_left fun heq => ?_
    have hc := mem_composites_bank.1 hc
    exact (h.games c hc).1 (h.spellings.pair c hc (heq ▸ hb)).1
  gameHeads c hc b hb hhex := by
    have hhead := (h.games c (mem_composites_bank.1 hc)).2
    rw [hb] at hhead
    have hend : ¬ IsFallbackEnd b := by simpa using hhead
    exact hend (.inr (.inr (.inr hhex)))
  readablesApart c hc d hd :=
    h.characters.readables_apart (mem_composites_bank.1 hc) (mem_composites_bank.1 hd)
  gamesBegin c hc d hd := by
    have hc := mem_composites_bank.1 hc
    exact (h.readables.gamesBegin d (mem_composites_bank.1 hd)).not_beginsIn
      (List.mem_map_of_mem hc) (h.readables.exists_game_head hc)
  readablesBegin c hc d hd := by
    have havoids := h.readables.readablesBegin c (mem_composites_bank.1 hc)
    have hm : utf8 d.readable ∈ t.composites.map fun d => utf8 d.readable :=
      List.mem_map_of_mem (mem_composites_bank.1 hd)
    exact ⟨havoids.1.not_beginsIn hm (h.exists_head hd),
      havoids.2.not_beginsIn hm (h.exists_head hd)⟩
  charsBegin g hg d hd :=
    h.characters.not_beginsIn_chars (mem_composites_bank.1 hd) (h.exists_head hd)
      (mem_glyphs_bank.1 hg)
  readableHeads d hd := (h.isCode_head_or_mem hd).imp_right fun hlisted g hg =>
    h.characters.ends _ hlisted g (mem_glyphs_bank.1 hg)

end PayloadInspection

namespace BuiltIn

/-- The first bytes of readable composites of the first game. -/
def readableHeads (b : UInt8) : Bool :=
  b = 0x4e || b = 0x3c || (0xc3 ≤ b && b ≤ 0xc5) || b = 0xe3 || b = 0xe4

/-- The name of the one glyph of the first game that can be spelled out. -/
def tildeName : Bytes := asciiBytes "<TIL>"

/-- The names of buttons that are readable composites of the first game. -/
def buttonNames : List String := ["<PAD_X>", "<PAD_TRIANGLE>", "<PAD_CIRCLE>", "<PAD_SQUARE>"]

def spelledComposites : List String := "Nº" :: buttonNames

theorem exists_mem_series (page : Bytes) (start : Nat) {chars : List Char} {i : Nat}
    (hi : i < chars.length) :
    ∃ g ∈ series page start chars, g.raw = page ++ [UInt8.ofNat (start + i)] := by
  refine ⟨⟨chars[i].toString, page ++ [UInt8.ofNat (start + i)]⟩, ?_, rfl⟩
  refine List.mem_map.2 ⟨(chars[i].toString, i), ?_, rfl⟩
  rw [List.mk_mem_zipIdx_iff_getElem?]
  simp [hi]

theorem exists_kana {b : UInt8} (hb : 0x90 ≤ b) :
    ∃ g ∈ series [] 0x90 kana, g.raw = [b] := by
  have hle : 0x90 ≤ b.toNat := UInt8.le_iff_toNat_le.1 hb
  have hlen : kana.length = 0x70 := rfl
  have hi : b.toNat - 0x90 < kana.length := by
    have := b.toNat_lt
    omega
  obtain ⟨g, hg, hraw⟩ := exists_mem_series [] 0x90 hi
  refine ⟨g, hg, ?_⟩
  rw [hraw, show 0x90 + (b.toNat - 0x90) = b.toNat by omega, UInt8.ofNat_toNat]
  rfl

def jak1V1Payloads :
    PayloadInspection clashes (spelledComposites.map utf8) tildeName (tables .jak1V1) where
  toInspection := jak1V1Inspection
  heads := readableHeads
  readables := by decide +kernel
  characters := by decide +kernel
  games := jak1_heads
  high b hb := by
    obtain ⟨g, hg, hraw⟩ := exists_kana hb
    exact ⟨g, by simp [tables, Jak1.glyphsV1, Jak1.laterGlyphs, hg], hraw⟩

def jak1V2Payloads :
    PayloadInspection clashes (spelledComposites.map utf8) tildeName (tables .jak1V2) where
  toInspection := jak1V2Inspection
  heads := readableHeads
  readables := jak1V1Payloads.readables
  characters := by decide +kernel
  games := jak1_heads
  high b hb := by
    obtain ⟨g, hg, hraw⟩ := exists_kana hb
    exact ⟨g, by simp [tables, Jak1.glyphsV2, Jak1.laterGlyphs, hg], hraw⟩

theorem nonempty_payloadInspection {v : Version} (hv : v ≠ .jak2) :
    Nonempty (PayloadInspection clashes (spelledComposites.map utf8) tildeName (tables v)) := by
  cases v with
  | jak1V1 => exact ⟨jak1V1Payloads⟩
  | jak1V2 => exact ⟨jak1V2Payloads⟩
  | jak2 => exact absurd rfl hv

def underscore : Version → UInt8
  | .jak1V2 => 0x03
  | _ => 0x5f

/-- The bytes that show as the characters of a name. -/
def spellOut (v : Version) (name : String) : Bytes :=
  (asciiBytes name).map fun b => if b = 0x5f then underscore v else b

theorem glyphsToGame_spelled {v : Version} (hv : v ≠ .jak2) :
    (bank v).glyphsToGame.apply (utf8 "Nº") = [0x4e, 0x16] ∧
      ∀ button ∈ buttonNames,
        (bank v).glyphsToGame.apply (utf8 button) = spellOut v button := by
  cases v with
  | jak1V1 => decide +kernel
  | jak1V2 => decide +kernel
  | jak2 => exact absurd rfl hv

theorem not_spellsComposite {v : Version} (hv : v ≠ .jak2) {payload : Bytes}
    (hnumber : ¬ [0x4e, 0x16] <:+: payload)
    (hbuttons : ∀ button ∈ buttonNames, ¬ spellOut v button <:+: payload) :
    ¬ (bank v).SpellsComposite payload := by
  obtain ⟨h⟩ := nonempty_payloadInspection hv
  obtain ⟨hglyphs, hnames⟩ := glyphsToGame_spelled hv
  rintro ⟨d, hd, ⟨b, hb, hcode⟩, hspelled⟩
  have hlisted : utf8 d.readable ∈ spelledComposites.map utf8 := by
    rw [bank_eq] at hd hcode
    exact (h.isCode_head_or_mem hd).resolve_left fun hall => hcode (hall b hb)
  obtain ⟨readable, hm, heq⟩ := List.mem_map.1 hlisted
  rw [← heq] at hspelled
  rcases List.mem_cons.1 hm with rfl | hbutton
  · rw [hglyphs] at hspelled
    exact hnumber hspelled
  · rw [hnames readable hbutton] at hspelled
    exact hbuttons readable hbutton hspelled

/-- A payload of the first game without line codes comes back from its readable text, unless it spells
out the number sign, a tilde or a button. -/
theorem encode_decode_payload (v : Version) (hv : v ≠ .jak2) (payload : Bytes)
    (hline : lineFeed ∉ payload) (htab : tabulator ∉ payload)
    (hnumber : ¬ [0x4e, 0x16] <:+: payload) (htilde : ¬ tildeName <:+: payload)
    (hbuttons : ∀ button ∈ buttonNames, ¬ spellOut v button <:+: payload) :
    ∃ text, (bank v).decode payload false = .ok text ∧
      (bank v).encode text true = .ok payload := by
  obtain ⟨h⟩ := nonempty_payloadInspection hv
  have hspells := not_spellsComposite hv hnumber hbuttons
  rw [bank_eq] at hspells ⊢
  exact h.payloadTables.encode_decode hline htab htilde hspells

/-- A page byte without its second byte, bytes without a glyph, a positioning code and a quote. -/
theorem encode_decode_payload_mixed :
    ∃ text, (bank .jak1V2).decode [0x01, 0x22, 0x80, 0x7e, 0x59, 0x03, 0x01] false = .ok text ∧
      (bank .jak1V2).encode text true = .ok [0x01, 0x22, 0x80, 0x7e, 0x59, 0x03, 0x01] :=
  encode_decode_payload .jak1V2 (by decide) _ (by decide) (by decide) (by decide) (by decide)
    (by decide)

end BuiltIn

end FontCodec
