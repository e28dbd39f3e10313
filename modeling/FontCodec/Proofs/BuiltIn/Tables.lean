import FontCodec.BuiltIn
import FontCodec.Proofs.FontBank.Fallback
import FontCodec.Proofs.FontBank.TextRoundTrip
import FontCodec.Proofs.StableSort
import FontCodec.Proofs.Substitution.Parting
import Mathlib.Data.List.Infix
import Mathlib.Tactic.MkIffOfInductiveProp

/-!
# What the built-in tables promise

Each entry is looked at once, in the order in which the tables declare them. The banks hold the same
entries in another order.
-/

namespace FontCodec

/-- Composed sequences that can be told apart, with readable sides that can be typed. -/
@[mk_iff]
structure CompositeFacts (clashes : List (Char × Char)) (composites : List Composite) : Prop where
  shown : ∀ d ∈ composites, (utf8 d.readable).all (IsShown ·) ∧ utf8 d.readable ≠ [tilde]
  parting : (sortWords 200 (composites.map fun c => utf8 c.game)).IsChain Below
  marked : ∀ c ∈ composites, tilde ∈ utf8 c.game ∨ utf8 c.game = [backslash, backslash]
  opening : ∀ c ∈ composites, Opening clashes composites (utf8 c.game)

instance (clashes : List (Char × Char)) (composites : List Composite) :
    Decidable (CompositeFacts clashes composites) :=
  decidable_of_iff _ (compositeFacts_iff clashes composites).symm

theorem CompositeFacts.alone {clashes : List (Char × Char)} {composites : List Composite}
    (h : CompositeFacts clashes composites) {c d : Composite} (hc : c ∈ composites)
    (hd : d ∈ composites) (hp : utf8 c.game <+: utf8 d.game) : d = c :=
  eq_of_comparable (List.pairwise_map.1 (pairwise_of_isChain_sortWords h.parting)) hc hd (.inl hp)

/-- Glyphs with different codes on the pages, none of which opens with a byte that stands for itself. -/
@[mk_iff]
structure GlyphFacts (pages : List UInt8) (direct : UInt8 → Bool) (glyphs : List Glyph)
    (composites : List Composite) : Prop where
  onPages : ∀ g ∈ glyphs, OnPages pages g.raw
  ascending : ((glyphs.map fun g => codeNumber g.raw).insertionSort (· ≤ ·)).IsChain (· < ·)
  shown : ∀ g ∈ glyphs, (utf8 g.chars).all fun b => IsShown b ∧ b ≠ tilde
  heads : ∀ g ∈ glyphs, g.raw.head?.all fun b => b ≠ quoteMark ∧ ¬ direct b
  written : ∀ c ∈ composites, tilde ∈ utf8 c.readable ∨ Written direct glyphs (utf8 c.game)

instance (pages : List UInt8) (direct : UInt8 → Bool) (glyphs : List Glyph) (composites : List Composite) :
    Decidable (GlyphFacts pages direct glyphs composites) :=
  decidable_of_iff _ (glyphFacts_iff pages direct glyphs composites).symm

namespace GlyphFacts

variable {pages : List UInt8} {direct : UInt8 → Bool} {glyphs : List Glyph}
  {composites : List Composite}

theorem isShown (h : GlyphFacts pages direct glyphs composites) {g : Glyph} (hg : g ∈ glyphs) :
    ∀ b ∈ utf8 g.chars, IsShown b ∧ b ≠ tilde := by
  intro b hb
  simpa using List.all_eq_true.1 (h.shown g hg) b hb

theorem head_ne (h : GlyphFacts pages direct glyphs composites) {g : Glyph} (hg : g ∈ glyphs)
    {b : UInt8} (hb : g.raw.head? = some b) : b ≠ quoteMark ∧ ¬ direct b := by
  have hall := h.heads g hg
  rw [hb] at hall
  simpa using hall

end GlyphFacts

/-- Composed sequences that leave spellings of bytes alone, but for their two ends. -/
@[mk_iff]
structure SpellingFacts (composites : List Composite) : Prop where
  pair : ∀ c ∈ composites, backslash ∈ utf8 c.game →
    utf8 c.game = [backslash, backslash] ∧ utf8 c.readable = [tilde, percent]
  shown : ∀ c ∈ composites, (utf8 c.game).all fun b => b = backslash ∨ IsShown b
  ends : ∀ c ∈ composites, FontBank.EndsApart composites (utf8 c.readable) (utf8 c.game)
  pairApart : (∃ c ∈ composites, utf8 c.game = [backslash, backslash]) → ∀ c ∈ composites,
    (utf8 c.game).head? ≠ some percent ∧ (utf8 c.game).getLast? ≠ some tilde ∧
      ¬ [tilde, percent] <:+: utf8 c.game

instance (composites : List Composite) : Decidable (SpellingFacts composites) :=
  decidable_of_iff _ (spellingFacts_iff composites).symm

/-- The tables of a font, with what has been seen of them. The bytes of `direct` stand for themselves. -/
structure Inspection (clashes : List (Char × Char)) (t : FontTables) where
  pages : List UInt8
  direct : UInt8 → Bool
  composites : CompositeFacts clashes t.composites
  glyphs : GlyphFacts pages direct t.glyphs t.composites
  spellings : SpellingFacts t.composites
  ascii : t.bank.AsciiPassthrough
  passes : ∀ n : Nat, n < 256 → direct (UInt8.ofNat n) → n < 128 ∧ t.bank.isPlain n
  plain : ∀ n : Nat, n < 128 → t.bank.isPlain n → IsShown (UInt8.ofNat n) ∧
    (n = 0x7e ∨ direct (UInt8.ofNat n) ∨ ∃ g ∈ t.glyphs, utf8 g.chars = [UInt8.ofNat n])

namespace FontTables

variable {t : FontTables}

@[simp] theorem mem_glyphs_bank {g : Glyph} : g ∈ t.bank.glyphs ↔ g ∈ t.glyphs := by
  rw [glyphs_bank, Glyph.sorted, mem_sortDescending]

@[simp] theorem mem_composites_bank {c : Composite} :
    c ∈ t.bank.composites ↔ c ∈ t.composites := by
  rw [composites_bank, Composite.sorted, mem_sortDescending]

theorem isFree_bank {b : UInt8} (h : ∀ g ∈ t.glyphs, g.raw.head? ≠ some b) : t.bank.IsFree b :=
  fun g hg => h g (mem_glyphs_bank.1 hg)

end FontTables

namespace Inspection

variable {clashes : List (Char × Char)} {t : FontTables} (h : Inspection clashes t)
include h

open FontTables

theorem paged : Paged h.pages t.bank.glyphs := by
  have hnodup : (t.glyphs.map fun g => codeNumber g.raw).Nodup :=
    (List.perm_insertionSort _ _).nodup_iff.1 (List.sortedLT_iff_isChain.2 h.glyphs.ascending).nodup
  have hpaged : Paged h.pages t.glyphs := .of_nodup h.glyphs.onPages hnodup
  exact ⟨fun g hg => hpaged.onPages g (mem_glyphs_bank.1 hg), fun g hg g' hg' hp =>
    hpaged.apart g (mem_glyphs_bank.1 hg) g' (mem_glyphs_bank.1 hg') hp⟩

theorem gamesApart : t.bank.GamesApart :=
  fun _ hc _ hd => h.composites.alone (mem_composites_bank.1 hc) (mem_composites_bank.1 hd)

theorem isShown_readable {d : Composite} (hd : d ∈ t.bank.composites) :
    ∀ b ∈ utf8 d.readable, IsShown b := by
  intro b hb
  simpa using List.all_eq_true.1 (h.composites.shown d (mem_composites_bank.1 hd)).1 b hb

theorem isShown_game {c : Composite} (hc : c ∈ t.bank.composites) :
    ∀ b ∈ utf8 c.game, b = backslash ∨ IsShown b := by
  intro b hb
  simpa using List.all_eq_true.1 (h.spellings.shown c (mem_composites_bank.1 hc)) b hb

theorem isShown_chars {g : Glyph} (hg : g ∈ t.bank.glyphs) :
    ∀ b ∈ utf8 g.chars, IsShown b ∧ b ≠ tilde := h.glyphs.isShown (mem_glyphs_bank.1 hg)

/-- What holds of the declared entries holds of the bank. -/
theorem readableTables (hclashes : ∀ pair ∈ clashes, pair.1 ≠ '"' ∧ pair.2 ≠ '"' ∧
      (String.utf8EncodeChar pair.1).all (¬ IsHexDigit ·)) :
    t.bank.ReadableTables h.pages h.direct clashes where
  ascii := h.ascii
  paged := h.paged
  charsShown _ hg := h.isShown_chars hg
  readableShown d hd :=
    ⟨h.isShown_readable hd, (h.composites.shown d (mem_composites_bank.1 hd)).2⟩
  apart := h.gamesApart
  marked c hc := h.composites.marked c (mem_composites_bank.1 hc)
  opening c hc := (h.composites.opening c (mem_composites_bank.1 hc)).mono
    fun _ hd => mem_composites_bank.1 hd
  written c hc := (h.glyphs.written c (mem_composites_bank.1 hc)).imp_right
    fun hw => hw.mono fun _ hg => mem_glyphs_bank.2 hg
  directFree b hb := by
    have hn := h.passes b.toNat b.toNat_lt (by rwa [UInt8.ofNat_toNat])
    refine ⟨UInt8.lt_iff_toNat_lt.2 hn.1, hn.2, fun g hg hhead => ?_⟩
    exact (h.glyphs.head_ne (mem_glyphs_bank.1 hg) hhead).2 hb
  plain n hn hp := by
    obtain ⟨hshown, h⟩ := h.plain n hn hp
    refine ⟨hshown, h.imp_right fun h => h.imp_right fun ⟨g, hg, hchars⟩ => ?_⟩
    exact ⟨g, mem_glyphs_bank.2 hg, hchars⟩
  quoteFree g hg hhead := (h.glyphs.head_ne (mem_glyphs_bank.1 hg) hhead).1 rfl
  clashShown pair hpair := by
    obtain ⟨h1, h2, hall⟩ := hclashes pair hpair
    refine ⟨h1, h2, fun b hb => ?_⟩
    simpa using List.all_eq_true.1 hall b hb

theorem fallbackTables : t.bank.FallbackTables h.pages where
  ascii := h.ascii
  paged := h.paged
  apart := h.gamesApart
  pair c hc := h.spellings.pair c (mem_composites_bank.1 hc)
  shown _ hc := h.isShown_game hc
  ends c hc := (h.spellings.ends c (mem_composites_bank.1 hc)).mono
    fun _ hd => mem_composites_bank.1 hd
  pairApart := by
    rintro ⟨c, hc, hgame⟩ d hd
    exact h.spellings.pairApart ⟨c, mem_composites_bank.1 hc, hgame⟩ d (mem_composites_bank.1 hd)

end Inspection

namespace BuiltIn

/-- Pairs of characters whose sequences read as one composite of their own. -/
def clashes : List (Char × Char) := [(',', '\u3000'), ('N', '°')]

theorem clashes_shown : ∀ pair ∈ clashes, pair.1 ≠ '"' ∧ pair.2 ≠ '"' ∧
    (String.utf8EncodeChar pair.1).all (¬ IsHexDigit ·) := by decide

/-- Digits, capitals, brackets and signs that stand for themselves in every font. -/
def directV2 (b : UInt8) : Bool :=
  (0x28 ≤ b && b ≤ 0x5b) || b = 0x7e || b = 0x20 || b = 0x21 || b = 0x23 || b = 0x25

def directV1 (b : UInt8) : Bool := directV2 b || b = 0x5f

def directJak2 (b : UInt8) : Bool := directV1 b || (0x61 ≤ b && b ≤ 0x7a) || b = 0x5d

def jak1V1Inspection : Inspection clashes (tables .jak1V1) where
  pages := [1]
  direct := directV1
  composites := by decide +kernel
  glyphs := by decide +kernel
  spellings := by decide +kernel
  ascii := by decide +kernel
  passes := by decide +kernel
  plain := by decide +kernel

def jak1V2Inspection : Inspection clashes (tables .jak1V2) where
  pages := [1]
  direct := directV2
  composites := jak1V1Inspection.composites
  glyphs := by decide +kernel
  spellings := jak1V1Inspection.spellings
  ascii := by decide +kernel
  passes := by decide +kernel
  plain := by decide +kernel

def jak2Inspection : Inspection clashes (tables .jak2) where
  pages := [1, 2, 3]
  direct := directJak2
  composites := by decide +kernel
  glyphs := by decide +kernel
  spellings := by decide +kernel
  ascii := by decide +kernel
  passes := by decide +kernel
  plain := by decide +kernel

def inspection : (v : Version) → Inspection clashes (tables v)
  | .jak1V1 => jak1V1Inspection
  | .jak1V2 => jak1V2Inspection
  | .jak2 => jak2Inspection

theorem readableTables (v : Version) :
    (bank v).ReadableTables (inspection v).pages (inspection v).direct clashes := by
  rw [bank_eq]
  exact (inspection v).readableTables clashes_shown

theorem fallbackTables (v : Version) : (bank v).FallbackTables (inspection v).pages := by
  rw [bank_eq]
  exact (inspection v).fallbackTables

end BuiltIn

end FontCodec
