import FontCodec.Proofs.FontBank.GlyphStage
import FontCodec.Proofs.FontBank.Totality
import Mathlib.Data.List.Basic

/-!
# Readable text comes back from the game

Text that is typed in glyphs, in readable composites and in characters that stand for themselves is
expanded on the way to the game. The expansion is written out in symbols here: the glyph stage brings
the symbols back, and joining composites brings back what was typed.
-/

namespace FontCodec

open String (utf8EncodeChar)

theorem tilde_not_mem_byteEscape (b : UInt8) : tilde ∉ byteEscape b := by
  intro hm
  rcases mem_byteEscape hm with heq | heq | hex
  · exact absurd heq (by decide)
  · exact absurd heq (by decide)
  · exact absurd hex (by decide)

/-- Bytes that stand for themselves, insides of characters, or glyphs, all the way. -/
def Written (direct : UInt8 → Bool) (glyphs : List Glyph) : Bytes → Prop
  | [] => True
  | b :: rest => (direct b ∨ ¬ b.IsUTF8FirstByte ∨
      ∃ g ∈ glyphs, utf8 g.chars <+: b :: rest ∧ utf8 g.chars ≠ []) ∧ Written direct glyphs rest

instance decidableWritten (direct : UInt8 → Bool) (glyphs : List Glyph) :
    (bytes : Bytes) → Decidable (Written direct glyphs bytes)
  | [] => inferInstanceAs (Decidable True)
  | b :: rest =>
    have := decidableWritten direct glyphs rest
    inferInstanceAs (Decidable ((direct b ∨ ¬ b.IsUTF8FirstByte ∨
      ∃ g ∈ glyphs, utf8 g.chars <+: b :: rest ∧ utf8 g.chars ≠ []) ∧ Written direct glyphs rest))

theorem Written.of_append {direct : UInt8 → Bool} {glyphs : List Glyph} {u w : Bytes}
    (h : Written direct glyphs (u ++ w)) : Written direct glyphs w := by
  induction u with
  | nil => exact h
  | cons b u ih => exact ih h.2

theorem Written.mono {direct : UInt8 → Bool} {glyphs glyphs' : List Glyph} {bytes : Bytes}
    (h : Written direct glyphs bytes) (hsub : ∀ g ∈ glyphs, g ∈ glyphs') :
    Written direct glyphs' bytes := by
  induction bytes with
  | nil => trivial
  | cons b rest ih =>
    refine ⟨?_, ih h.2⟩
    rcases h.1 with hd | hn | ⟨g, hg, hp⟩
    · exact .inl hd
    · exact .inr (.inl hn)
    · exact .inr (.inr ⟨g, hsub g hg, hp⟩)

/-- A composed sequence opens with a positioning code, is a pair of backslashes, or opens with an
ASCII character whose positioning code no other sequence can open, apart from clashes. -/
def Opening (clashes : List (Char × Char)) (composites : List Composite) : Bytes → Prop
  | y :: x :: tail => y = tilde ∨ y = backslash ∧ x = backslash ∨
      y < 128 ∧ x = tilde ∧ ∀ d ∈ composites, Comparable (x :: tail) (utf8 d.game) →
        ∃ pair ∈ clashes, utf8EncodeChar pair.1 = [y] ∧ utf8 d.readable = utf8EncodeChar pair.2
  | _ => False

instance (clashes : List (Char × Char)) (composites : List Composite) :
    (bytes : Bytes) → Decidable (Opening clashes composites bytes)
  | [] => inferInstanceAs (Decidable False)
  | [_] => inferInstanceAs (Decidable False)
  | y :: x :: tail => inferInstanceAs (Decidable (y = tilde ∨ y = backslash ∧ x = backslash ∨
      y < 128 ∧ x = tilde ∧ ∀ d ∈ composites, Comparable (x :: tail) (utf8 d.game) →
        ∃ pair ∈ clashes, utf8EncodeChar pair.1 = [y] ∧ utf8 d.readable = utf8EncodeChar pair.2))

theorem Opening.mono {clashes : List (Char × Char)} {composites composites' : List Composite}
    {bytes : Bytes} (h : Opening clashes composites bytes)
    (hsub : ∀ d ∈ composites', d ∈ composites) : Opening clashes composites' bytes := by
  match bytes, h with
  | y :: x :: tail, h =>
    rcases h with hy | hback | ⟨hlt, hx, hclash⟩
    · exact .inl hy
    · exact .inr (.inl hback)
    · exact .inr (.inr ⟨hlt, hx, fun d hd => hclash d (hsub d hd)⟩)

namespace FontBank

variable {bank : FontBank} {pages : List UInt8} {direct : UInt8 → Bool} {clashes : List (Char × Char)}

/-- What the tables of a bank need for readable text to come back. The bytes of `direct` stand for
themselves in both directions. -/
structure ReadableTables (bank : FontBank) (pages : List UInt8) (direct : UInt8 → Bool)
    (clashes : List (Char × Char)) : Prop where
  ascii : bank.AsciiPassthrough
  paged : Paged pages bank.glyphs
  charsShown : ∀ g ∈ bank.glyphs, ∀ b ∈ utf8 g.chars, IsShown b ∧ b ≠ tilde
  readableShown : ∀ d ∈ bank.composites, (∀ b ∈ utf8 d.readable, IsShown b) ∧
    utf8 d.readable ≠ [tilde]
  apart : bank.GamesApart
  marked : ∀ c ∈ bank.composites, tilde ∈ utf8 c.game ∨ utf8 c.game = [backslash, backslash]
  opening : ∀ c ∈ bank.composites, Opening clashes bank.composites (utf8 c.game)
  written : ∀ c ∈ bank.composites, tilde ∈ utf8 c.readable ∨
    Written direct bank.glyphs (utf8 c.game)
  directFree : ∀ b, direct b → b < 128 ∧ bank.isPlain b.toNat ∧ bank.IsFree b
  plain : ∀ n : Nat, n < 128 → bank.isPlain n → IsShown (UInt8.ofNat n) ∧
    (n = 0x7e ∨ direct (UInt8.ofNat n) ∨ ∃ g ∈ bank.glyphs, utf8 g.chars = [UInt8.ofNat n])
  quoteFree : bank.IsFree quoteMark
  clashShown : ∀ pair ∈ clashes, pair.1 ≠ '"' ∧ pair.2 ≠ '"' ∧
    ∀ b ∈ utf8EncodeChar pair.1, ¬ IsHexDigit b

/-- A character other than the tilde that stands for itself, is a glyph or is a composite. -/
def IsTypable (bank : FontBank) (c : Char) : Prop :=
  bank.isPlain c.toNat ∧ c ≠ '~' ∨ (∃ g ∈ bank.glyphs, g.chars = c.toString) ∨
    ∃ d ∈ bank.composites, d.readable = c.toString

/-- A symbol of typed text; a byte is a control code that opens no glyph and has no escape of its
own. -/
def IsTyped (bank : FontBank) : Symbol → Prop
  | .char c => c = '"' ∨ bank.IsTypable c
  | .byte b => b < 0x20 ∧ b ≠ tabulator ∧ b ≠ lineFeed ∧ bank.IsFree b

theorem utf8_toString (c : Char) : utf8 c.toString = utf8EncodeChar c := by
  simp [utf8_eq_flatMap]

theorem IsTyped.isLoose {x : Symbol} (h : bank.IsTyped x) : x.IsLoose := by
  cases x with
  | char c => trivial
  | byte b => exact .inl h.1

namespace ReadableTables

variable (h : bank.ReadableTables pages direct clashes)
include h

theorem shown_of_isTypable {c : Char} (hc : bank.IsTypable c) :
    ∀ b ∈ utf8EncodeChar c, IsShown b ∧ b ≠ tilde := by
  intro b hb
  rcases hc with ⟨hp, hne⟩ | ⟨g, hg, hgc⟩ | ⟨d, hd, hdc⟩
  · have hlt : c.toNat < 128 := by
      have := h.ascii.lt_of_isPlain hp
      omega
    rw [utf8EncodeChar_of_lt hlt, List.mem_singleton] at hb
    subst hb
    refine ⟨(h.plain c.toNat hlt hp).1, fun htilde => hne ?_⟩
    have hn : c.toNat = 0x7e := by
      have hnat := congrArg UInt8.toNat htilde
      rw [UInt8.toNat_ofNat_of_lt' (Nat.lt_trans hlt (by decide))] at hnat
      exact hnat
    exact Char.toNat_inj.1 hn
  · rw [← utf8_toString, ← hgc] at hb
    exact h.charsShown g hg b hb
  · have hr := h.readableShown d hd
    rw [hdc, utf8_toString] at hr
    refine ⟨hr.1 b hb, ?_⟩
    rintro rfl
    rcases utf8EncodeChar_cases c with ⟨a, -, he⟩ | hge
    · rw [he] at hr hb
      exact hr.2 (by rw [List.mem_singleton.1 hb])
    · exact absurd (hge tilde hb) (by decide)

theorem isInline_of_isTyped {x : Symbol} (hx : bank.IsTyped x) : x.IsInline := by
  cases x with
  | byte b => trivial
  | char c =>
    rcases hx with rfl | hc
    · exact ⟨by decide, by decide, by decide⟩
    · exact Symbol.isInline_of_shown fun b hb => (h.shown_of_isTypable hc b hb).1

theorem tilde_not_mem_raw {x : Symbol} (hx : bank.IsTyped x) : tilde ∉ x.raw := by
  cases x with
  | byte b =>
    intro hm
    obtain rfl := List.mem_singleton.1 hm
    exact absurd hx.1 (by decide)
  | char c =>
    rcases hx with rfl | hc
    · decide
    · exact fun hm => (h.shown_of_isTypable hc tilde hm).2 rfl

theorem tilde_not_mem_spelled {x : Symbol} (hx : bank.IsTyped x) : tilde ∉ x.spelled := by
  cases x with
  | byte b => exact tilde_not_mem_byteEscape b
  | char c => exact h.tilde_not_mem_raw hx

theorem tilde_not_mem_escaped {x : Symbol} (hx : bank.IsTyped x) : tilde ∉ x.escaped := by
  cases x with
  | byte b => exact tilde_not_mem_byteEscape b
  | char c =>
    by_cases hq : c = '"'
    · subst hq
      decide
    · rw [Symbol.escaped_of_ne (h.isInline_of_isTyped hx) hq]
      exact h.tilde_not_mem_raw hx

/-- No composed sequence opens at a byte other than the tilde, if every sequence that its positioning
code can run into makes no clash with the byte. -/
theorem find?_eq_none {y : UInt8} {w : Bytes} (hy : y ≠ tilde)
    (hback : y = backslash → w.head? ≠ some backslash)
    (hclash : y < 128 → ∀ v, tilde :: v <+: w → ∃ d ∈ bank.composites,
      Comparable (tilde :: v) (utf8 d.game) ∧ ∀ pair ∈ clashes,
        utf8EncodeChar pair.1 = [y] → utf8 d.readable ≠ utf8EncodeChar pair.2) :
    bank.compositesToReadable.find? (y :: w) = none := by
  rw [Substitution.find?_eq_none_iff]
  intro rule hm _ hp
  obtain ⟨c, hc, rfl⟩ := mem_rules_compositesToReadable.1 hm
  change utf8 c.game <+: y :: w at hp
  have hopen := h.opening c hc
  match utf8 c.game, hopen, hp with
  | a :: x :: tail, hopen, hp =>
    obtain ⟨rfl, htail⟩ := List.cons_prefix_cons.1 hp
    rcases hopen with ha | ⟨ha, hx⟩ | ⟨hlt, rfl, hcomp⟩
    · exact hy ha
    · refine hback ha ?_
      obtain ⟨v, rfl⟩ := htail
      rw [← hx]
      rfl
    · obtain ⟨d, hd, hcd, hno⟩ := hclash hlt tail htail
      obtain ⟨pair, hpair, h1, h2⟩ := hcomp d hd hcd
      exact hno pair hpair h1 h2

/-- A typed character is passed over where the next sequence makes no clash with it. -/
theorem compositesToReadable_char_append {c : Char} (hx : bank.IsTyped (.char c)) {w : Bytes}
    (hclash : ∀ v, tilde :: v <+: w → ∃ d ∈ bank.composites, Comparable (tilde :: v) (utf8 d.game) ∧
      ∀ pair ∈ clashes, c = pair.1 → utf8 d.readable ≠ utf8EncodeChar pair.2) :
    bank.compositesToReadable.apply (utf8EncodeChar c ++ w) =
      utf8EncodeChar c ++ bank.compositesToReadable.apply w := by
  have htilde : tilde ∉ utf8EncodeChar c := h.tilde_not_mem_raw hx
  have hback : backslash ∉ utf8EncodeChar c :=
    Symbol.backslash_not_mem (h.isInline_of_isTyped hx).1
  refine Substitution.apply_char bank.ofTexts_compositesToReadable ?_
  rcases utf8EncodeChar_cases c with ⟨y, -, he⟩ | hge
  · rw [he] at htilde hback ⊢
    refine h.find?_eq_none (Ne.symm (by simpa using htilde)) ?_ fun _ v hv => ?_
    · rintro rfl
      simp at hback
    · obtain ⟨d, hd, hcd, hno⟩ := hclash v hv
      refine ⟨d, hd, hcd, fun pair hpair hp => hno pair hpair ?_⟩
      have hsame : utf8EncodeChar c ++ [] = utf8EncodeChar pair.1 ++ [] := by rw [he, hp]
      exact (utf8EncodeChar_append_inj hsame).1
  · obtain ⟨y, tail, he, -, -⟩ := exists_utf8EncodeChar c
    have hy : 128 ≤ y := hge y (by rw [he]; simp)
    rw [he]
    refine h.find?_eq_none ?_ ?_ fun hlt => absurd hlt (UInt8.not_lt.2 hy)
    · rintro rfl
      exact absurd hy (by decide)
    · rintro rfl
      exact absurd hy (by decide)

/-- No character that clashes is a hex digit, so the escape of a byte is passed over wherever a
sequence stands behind it. -/
theorem compositesToReadable_byteEscape_append (b : UInt8) {w : Bytes}
    (hopened : ∀ v, tilde :: v <+: w → ∃ d ∈ bank.composites,
      Comparable (tilde :: v) (utf8 d.game)) :
    bank.compositesToReadable.apply (byteEscape b ++ w) =
      byteEscape b ++ bank.compositesToReadable.apply w := by
  obtain ⟨high, low, he, hh, hl, -⟩ := exists_byteEscape b
  have hopen : ∀ {y : UInt8} {z : Bytes}, y ≠ tilde → ∀ v, ¬ tilde :: v <+: y :: z :=
    fun hy v hv => hy (List.cons_prefix_cons.1 hv).1.symm
  have hhigh : high ≠ tilde := fun e => absurd (e ▸ hh) (by decide)
  have hlow : low ≠ tilde := fun e => absurd (e ▸ hl) (by decide)
  have h4 : bank.compositesToReadable.find? (low :: w) = none := by
    refine h.find?_eq_none hlow ?_ fun _ v hv => ?_
    · rintro rfl
      exact absurd hl (by decide)
    · obtain ⟨d, hd, hcd⟩ := hopened v hv
      refine ⟨d, hd, hcd, fun pair hpair hp => ?_⟩
      exact absurd hl ((h.clashShown pair hpair).2.2 low (by simp [hp]))
  have h3 : bank.compositesToReadable.find? (high :: low :: w) = none := by
    refine h.find?_eq_none hhigh ?_ fun _ v hv => absurd hv (hopen hlow v)
    rintro rfl
    exact absurd hh (by decide)
  have h2 : bank.compositesToReadable.find? (byteCode :: high :: low :: w) = none :=
    h.find?_eq_none (by decide) (fun e => absurd e (by decide)) fun _ v hv =>
      absurd hv (hopen hhigh v)
  have h1 : bank.compositesToReadable.find? (backslash :: byteCode :: high :: low :: w) = none :=
    h.find?_eq_none (by decide) (by simp [backslash, byteCode]) fun _ v hv =>
      absurd hv (hopen (by decide) v)
  rw [he]
  simp only [List.cons_append, List.nil_append]
  rw [Substitution.apply_miss h1, Substitution.apply_miss h2, Substitution.apply_miss h3,
    Substitution.apply_miss h4]

theorem compositesToReadable_spelled_append {x : Symbol} (hx : bank.IsTyped x) {w : Bytes}
    (hclash : ∀ v, tilde :: v <+: w → ∃ d ∈ bank.composites, Comparable (tilde :: v) (utf8 d.game) ∧
      ∀ pair ∈ clashes, x = .char pair.1 → utf8 d.readable ≠ utf8EncodeChar pair.2) :
    bank.compositesToReadable.apply (x.spelled ++ w) =
      x.spelled ++ bank.compositesToReadable.apply w := by
  cases x with
  | char c =>
    refine h.compositesToReadable_char_append hx fun v hv => ?_
    obtain ⟨d, hd, hcd, hno⟩ := hclash v hv
    exact ⟨d, hd, hcd, fun pair hpair hc => hno pair hpair (congrArg Symbol.char hc)⟩
  | byte b =>
    refine h.compositesToReadable_byteEscape_append b fun v hv => ?_
    obtain ⟨d, hd, hcd, -⟩ := hclash v hv
    exact ⟨d, hd, hcd⟩

/-- A control code without a glyph or an escape of its own is a direct symbol. -/
theorem direct_of_isTyped_byte {b : UInt8} (hx : bank.IsTyped (.byte b)) :
    bank.Direct (.byte b) := by
  obtain ⟨hlt, ht, hn, hfree⟩ := hx
  have hplain : ¬ bank.isPlain b.toNat := by
    intro hp
    have hlow : b.toNat < 128 := Nat.lt_trans (UInt8.lt_iff_toNat_lt.1 hlt) (by decide)
    have hshown := (h.plain b.toNat hlow hp).1.1
    rw [UInt8.ofNat_toNat] at hshown
    exact absurd hlt (UInt8.not_lt.2 hshown)
  have hverbatim : ¬ isVerbatim b := by
    rw [isVerbatim_iff]
    rintro (rfl | hline | htab | rfl)
    · exact absurd hlt (by decide)
    · exact hn hline
    · exact ht htab
    · exact absurd hlt (by decide)
  exact direct_byte hfree (not_or.2 ⟨hplain, hverbatim⟩)

theorem fits_of_isPlain {c : Char} (hp : bank.isPlain c.toNat) (hne : c ≠ '~') (v : Bytes) :
    bank.Direct (.char c) ∨ bank.OpensWithGlyph (utf8EncodeChar c ++ v) := by
  have hlt : c.toNat < 128 := by
    have := h.ascii.lt_of_isPlain hp
    omega
  have hc : utf8EncodeChar c = [UInt8.ofNat c.toNat] := utf8EncodeChar_of_lt hlt
  have hnat : (UInt8.ofNat c.toNat).toNat = c.toNat :=
    UInt8.toNat_ofNat_of_lt' (Nat.lt_trans hlt (by decide))
  rcases (h.plain c.toNat hlt hp).2 with htilde | hdirect | ⟨g, hg, hchars⟩
  · exact absurd (Char.toNat_inj.1 htilde) hne
  · exact .inl (direct_char hc (h.directFree _ hdirect).2.2 (.inl (by rw [hnat]; exact hp)))
  · refine .inr ⟨g, hg, by simp [hchars], ?_⟩
    rw [hchars, ← hc]
    exact List.prefix_append _ _

theorem fits_of_isTyped {x : Symbol} (hx : bank.IsTyped x) {w : Bytes}
    (hf : bank.compositesToGame.find? (x.raw ++ w) = none) (v : Bytes) :
    bank.Direct x ∨ bank.OpensWithGlyph (x.raw ++ v) := by
  cases x with
  | byte b => exact .inl (h.direct_of_isTyped_byte hx)
  | char c =>
    rcases hx with rfl | ⟨hp, hne⟩ | ⟨g, hg, hgc⟩ | ⟨d, hd, hdc⟩
    · exact .inl (direct_char (by decide) h.quoteFree (.inr (by decide)))
    · exact h.fits_of_isPlain hp hne v
    · refine .inr ⟨g, hg, ?_, ?_⟩
      · rw [hgc, utf8_toString]
        exact String.utf8EncodeChar_ne_nil
      · rw [hgc, utf8_toString]
        exact List.prefix_append _ _
    · have hm : d.toGame ∈ bank.compositesToGame.rules := mem_rules_compositesToGame.2 ⟨d, hd, rfl⟩
      have hpattern : d.toGame.pattern = utf8EncodeChar c := by
        rw [← utf8_toString, ← hdc]
        rfl
      refine absurd ?_ (Substitution.find?_eq_none_iff.1 hf d.toGame hm ?_)
      · rw [hpattern]
        exact List.prefix_append _ _
      · rw [hpattern]
        exact String.utf8EncodeChar_ne_nil

theorem fits_map_char_append {chars : List Char} {rest : List Symbol}
    (hw : Written direct bank.glyphs (utf8Bytes chars)) (hrest : bank.Fits rest) :
    bank.Fits (chars.map Symbol.char ++ rest) := by
  induction chars with
  | nil => exact hrest
  | cons c chars ih =>
    refine ⟨?_, ih hw.of_append⟩
    obtain ⟨b, tail, he, hfirst, -⟩ := exists_utf8EncodeChar c
    have hb : utf8Bytes (c :: chars) = b :: (tail ++ utf8Bytes chars) := by
      rw [utf8Bytes_cons, he]
      rfl
    rw [hb] at hw
    rcases hw.1 with hd | hn | ⟨g, hg, hp, hne⟩
    · obtain ⟨hlt, hplain, hfree⟩ := h.directFree b hd
      have hsame : utf8EncodeChar (Char.ofNat b.toNat) ++ tail = utf8EncodeChar c ++ [] := by
        rw [utf8EncodeChar_ofNat hlt, he, List.append_nil]
        rfl
      obtain ⟨hc, -⟩ := utf8EncodeChar_append_inj hsame
      exact .inl (direct_char (hc ▸ utf8EncodeChar_ofNat hlt) hfree (.inl hplain))
    · exact absurd hfirst hn
    · have hraw : ((c :: chars).map Symbol.char ++ rest).flatMap Symbol.raw =
          utf8Bytes (c :: chars) ++ rest.flatMap Symbol.raw := by
        rw [List.flatMap_append, Symbol.flatMap_raw_map_char]
      refine .inr ⟨g, hg, hne, hp.trans ?_⟩
      change _ <+: ((c :: chars).map Symbol.char ++ rest).flatMap Symbol.raw
      rw [hraw, ← hb]
      exact List.prefix_append _ _

end ReadableTables

/-- What typed symbols become when composites are expanded. -/
structure Expansion (bank : FontBank) (us ts : List Symbol) : Prop where
  expanded : bank.compositesToGame.apply (us.flatMap Symbol.raw) = ts.flatMap Symbol.raw
  loose : ∀ x ∈ ts, x.IsLoose
  fits : bank.Fits ts
  joined : bank.compositesToReadable.apply (ts.flatMap Symbol.spelled) = us.flatMap Symbol.spelled
  /-- A positioning code in front belongs to a composite that stands in front of what was typed. -/
  opened : ∀ v, tilde :: v <+: ts.flatMap Symbol.spelled →
    ∃ d ∈ bank.composites, Comparable (tilde :: v) (utf8 d.game) ∧
      utf8 d.readable <+: us.flatMap Symbol.raw

namespace ReadableTables

variable (h : bank.ReadableTables pages direct clashes)
include h

theorem compositesToGame_respects :
    bank.compositesToGame.Respects Symbol.raw bank.IsTyped Symbol.IsChar := by
  refine (Symbol.respects_raw bank.ofTexts_compositesToGame fun rule hm b hb => ?_).mono
    fun x hx => hx.isLoose
  obtain ⟨d, hd, rfl⟩ := mem_rules_compositesToGame.1 hm
  exact ((h.readableShown d hd).1 b hb).1

theorem game_ne_nil {c : Composite} (hc : c ∈ bank.composites) : utf8 c.game ≠ [] := by
  intro hnil
  have := h.opening c hc
  rw [hnil] at this
  exact this

theorem expansion_composite {c : Composite} (hc : c ∈ bank.composites) {p us ts : List Symbol}
    (hp : ∀ x ∈ p, bank.IsTyped x ∧ x.IsChar) (hcode : utf8 c.readable = p.flatMap Symbol.raw)
    (hout : bank.compositesToGame.apply (p.flatMap Symbol.raw ++ us.flatMap Symbol.raw) =
      utf8 c.game ++ bank.compositesToGame.apply (us.flatMap Symbol.raw))
    (he : bank.Expansion us ts) :
    bank.Expansion (p ++ us) (c.game.toList.map Symbol.char ++ ts) where
  expanded := by
    rw [List.flatMap_append, List.flatMap_append, hout, he.expanded, Symbol.flatMap_raw_map_char,
      utf8_eq_utf8Bytes]
  loose := by
    intro x hx
    rcases List.mem_append.1 hx with hx | hx
    · obtain ⟨a, -, rfl⟩ := List.mem_map.1 hx
      trivial
    · exact he.loose x hx
  fits := by
    refine h.fits_map_char_append ?_ he.fits
    rw [← utf8_eq_utf8Bytes]
    refine (h.written c hc).resolve_left fun hm => ?_
    rw [hcode] at hm
    obtain ⟨x, hx, hraw⟩ := List.mem_flatMap.1 hm
    exact h.tilde_not_mem_raw (hp x hx).1 hraw
  joined := by
    rw [List.flatMap_append, Symbol.flatMap_spelled_map_char, ← utf8_eq_utf8Bytes,
      compositesToReadable_game_append h.apart hc (h.game_ne_nil hc), he.joined, hcode,
      Symbol.flatMap_raw_of_isChar fun x hx => (hp x hx).2, List.flatMap_append]
  opened := by
    intro v hv
    rw [List.flatMap_append, Symbol.flatMap_spelled_map_char, ← utf8_eq_utf8Bytes] at hv
    refine ⟨c, hc, Comparable.of_opens_append hv, ?_⟩
    rw [hcode, List.flatMap_append]
    exact List.prefix_append _ _

theorem expansion_symbol {x : Symbol} {us ts : List Symbol} (hx : bank.IsTyped x)
    (hf : bank.compositesToGame.find? (x.raw ++ us.flatMap Symbol.raw) = none)
    (hus : ∀ y ∈ us, bank.IsTyped y)
    (hclash : ∀ pair ∈ clashes, ¬ [.char pair.1, .char pair.2] <+: x :: us)
    (he : bank.Expansion us ts) : bank.Expansion (x :: us) (x :: ts) where
  expanded := by
    have hskip := Symbol.apply_raw_append bank.ofTexts_compositesToGame hf
    rw [List.flatMap_cons, List.flatMap_cons, hskip, he.expanded]
  loose := by
    intro y hy
    rcases List.mem_cons.1 hy with rfl | hy
    · exact hx.isLoose
    · exact he.loose y hy
  fits := ⟨h.fits_of_isTyped hx hf _, he.fits⟩
  joined := by
    rw [List.flatMap_cons, List.flatMap_cons, h.compositesToReadable_spelled_append hx, he.joined]
    intro v hv
    obtain ⟨d, hd, hcomp, hopen⟩ := he.opened v hv
    refine ⟨d, hd, hcomp, fun pair hpair hxp hread => hclash pair hpair ?_⟩
    have hone : utf8Bytes [pair.2] = utf8 d.readable := by simp [hread]
    obtain ⟨rest, rfl⟩ := Symbol.exists_map_char_append_of_raw
      (fun b hb => ((h.readableShown d hd).1 b (hone ▸ hb)).1) (fun y hy => (hus y hy).isLoose)
      (hone ▸ hopen)
    exact ⟨rest, by rw [hxp]; rfl⟩
  opened := by
    intro v hv
    rw [List.flatMap_cons] at hv
    cases hs : x.spelled with
    | nil => exact absurd hs x.spelled_ne_nil
    | cons y tail =>
      rw [hs] at hv
      have hy : tilde = y := (List.cons_prefix_cons.1 hv).1
      exact absurd (by simp [hs, hy]) (h.tilde_not_mem_spelled hx)

theorem exists_expansion {us : List Symbol} (hus : ∀ x ∈ us, bank.IsTyped x)
    (hclash : ∀ pair ∈ clashes, ¬ [.char pair.1, .char pair.2] <:+: us) :
    ∃ ts, bank.Expansion us ts := by
  revert hclash
  refine Substitution.coded_induction h.compositesToGame_respects ?nil ?hit ?miss us hus
  case nil =>
    intro _
    exact ⟨[], rfl, by simp, trivial, rfl, fun v hv => by simpa using List.prefix_nil.1 hv⟩
  case hit =>
    intro r p rest hp _ hcode hf ih hclash
    obtain ⟨ts, he⟩ := ih fun pair hpair hi =>
      hclash pair hpair (hi.trans (List.suffix_append p rest).isInfix)
    have hm := (Substitution.mem_rules_of_find? hf).1
    obtain ⟨c, hc, hr⟩ := mem_rules_compositesToGame.1 hm
    have hpattern : utf8 c.readable = p.flatMap Symbol.raw := by
      rw [← hcode, ← hr]
      rfl
    have hout : bank.compositesToGame.apply (p.flatMap Symbol.raw ++ rest.flatMap Symbol.raw) =
        utf8 c.game ++ bank.compositesToGame.apply (rest.flatMap Symbol.raw) := by
      rw [← hcode, Substitution.apply_hit hf, ← hr]
      rfl
    exact ⟨_, h.expansion_composite hc hp hpattern hout he⟩
  case miss =>
    intro x rest hx hrest hf ih hclash
    obtain ⟨ts, he⟩ := ih fun pair hpair hi =>
      hclash pair hpair (hi.trans (List.suffix_cons x rest).isInfix)
    have hfront : ∀ pair ∈ clashes, ¬ [.char pair.1, .char pair.2] <+: x :: rest :=
      fun pair hpair hp => hclash pair hpair hp.isInfix
    exact ⟨_, h.expansion_symbol hx hf hrest hfront he⟩

/-- Every composed sequence holds a tilde or is a pair of backslashes, so typed text holds none. -/
theorem compositesToReadable_escaped {us : List Symbol} (hus : ∀ x ∈ us, bank.IsTyped x) :
    bank.compositesToReadable.apply (us.flatMap Symbol.escaped) = us.flatMap Symbol.escaped := by
  refine Substitution.apply_eq_self fun rule hm _ hi => ?_
  obtain ⟨c, hc, rfl⟩ := mem_rules_compositesToReadable.1 hm
  change utf8 c.game <:+: _ at hi
  rcases h.marked c hc with htilde | hpair
  · obtain ⟨x, hx, he⟩ := List.mem_flatMap.1 (hi.subset htilde)
    exact h.tilde_not_mem_escaped (hus x hx) he
  · rw [hpair] at hi
    exact Symbol.not_pair_infix_escaped (fun x hx => h.isInline_of_isTyped (hus x hx)) hi

theorem readableBytes_encodeBytes {us : List Symbol} (hus : ∀ x ∈ us, bank.IsTyped x)
    (hclash : ∀ pair ∈ clashes, ¬ [.char pair.1, .char pair.2] <:+: us) :
    bank.readableBytes (bank.encodeBytes (us.flatMap Symbol.raw)) = us.flatMap Symbol.escaped := by
  obtain ⟨ts, he⟩ := h.exists_expansion hus hclash
  have hglyphs : bank.glyphText (bank.encodeBytes (us.flatMap Symbol.raw)) =
      ts.flatMap Symbol.spelled := by
    rw [encodeBytes, he.expanded]
    exact glyphText_glyphsToGame h.paged (fun g hg b hb => (h.charsShown g hg b hb).1) he.loose he.fits
  have hunescaped : ∀ x ∈ us, x.IsUnescaped := fun x hx =>
    (h.isInline_of_isTyped (hus x hx)).isUnescaped
  rw [readableBytes, hglyphs, he.joined, Symbol.escape_spelled hunescaped,
    h.compositesToReadable_escaped hus]

/-- Typed symbols in readable text come back from the game. -/
theorem decode_encode_symbols {us : List Symbol} (hus : ∀ x ∈ us, bank.IsTyped x)
    (hclash : ∀ pair ∈ clashes, ¬ [.char pair.1, .char pair.2] <:+: us) {text : String}
    (htext : utf8 text = us.flatMap Symbol.escaped) :
    ∃ payload, bank.encode text true = .ok payload ∧ bank.decode payload false = .ok text := by
  have hunescape := Symbol.unescape_escaped fun x hx => h.isInline_of_isTyped (hus x hx)
  refine ⟨bank.encodeBytes (us.flatMap Symbol.raw), ?_, decode_eq_ok_of_utf8 ?_⟩
  · rw [encode, if_pos rfl, htext, hunescape]
    rfl
  · rw [h.readableBytes_encodeBytes hus hclash, htext]

end ReadableTables

end FontBank

/-- A unit of readable text: a character, the escape of a double quote, or the escape of a byte. -/
inductive Token where
  | char (c : Char)
  | quote
  | code (b : UInt8)

namespace Token

def text : Token → List Char
  | char c => [c]
  | quote => ['\\', '"']
  | code b => '\\' :: 'c' :: Hex.digits b

/-- A character that the bank's text is typed in, a quote, or a control code without a glyph. -/
def Allowed (bank : FontBank) : Token → Prop
  | char c => bank.IsTypable c
  | quote => True
  | code b => b < 0x20 ∧ b ≠ tabulator ∧ b ≠ lineFeed ∧ bank.IsFree b

def symbol : Token → Symbol
  | char c => .char c
  | quote => .char '"'
  | code b => .byte b

variable {bank : FontBank} {pages : List UInt8} {direct : UInt8 → Bool} {clashes : List (Char × Char)}

theorem Allowed.isTyped {t : Token} (h : t.Allowed bank) : bank.IsTyped t.symbol := by
  cases t with
  | char c => exact .inr h
  | quote => exact .inl rfl
  | code b => exact h

theorem utf8Bytes_text (h : bank.ReadableTables pages direct clashes) {t : Token}
    (ht : t.Allowed bank) : utf8Bytes t.text = t.symbol.escaped := by
  cases t with
  | quote => decide
  | char c =>
    have hq : c ≠ '"' := by
      rintro rfl
      have hs := (h.shown_of_isTypable ht quoteMark (by decide)).1
      exact hs.2 (.inr (.inr (.inr rfl)))
    rw [symbol, Symbol.escaped_of_ne (h.isInline_of_isTyped ht.isTyped) hq]
    simp [text]
  | code b => exact utf8Bytes_escape_digits b

theorem text_of_symbol {t : Token} {c : Char} (hc : c ≠ '"') (h : t.symbol = .char c) :
    t.text = [c] := by
  cases t with
  | char d =>
    cases h
    rfl
  | quote =>
    cases h
    exact absurd rfl hc
  | code b => cases h

theorem pair_infix_text {tokens : List Token} {c d : Char} (hc : c ≠ '"') (hd : d ≠ '"')
    (h : [.char c, .char d] <:+: tokens.map symbol) : [c, d] <:+: tokens.flatMap text := by
  obtain ⟨before, after, happend⟩ := h
  obtain ⟨front, back, rfl, hfront, -⟩ := List.map_eq_append_iff.1 happend.symm
  obtain ⟨a, middle, rfl, -, hmiddle⟩ := List.map_eq_append_iff.1 hfront
  obtain ⟨t, tail, rfl, ht, htail⟩ := List.map_eq_cons_iff.1 hmiddle
  obtain ⟨t', rfl, ht'⟩ := List.map_eq_singleton_iff.1 htail
  refine ⟨a.flatMap text, back.flatMap text, ?_⟩
  simp [text_of_symbol hc ht, text_of_symbol hd ht']

end Token

/-- Every text of allowed tokens without a clash is encoded, and the payload decodes to the text. -/
theorem FontBank.ReadableTables.decode_encode_tokens {bank : FontBank} {pages : List UInt8} {direct : UInt8 → Bool}
    {clashes : List (Char × Char)} (h : bank.ReadableTables pages direct clashes)
    {tokens : List Token} (htokens : ∀ t ∈ tokens, t.Allowed bank) {text : String}
    (htext : text = String.ofList (tokens.flatMap Token.text))
    (hclash : ∀ pair ∈ clashes, ¬ [pair.1, pair.2] <:+: text.toList) :
    ∃ payload, bank.encode text true = .ok payload ∧ bank.decode payload false = .ok text := by
  have hus : ∀ x ∈ tokens.map Token.symbol, bank.IsTyped x := by
    intro x hx
    obtain ⟨t, ht, rfl⟩ := List.mem_map.1 hx
    exact (htokens t ht).isTyped
  refine h.decode_encode_symbols hus (fun pair hpair hi => hclash pair hpair ?_) ?_
  · obtain ⟨h1, h2, -⟩ := h.clashShown pair hpair
    rw [htext, String.toList_ofList]
    exact Token.pair_infix_text h1 h2 hi
  · have hutf8 : utf8Bytes (tokens.flatMap Token.text) = tokens.flatMap fun t => utf8Bytes t.text :=
      List.flatMap_assoc
    rw [htext, utf8_ofList, List.flatMap_map]
    exact hutf8.trans (List.flatMap_congr fun t ht => Token.utf8Bytes_text h (htokens t ht))

end FontCodec
