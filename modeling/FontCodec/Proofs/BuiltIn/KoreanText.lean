import FontCodec.Proofs.BuiltIn.Tables
import FontCodec.Proofs.Jamo.Retag
import FontCodec.Proofs.Substitution.PrefixCode

/-!
# Korean text of the second game

Every jamo glyph has a name in angle brackets. The font looks names up as a whole, and no readable
composite is written in the characters of names alone. So the names of tagged glyphs in a row are the
readable text of the glyphs, and come back from it.
-/

namespace FontCodec

namespace Jamo

/-- Spans of unmarked glyphs, each with its counter. Only the first one has a header of its own choice. -/
def unmarkedSpans (header : UInt8) : List (UInt8 × Bytes) → List Span
  | [] => []
  | (counter, glyphs) :: rest =>
    .components header counter (glyphs.map .normal) false :: unmarkedSpans componentMark rest

theorem wellFormed_unmarkedSpans {header : UInt8} (hheader : header ≠ passthroughMark)
    {syllables : List (UInt8 × Bytes)} (h : ∀ s ∈ syllables, ∀ g ∈ s.2, 6 ≤ g) :
    WellFormed (unmarkedSpans header syllables) := by
  induction syllables generalizing header with
  | nil => exact .nil
  | cons s syllables ih =>
    rw [List.forall_mem_cons] at h
    refine WellFormed.cons_iff.2 ⟨⟨hheader, fun c hc => ?_⟩, fun t ht => ?_, ih (by decide) h.2⟩
    · obtain ⟨g, hg, rfl⟩ := List.mem_map.1 hc
      have hge := h.1 g hg
      refine ⟨?_, ?_, ?_⟩ <;> rintro rfl <;> exact absurd hge (by decide)
    · cases syllables with
      | nil => cases ht
      | cons s' syllables =>
        obtain rfl := Option.some.inj ht
        exact ⟨Bool.false_ne_true, rfl⟩

theorem flatMap_tagged_unmarkedSpans (header : UInt8) (syllables : List (UInt8 × Bytes)) :
    (unmarkedSpans header syllables).flatMap Span.tagged =
      (syllables.flatMap Prod.snd).flatMap fun g => [0x03, g] := by
  induction syllables generalizing header with
  | nil => rfl
  | cons s syllables ih =>
    rw [unmarkedSpans, List.flatMap_cons, ih, List.flatMap_cons, List.flatMap_append, Span.tagged,
      List.flatMap_map]
    rfl

theorem retag_unmarkedSpans {header : UInt8} (hheader : header ≠ passthroughMark)
    {syllables : List (UInt8 × Bytes)} (h : ∀ s ∈ syllables, ∀ g ∈ s.2, 6 ≤ g) :
    retag ((unmarkedSpans header syllables).flatMap Span.render) =
      (syllables.flatMap Prod.snd).flatMap fun g => [0x03, g] := by
  rw [retag, retagFrom_flatMap_render (wellFormed_unmarkedSpans hheader h),
    flatMap_tagged_unmarkedSpans]

end Jamo

theorem Hex.digits_injective : Function.Injective Hex.digits := by
  intro a b h
  have ha := Hex.readDigits_digits a 0 []
  rw [h, Hex.readDigits_digits] at ha
  simpa [Hex.readDigits, Except.map] using ha.symm

/-- Without escapes it does not matter whether they are resolved. -/
theorem FontBank.encode_eq_ok {text : String} (h : ∀ b ∈ utf8 text, b ≠ quoteMark ∧ b ≠ backslash)
    (bank : FontBank) (resolveEscapes : Bool) :
    bank.encode text resolveEscapes = .ok (bank.encodeBytes (utf8 text)) := by
  have hunescape : unescape (utf8 text) = .ok (utf8 text) := by
    have happend := unescapeFrom_append h 0 []
    rw [List.append_nil] at happend
    rw [unescape, happend, unescapeFrom, Except.map, List.append_nil]
  cases resolveEscapes with
  | false => rfl
  | true =>
    rw [encode, if_pos rfl, hunescape]
    rfl

namespace BuiltIn

def jamoSpelling (g : UInt8) : List Char := '<' :: 'H' :: '3' :: (Hex.digits g ++ ['>'])

def jamoText (glyphs : Bytes) : String := String.ofList (glyphs.flatMap jamoSpelling)

def nameCharacters : List Char := "<>H0123456789abcdef".toList

theorem mem_nameCharacters {g : UInt8} {c : Char} (hc : c ∈ jamoSpelling g) : c ∈ nameCharacters := by
  have hdigit : ∀ n < 16, Hex.digit n ∈ nameCharacters := by decide
  have hg := g.toNat_lt
  simp only [jamoSpelling, Hex.digits, List.cons_append, List.nil_append, List.mem_cons,
    List.not_mem_nil, or_false] at hc
  rcases hc with rfl | rfl | rfl | rfl | rfl | rfl
  · decide
  · decide
  · decide
  · exact hdigit _ (by omega)
  · exact hdigit _ (by omega)
  · decide

theorem mem_utf8_jamoText {glyphs : Bytes} {b : UInt8} (hb : b ∈ utf8 (jamoText glyphs)) :
    b ∈ utf8Bytes nameCharacters := by
  rw [jamoText, utf8_ofList] at hb
  obtain ⟨c, hc, hbc⟩ := List.mem_flatMap.1 hb
  obtain ⟨g, -, hg⟩ := List.mem_flatMap.1 hc
  exact List.mem_flatMap.2 ⟨c, mem_nameCharacters hg, hbc⟩

theorem utf8_jamoName (g : UInt8) : utf8 (jamoName 3 g) = utf8Bytes (jamoSpelling g) := utf8_ofList _

def jamoGlyph (g : UInt8) : Glyph := ⟨jamoName 3 g, [0x03, g]⟩

theorem utf8_jamoText (glyphs : Bytes) :
    utf8 (jamoText glyphs) = (glyphs.map jamoGlyph).flatMap fun g => utf8 g.chars := by
  rw [jamoText, utf8_ofList, List.flatMap_map]
  exact List.flatMap_assoc.trans (List.flatMap_congr fun g _ => (utf8_jamoName g).symm)

theorem jamoGlyph_mem {g : UInt8} (hg : 6 ≤ g) : jamoGlyph g ∈ (bank .jak2).glyphs := by
  have hlt := g.toNat_lt
  have hge : 6 ≤ g.toNat := UInt8.le_iff_toNat_le.1 hg
  have hcode : UInt8.ofNat (6 + (g.toNat - 6)) = g := by
    rw [Nat.add_sub_cancel' hge, UInt8.ofNat_toNat]
  have hseries : jamoGlyph g ∈ jamoSeries 3 0x06 250 := by
    refine List.mem_map.2 ⟨g.toNat - 6, List.mem_range.2 (by omega), ?_⟩
    simp only [hcode]
    rfl
  rw [bank_eq, FontTables.mem_glyphs_bank]
  exact List.mem_append_right _ (List.mem_append_right _ hseries)

theorem jak2_otherNames : ∀ g ∈ Jak2.accents ++ Jak2.parts ++ Jak2.kanjiPages ++ jamoSeries 1 0x86 5,
    ¬ utf8Bytes ['<', 'H', '3'] <+: utf8 g.chars := by decide +kernel

theorem jak2_readables : ∀ c ∈ Jak2.composites,
    (utf8 c.readable).any (fun b => b ∉ utf8Bytes nameCharacters) := by decide +kernel

theorem jak2_nameCharacters :
    nameCharacters.all fun c => (bank .jak2).isPlain c.toNat && c ≠ '~' := by decide +kernel

/-- The name of a jamo glyph opens the name of no other glyph. -/
theorem eq_jamoGlyph {g : UInt8} {g' : Glyph} (hg' : g' ∈ (bank .jak2).glyphs)
    (hp : utf8 (jamoName 3 g) <+: utf8 g'.chars) : g' = jamoGlyph g := by
  rw [bank_eq, FontTables.mem_glyphs_bank] at hg'
  change g' ∈ Jak2.accents ++ Jak2.parts ++ Jak2.kanjiPages ++
    (jamoSeries 1 0x86 5 ++ jamoSeries 3 0x06 250) at hg'
  rw [← List.append_assoc, List.mem_append] at hg'
  rcases hg' with hother | hjamo
  · have hopen : utf8Bytes ['<', 'H', '3'] <+: utf8 (jamoName 3 g) := by
      rw [utf8_jamoName, utf8Bytes_prefix_iff]
      exact List.prefix_append ['<', 'H', '3'] _
    exact absurd (hopen.trans hp) (jak2_otherNames g' hother)
  · obtain ⟨i, -, rfl⟩ := List.mem_map.1 hjamo
    change utf8 (jamoName 3 g) <+: utf8 (jamoName 3 (UInt8.ofNat (0x06 + i))) at hp
    rw [utf8_jamoName, utf8_jamoName, utf8Bytes_prefix_iff] at hp
    have hspelling : jamoSpelling g = jamoSpelling (UInt8.ofNat (0x06 + i)) := hp.eq_of_length rfl
    have hdigits : Hex.digits g = Hex.digits (UInt8.ofNat (0x06 + i)) := by
      simpa [jamoSpelling, Hex.digits] using hspelling
    rw [Hex.digits_injective hdigits]
    rfl

theorem encodeBytes_jamoText {glyphs : Bytes} (h : ∀ g ∈ glyphs, 6 ≤ g) :
    (bank .jak2).encodeBytes (utf8 (jamoText glyphs)) = glyphs.flatMap fun g => [0x03, g] := by
  have hcomposites : (bank .jak2).compositesToGame.apply (utf8 (jamoText glyphs)) =
      utf8 (jamoText glyphs) := by
    -- a composite that stands in the text would have all its bytes among those of names
    refine Substitution.apply_eq_self fun rule hm _ hi => ?_
    obtain ⟨c, hc, rfl⟩ := FontBank.mem_rules_compositesToGame.1 hm
    rw [bank_eq, FontTables.mem_composites_bank] at hc
    obtain ⟨b, hb, hother⟩ := List.any_eq_true.1 (jak2_readables c hc)
    exact of_decide_eq_true hother (mem_utf8_jamoText (hi.subset hb))
  rw [FontBank.encodeBytes, hcomposites, utf8_jamoText]
  refine (Substitution.apply_flatMap_of_alone (bank .jak2).glyphsToGame_eq fun g hg => ?_).trans ?_
  · obtain ⟨b, hb, rfl⟩ := List.mem_map.1 hg
    refine ⟨jamoGlyph_mem (h b hb), ?_, fun other ho hp => eq_jamoGlyph ho hp⟩
    change utf8 (jamoName 3 b) ≠ []
    rw [utf8_jamoName, ne_eq, utf8Bytes_eq_nil_iff]
    exact List.cons_ne_nil _ _
  · rw [List.flatMap_map]
    rfl

theorem encode_jamoText {glyphs : Bytes} (h : ∀ g ∈ glyphs, 6 ≤ g) (resolveEscapes : Bool) :
    (bank .jak2).encode (jamoText glyphs) resolveEscapes =
      .ok (glyphs.flatMap fun g => [0x03, g]) := by
  have hplain : quoteMark ∉ utf8Bytes nameCharacters ∧ backslash ∉ utf8Bytes nameCharacters := by
    decide
  rw [FontBank.encode_eq_ok (fun b hb => ⟨?_, ?_⟩), encodeBytes_jamoText h]
  · rintro rfl
    exact hplain.1 (mem_utf8_jamoText hb)
  · rintro rfl
    exact hplain.2 (mem_utf8_jamoText hb)

/-- Names are typed text, so tagged glyphs are read back as the text that is encoded as them. -/
theorem decode_tagged_jamo {glyphs : Bytes} (h : ∀ g ∈ glyphs, 6 ≤ g) :
    (bank .jak2).decode (glyphs.flatMap fun g => [0x03, g]) false = .ok (jamoText glyphs) := by
  have hnames : ∀ c ∈ glyphs.flatMap jamoSpelling, c ∈ nameCharacters := by
    intro c hc
    obtain ⟨g, -, hg⟩ := List.mem_flatMap.1 hc
    exact mem_nameCharacters hg
  have htokens : ∀ t ∈ (glyphs.flatMap jamoSpelling).map Token.char, t.Allowed (bank .jak2) := by
    intro t ht
    obtain ⟨c, hc, rfl⟩ := List.mem_map.1 ht
    have hplain := List.all_eq_true.1 jak2_nameCharacters c (hnames c hc)
    rw [Bool.and_eq_true, decide_eq_true_eq] at hplain
    exact .inl hplain
  have htext : jamoText glyphs =
      String.ofList (((glyphs.flatMap jamoSpelling).map Token.char).flatMap Token.text) := by
    rw [jamoText, List.flatMap_map]
    exact congrArg String.ofList (List.flatMap_singleton' _).symm
  have hclash : ∀ pair ∈ clashes, ¬ [pair.1, pair.2] <:+: (jamoText glyphs).toList := by
    have hother : ∀ pair ∈ clashes, pair.2 ∉ nameCharacters := by decide
    intro pair hpair hi
    rw [jamoText, String.toList_ofList] at hi
    exact hother pair hpair (hnames _ (hi.subset (by simp)))
  obtain ⟨payload, hpayload, hdecode⟩ :=
    (readableTables .jak2).decode_encode_tokens htokens htext hclash
  rw [encode_jamoText h] at hpayload
  obtain rfl := Except.ok.inj hpayload
  exact hdecode

/-- The names of unmarked glyphs are the readable text of any spans of them, and the text is encoded as
the tagged payload. -/
theorem decode_unmarkedSpans (header : UInt8) (hheader : header ≠ 0x03)
    (syllables : List (UInt8 × Bytes)) (hglyphs : ∀ s ∈ syllables, ∀ g ∈ s.2, 0x06 ≤ g) :
    (bank .jak2).decode ((Jamo.unmarkedSpans header syllables).flatMap Jamo.Span.render) true =
        .ok (jamoText (syllables.flatMap Prod.snd)) ∧
      ∀ resolveEscapes,
        (bank .jak2).encode (jamoText (syllables.flatMap Prod.snd)) resolveEscapes =
          .ok (Jamo.retag ((Jamo.unmarkedSpans header syllables).flatMap Jamo.Span.render)) := by
  have hall : ∀ g ∈ syllables.flatMap Prod.snd, 6 ≤ g := by
    intro g hg
    obtain ⟨s, hs, hgs⟩ := List.mem_flatMap.1 hg
    exact hglyphs s hs g hgs
  have hretag := Jamo.retag_unmarkedSpans hheader hglyphs
  refine ⟨?_, fun resolveEscapes => ?_⟩
  · change (bank .jak2).decode (Jamo.retag _) false = _
    rw [hretag, decode_tagged_jamo hall]
  · rw [hretag, encode_jamoText hall]

/-- Marks in the place of the first header and of counters, a span without components, and the codes of a
line feed, a quote and a backslash. -/
theorem decode_unmarkedSpans_marks :
    (bank .jak2).decode [0x05, 0x03, 0x06, 0x0a, 0x04, 0x04, 0x04, 0x05, 0x22, 0x5c, 0xff] true =
        .ok "<H306><H30a><H322><H35c><H3ff>" ∧
      (bank .jak2).encode "<H306><H30a><H322><H35c><H3ff>" true =
        .ok [0x03, 0x06, 0x03, 0x0a, 0x03, 0x22, 0x03, 0x5c, 0x03, 0xff] := by
  have htext : jamoText [0x06, 0x0a, 0x22, 0x5c, 0xff] = "<H306><H30a><H322><H35c><H3ff>" := by decide
  obtain ⟨hdecode, hencode⟩ := decode_unmarkedSpans 0x05 (by decide)
    [(0x03, [0x06, 0x0a]), (0x04, []), (0x05, [0x22, 0x5c, 0xff])] (by simp)
  rw [← htext]
  exact ⟨hdecode, hencode true⟩

end BuiltIn

end FontCodec
