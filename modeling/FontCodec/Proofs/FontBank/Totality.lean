import FontCodec.FontTables
import FontCodec.Proofs.FontBank.Tables
import FontCodec.Proofs.Text.Validity

/-!
# Every payload has a readable text

The glyph stage makes a text of any payload if nothing past ASCII passes, and the later passes keep it
one. So decoding never fails on bytes.
-/

namespace FontCodec

theorem bytesOfInts_toNat (payload : Bytes) :
    bytesOfInts (payload.map fun b => (b.toNat : Int)) = .ok payload := by
  induction payload with
  | nil => rfl
  | cons b payload ih =>
    have hb := b.toNat_lt
    have hrange : 0 ≤ (b.toNat : Int) ∧ (b.toNat : Int) ≤ 255 := by omega
    rw [List.map_cons, bytesOfInts, if_pos hrange, ih]
    simp [Except.map]

namespace FontBank

variable {bank : FontBank}

def AsciiPassthrough (bank : FontBank) : Prop := ∀ code ∈ bank.passthrough, code < 128

instance : Decidable bank.AsciiPassthrough :=
  inferInstanceAs (Decidable (∀ code ∈ bank.passthrough.elements, code < 128))

theorem AsciiPassthrough.lt_of_isPlain (h : bank.AsciiPassthrough) {code : Int}
    (hp : bank.isPlain code = true) : code < 128 := by
  simp only [isPlain, isDigit, isUpper, isLower, Bool.and_eq_true, Bool.or_eq_true,
    decide_eq_true_eq] at hp
  obtain ⟨-, ((hd | hu) | hm) | hl⟩ := hp
  · omega
  · omega
  · exact h code hm
  · omega

theorem AsciiPassthrough.lt_of_passes (h : bank.AsciiPassthrough) {b : UInt8}
    (hb : bank.isPlain b.toNat ∨ isVerbatim b) : b < 128 := by
  rcases hb with hp | hv
  · have hlt := h.lt_of_isPlain hp
    exact UInt8.lt_iff_toNat_lt.2 (by simpa using by omega)
  · rcases isVerbatim_iff.1 hv with rfl | rfl | rfl | rfl <;> decide

theorem isText_spell (h : bank.AsciiPassthrough) (b : UInt8) : IsText (bank.spell b) := by
  by_cases hb : bank.isPlain b.toNat ∨ isVerbatim b
  · rw [spell_of_passes hb]
    refine isText_of_ascii fun x hx => ?_
    obtain rfl := List.mem_singleton.1 hx
    exact h.lt_of_passes hb
  · rw [spell_of_hidden hb]
    exact isText_byteEscape b

theorem isText_glyphText (h : bank.AsciiPassthrough) (payload : Bytes) :
    IsText (bank.glyphText payload) := by
  unfold glyphText
  induction payload using Substitution.scan_induction bank.glyphsToReadable with
  | nil => exact isText_nil
  | hit r rest hf ih =>
    have hm := (Substitution.mem_rules_of_find? hf).1
    obtain ⟨g, -, hg⟩ := mem_rules_glyphsToReadable.1 hm
    have hout : IsText r.1.output := by
      rw [← hg]
      exact isText_utf8 g.chars
    rw [Substitution.replace_hit hf]
    exact hout.append ih
  | miss b rest hf ih =>
    rw [Substitution.replace_of_find?_eq_none hf]
    exact (isText_spell h b).append ih

theorem isText_compositesToReadable {bytes : Bytes} (h : IsText bytes) :
    IsText (bank.compositesToReadable.apply bytes) := by
  refine isText_apply bank.ofTexts_compositesToReadable (fun rule hm => ?_) h
  obtain ⟨c, -, rfl⟩ := mem_rules_compositesToReadable.1 hm
  exact isText_utf8 c.readable

theorem isText_readableBytes (h : bank.AsciiPassthrough) (payload : Bytes) :
    IsText (bank.readableBytes payload) :=
  isText_compositesToReadable (isText_escape (isText_compositesToReadable (isText_glyphText h payload)))

theorem decode_eq_ok_iff {payload : Bytes} {korean : Bool} {text : String} :
    bank.decode payload korean = .ok text ↔
      bank.readableBytes (if korean then Jamo.retag payload else payload) = utf8 text := by
  rw [decode, ← text?_eq_some_iff]
  split <;> simp [*]

theorem decode_eq_ok_of_utf8 {payload : Bytes} {text : String}
    (h : bank.readableBytes payload = utf8 text) : bank.decode payload false = .ok text :=
  decode_eq_ok_iff.2 h

theorem exists_decode_tagged (h : bank.AsciiPassthrough) (payload : Bytes) (korean : Bool) :
    ∃ text, bank.decode payload korean = .ok text ∧
      utf8 text = bank.readableBytes (if korean then Jamo.retag payload else payload) := by
  obtain ⟨text, hbytes⟩ :=
    (isText_readableBytes h (if korean then Jamo.retag payload else payload)).exists_utf8
  exact ⟨text, decode_eq_ok_iff.2 hbytes, hbytes.symm⟩

theorem exists_decode (h : bank.AsciiPassthrough) (payload : Bytes) :
    ∃ text, bank.decode payload false = .ok text ∧ utf8 text = bank.readableBytes payload := by
  simpa using exists_decode_tagged h payload false

/-- Every payload decodes to a text with or without the Korean pass, and a collector that is allowed
takes in the payload's packed sequences. -/
theorem decode_total (bank : FontBank) (hascii : bank.AsciiPassthrough) (payload : Bytes)
    (korean : Bool) (collector : Option Jamo.Collector)
    (hcollector : collector.isSome = true → korean = true) :
    ∃ text, bank.decode payload korean = .ok text ∧
      utf8 text = bank.readableBytes (if korean then Jamo.retag payload else payload) ∧
      bank.decodeRecording (payload.map fun b => (b.toNat : Int)) korean collector =
        (.ok text, collector.map (·.recordPayload payload)) := by
  obtain ⟨text, hdecode, hbytes⟩ := exists_decode_tagged hascii payload korean
  have hallowed : (collector.isSome && !korean) = false := by
    cases hc : collector.isSome
    · rfl
    · simp [hcollector hc]
  refine ⟨text, hdecode, hbytes, ?_⟩
  simp [decodeRecording, hallowed, bytesOfInts_toNat, hdecode]

/-- A bank with entries that overlap and entries with an empty side. -/
def overlapping : FontBank :=
  build .jak2 [⟨"é", [0xc3]⟩, ⟨"", [0xc3, 0x80]⟩, ⟨"é", []⟩] [⟨"", "n"⟩, ⟨"\\c", "é"⟩]
    (asciiCodes "~n")

theorem decode_total_overlapping :
    overlapping.AsciiPassthrough ∧
      ∃ text, overlapping.decode [0xc3, 0xc3, 0x80, 0xff, 0x03] true = .ok text := by
  have hascii : overlapping.AsciiPassthrough := by decide +kernel
  obtain ⟨text, htext, -⟩ := decode_total overlapping hascii [0xc3, 0xc3, 0x80, 0xff, 0x03] true
    (some .empty) fun _ => rfl
  exact ⟨hascii, text, htext⟩

end FontBank

end FontCodec
