import FontCodec.Proofs.Text.CodePoint
import FontCodec.Proofs.Text.EscapeGrammar

/-!
# Where an escape error points

The scan for escapes goes over bytes, and a quote may hide the first byte of a longer character. Even so
an error stands at a backslash of the text, and the character that it names is one of the text.
-/

namespace FontCodec

open String (utf8EncodeChar)

/-- The character of a fault is the one behind the backslash. Where two digits have to follow the letter
of an escape, it is the first of the two characters there that is none. -/
def EscapeFault.IsAbout (behind : List Char) : EscapeFault → Prop
  | .incomplete => True
  | .unknownCode c => behind.head? = some c
  | .invalidHex c => ∃ operands, behind = 'c' :: operands ∧
      (operands.take 2).find? (fun d => (Hex.value? d).isNone) = some c

theorem IsHexCode.lt {b : UInt8} (h : IsHexCode b) : b < 128 := by
  unfold IsHexCode at h
  grind

/-- A character is a digit if its first byte is one. -/
theorem isNone_value?_iff {c : Char} {b : UInt8} {tail : Bytes} (h : utf8EncodeChar c = b :: tail) :
    (Hex.value? c).isNone = true ↔ ¬ IsHexCode b := by
  by_cases hb : b < 128
  · obtain ⟨rfl, -⟩ := eq_ofNat_of_utf8EncodeChar h hb
    change (Hex.byteValue? b).isNone = true ↔ _
    rw [byteValue?_eq]
    by_cases hcode : IsHexCode b <;> simp [hcode]
  · have hnone : Hex.value? c = none := by
      by_contra hvalue
      have hascii : c.toNat < 128 := by
        simp only [Hex.value?, Char.le_def, UInt32.le_iff_toNat_le] at hvalue
        have hc : c.val.toNat = c.toNat := rfl
        have h9 : ('9' : Char).val.toNat = 57 := rfl
        have hf : ('f' : Char).val.toNat = 102 := rfl
        have hF : ('F' : Char).val.toNat = 70 := rfl
        grind
      rw [utf8EncodeChar_of_lt hascii] at h
      obtain ⟨rfl, -⟩ := List.cons.inj h
      rw [UInt8.lt_iff_toNat_lt, UInt8.toNat_ofNat'] at hb
      exact hb (by simp; omega)
    simp only [hnone, Option.isNone_none, true_iff]
    exact fun hcode => hb hcode.lt

/-- A first operand that is a digit is one byte long, so the second one begins behind it. -/
theorem isAbout_of_bad_second {c : Char} {operands : List Char} {high low : UInt8} {rest : Bytes}
    (hc : utf8EncodeChar c = [high]) (hhigh : IsHexCode high)
    (hoperands : utf8Bytes operands = low :: rest) (hlow : ¬ IsHexCode low) :
    (EscapeFault.invalidHex (characterAt (low :: rest))).IsAbout ('c' :: c :: operands) := by
  cases operands with
  | nil => cases hoperands
  | cons d operands =>
    obtain ⟨first, more, hd, -⟩ := exists_utf8EncodeChar d
    have hfirst : first = low := by
      rw [utf8Bytes_cons, hd] at hoperands
      exact (List.cons.inj hoperands).1
    have hcdigit : (Hex.value? c).isNone = false := by
      rw [← Bool.not_eq_true, isNone_value?_iff hc]
      exact not_not_intro hhigh
    have hddigit : (Hex.value? d).isNone = true := (isNone_value?_iff hd).2 (hfirst ▸ hlow)
    refine ⟨c :: d :: operands, rfl, ?_⟩
    rw [← hoperands, characterAt_utf8Bytes_cons]
    simp [hcdigit, hddigit]

section Faults

variable {behind operands : List Char} {e : EscapeError} {position : Nat}

theorem isAbout_of_byteCode (hblocked : EscapeToken.Blocked (utf8Bytes ('c' :: operands)))
    (h : unescapeFrom position (backslash :: utf8Bytes ('c' :: operands)) = .error e) :
    e.fault.IsAbout ('c' :: operands) := by
  change unescapeFrom position (backslash :: byteCode :: utf8Bytes operands) = .error e at h
  by_cases hlen : (utf8Bytes operands).length < 2
  · rw [unescapeFrom_of_lacksOperands (.inr ⟨_, rfl, hlen⟩)] at h
    obtain rfl := Except.error.inj h
    trivial
  · match hops : operands with
    | [] => simp at hlen
    | c :: operands =>
      obtain ⟨high, tail, hc, -⟩ := exists_utf8EncodeChar c
      obtain ⟨low, rest, hrest⟩ : ∃ low rest, tail ++ utf8Bytes operands = low :: rest := by
        cases hrest : tail ++ utf8Bytes operands with
        | nil => simp [hc, hrest] at hlen
        | cons low rest => exact ⟨low, rest, rfl⟩
      have hbytes : utf8Bytes (c :: operands) = high :: low :: rest := by
        rw [utf8Bytes_cons, hc, List.cons_append, hrest]
      rw [hbytes] at h
      by_cases hhigh : IsHexCode high
      · have hlow : ¬ IsHexCode low := by
          intro hlow
          exact hblocked (.named high low ⟨hhigh, hlow⟩) ⟨rest, by rw [utf8Bytes_cons, hbytes]; rfl⟩
        obtain ⟨-, rfl⟩ := eq_ofNat_of_utf8EncodeChar hc hhigh.lt
        rw [unescapeFrom_of_bad_low hhigh hlow] at h
        obtain rfl := Except.error.inj h
        exact isAbout_of_bad_second hc hhigh hrest hlow
      · rw [unescapeFrom_of_bad_high hhigh, ← hbytes, characterAt_utf8Bytes_cons] at h
        obtain rfl := Except.error.inj h
        refine ⟨c :: operands, rfl, ?_⟩
        simp [(isNone_value?_iff hc).2 hhigh]

theorem isAbout_of_blocked (hblocked : EscapeToken.Blocked (utf8Bytes behind))
    (h : unescapeFrom position (backslash :: utf8Bytes behind) = .error e) :
    e.fault.IsAbout behind := by
  cases behind with
  | nil =>
    rw [utf8Bytes_nil, unescapeFrom_of_lacksOperands (.inl rfl)] at h
    obtain rfl := Except.error.inj h
    trivial
  | cons c operands =>
    by_cases hc : c = 'c'
    · subst hc
      exact isAbout_of_byteCode hblocked h
    · obtain ⟨code, tail, hcode, -⟩ := exists_utf8EncodeChar c
      have hbytes : utf8Bytes (c :: operands) = code :: (tail ++ utf8Bytes operands) := by
        rw [utf8Bytes_cons, hcode, List.cons_append]
      have hletter : code ≠ byteCode := by
        rintro rfl
        exact hc (eq_ofNat_of_utf8EncodeChar hcode (by decide)).1
      have hspecial : ¬ (code = quoteMark ∨ code = backslash) :=
        fun hspecial => hblocked (.escaped code hspecial) ⟨_, by rw [hbytes]; rfl⟩
      rw [hbytes, unescapeFrom_of_unknown hletter hspecial, ← hbytes, characterAt_utf8Bytes_cons] at h
      obtain rfl := Except.error.inj h
      rfl

end Faults

open EscapeToken

/-- An error stands at a backslash of the text, not inside of a character, and names a character of the
text behind it. -/
theorem unescape_error_isAbout (text : String) (e : EscapeError)
    (h : unescape (utf8 text) = .error e) :
    (utf8 text)[e.position]? = some backslash ∧
      ∃ before behind, text.toList = before ++ '\\' :: behind ∧
        e.position = (utf8Bytes before).length ∧ e.fault.IsAbout behind := by
  rw [utf8_eq_utf8Bytes] at h ⊢
  rcases spells_or_stops (utf8Bytes text.toList) with ⟨tokens, htokens⟩ | ⟨tokens, rest, hstops⟩
  · rw [unescape, unescapeFrom_of_spells htokens] at h
    cases h
  · obtain ⟨before, behind, htext, hbefore, rfl⟩ :=
      exists_char_of_utf8Bytes_eq (by decide) hstops.rendered.symm
    obtain ⟨fault, -, hfault⟩ := hstops.blocked.exists_explains
    rw [← hstops.rendered, unescape, unescapeFrom_flatMap_render_append hstops.whole, hbefore,
      hfault] at h
    obtain rfl := Except.error.inj h
    have hposition : 0 + (utf8Bytes before).length = (utf8Bytes before).length := Nat.zero_add _
    refine ⟨?_, before, behind, htext, hposition, isAbout_of_blocked hstops.blocked (hfault _)⟩
    rw [← hstops.rendered, hbefore, hposition, List.getElem?_append_right (Nat.le_refl _), Nat.sub_self]
    rfl

/-- A quote hides the first byte of a character in front of the escape, and an operand has four bytes. -/
theorem unescape_error_isAbout_hidden :
    unescape (utf8 "\"é\\c0😀") = .error ⟨3, .invalidHex '😀'⟩ ∧
      ∃ before behind, "\"é\\c0😀".toList = before ++ '\\' :: behind ∧
        3 = (utf8Bytes before).length ∧ (EscapeFault.invalidHex '😀').IsAbout behind := by
  have h : unescape (utf8 "\"é\\c0😀") = .error ⟨3, .invalidHex '😀'⟩ := by decide +kernel
  exact ⟨h, (unescape_error_isAbout _ _ h).2⟩

end FontCodec
