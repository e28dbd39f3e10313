import FontCodec.Proofs.Substitution.Coded
import FontCodec.Text.Utf8

/-!
# UTF-8 as a code

The UTF-8 forms of characters can be told apart wherever they stand one after the other, and no
byte behind the first one of a character opens a character. So a table of texts never matches inside of
a character.
-/

namespace FontCodec

open String (utf8EncodeChar)

def utf8Bytes (chars : List Char) : Bytes := chars.flatMap utf8EncodeChar

@[simp] theorem utf8Bytes_nil : utf8Bytes [] = [] := rfl

@[simp] theorem utf8Bytes_cons (c : Char) (chars : List Char) :
    utf8Bytes (c :: chars) = utf8EncodeChar c ++ utf8Bytes chars := rfl

@[simp] theorem utf8Bytes_append (a b : List Char) :
    utf8Bytes (a ++ b) = utf8Bytes a ++ utf8Bytes b := List.flatMap_append

theorem utf8_eq_utf8Bytes (text : String) : utf8 text = utf8Bytes text.toList :=
  utf8_eq_flatMap text

theorem text?_utf8Bytes (chars : List Char) : text? (utf8Bytes chars) = some (String.ofList chars) := by
  have hv : (utf8Bytes chars).toByteArray.IsValidUTF8 := ByteArray.isValidUTF8_utf8Encode
  rw [text?, String.fromUTF8?, dif_pos hv]
  rfl

theorem text?_utf8 (text : String) : text? (utf8 text) = some text := by
  rw [utf8_eq_utf8Bytes, text?_utf8Bytes, String.ofList_toList]

theorem utf8_inj {a b : String} : utf8 a = utf8 b ↔ a = b := by
  refine ⟨fun h => ?_, fun h => h ▸ rfl⟩
  have htext := text?_utf8 a
  rw [h, text?_utf8 b] at htext
  exact (Option.some.inj htext).symm

theorem text?_eq_some_iff {bytes : Bytes} {text : String} :
    text? bytes = some text ↔ bytes = utf8 text := by
  refine ⟨fun h => ?_, fun h => h ▸ text?_utf8 text⟩
  rw [text?, String.fromUTF8?] at h
  split at h
  · obtain rfl := Option.some.inj h
    simp [utf8, String.fromUTF8]
  · cases h

theorem firstChar?_utf8EncodeChar_append (c : Char) (w : Bytes) :
    firstChar? (utf8EncodeChar c ++ w) = some c := by
  rw [firstChar?, List.toByteArray_append]
  exact ByteArray.utf8DecodeChar?_utf8EncodeChar_append

theorem utf8EncodeChar_append_inj {c d : Char} {v w : Bytes}
    (h : utf8EncodeChar c ++ v = utf8EncodeChar d ++ w) : c = d ∧ v = w := by
  have hfirst := firstChar?_utf8EncodeChar_append c v
  rw [h, firstChar?_utf8EncodeChar_append] at hfirst
  obtain rfl := Option.some.inj hfirst
  exact ⟨rfl, List.append_cancel_left h⟩

/-- The window that is looked at holds the whole first character. -/
theorem characterAt_utf8Bytes_cons (c : Char) (chars : List Char) :
    characterAt (utf8Bytes (c :: chars)) = c := by
  have hlen : (utf8EncodeChar c).length ≤ 4 := by
    rw [String.length_utf8EncodeChar]
    exact c.utf8Size_le_four
  rw [characterAt, utf8Bytes_cons, List.take_append, List.take_of_length_le hlen,
    firstChar?_utf8EncodeChar_append]
  rfl

theorem utf8Bytes_cons_prefix {c d : Char} {chars : List Char} {w : Bytes} :
    utf8Bytes (d :: chars) <+: utf8EncodeChar c ++ w ↔ d = c ∧ utf8Bytes chars <+: w := by
  constructor
  · rintro ⟨z, hz⟩
    rw [utf8Bytes_cons, List.append_assoc] at hz
    obtain ⟨rfl, hw⟩ := utf8EncodeChar_append_inj hz
    exact ⟨rfl, z, hw⟩
  · rintro ⟨rfl, hp⟩
    rw [utf8Bytes_cons, List.prefix_append_right_inj]
    exact hp

theorem utf8Bytes_eq_nil_iff {chars : List Char} : utf8Bytes chars = [] ↔ chars = [] := by
  cases chars <;> simp

theorem utf8Bytes_prefix_iff {a b : List Char} : utf8Bytes a <+: utf8Bytes b ↔ a <+: b := by
  induction a generalizing b with
  | nil => simp
  | cons c a ih =>
    cases b with
    | nil => rw [utf8Bytes_nil, List.prefix_nil, List.prefix_nil, utf8Bytes_eq_nil_iff]
    | cons d b => rw [utf8Bytes_cons d, utf8Bytes_cons_prefix, List.cons_prefix_cons, ih]

/-- Of the beginnings of one text, the longer one in bytes is the longer one in characters. -/
theorem length_utf8Bytes_lt_iff {a b chars : List Char} (ha : a <+: chars) (hb : b <+: chars) :
    (utf8Bytes a).length < (utf8Bytes b).length ↔ a.length < b.length := by
  rcases List.prefix_or_prefix_of_prefix ha hb with ⟨z, rfl⟩ | ⟨z, rfl⟩
  · simp [List.length_pos_iff, utf8Bytes_eq_nil_iff]
  · rw [utf8Bytes_append, List.length_append, List.length_append]
    omega

theorem exists_utf8EncodeChar (c : Char) :
    ∃ b tail, utf8EncodeChar c = b :: tail ∧ b.IsUTF8FirstByte ∧
      ∀ x ∈ tail, ¬ x.IsUTF8FirstByte := by
  cases he : utf8EncodeChar c with
  | nil => exact absurd he String.utf8EncodeChar_ne_nil
  | cons b tail =>
    refine ⟨b, tail, rfl, ?_, ?_⟩
    · have h := @UInt8.isUTF8FirstByte_getElem_zero_utf8EncodeChar c
      simpa only [he, List.getElem_cons_zero] using h
    · intro x hx
      obtain ⟨i, hi, rfl⟩ := List.getElem_of_mem hx
      have hlt : i + 1 < (utf8EncodeChar c).length := by rw [he]; simpa using hi
      have h := @UInt8.isUTF8FirstByte_getElem_utf8EncodeChar c (i + 1) hlt
      simp only [he, List.getElem_cons_succ] at h
      rw [h]
      omega

theorem utf8EncodeChar_of_lt {c : Char} (h : c.toNat < 128) :
    utf8EncodeChar c = [UInt8.ofNat c.toNat] := by
  have hv : c.val.toNat ≤ 0x7f := Nat.le_of_lt_succ h
  simp only [utf8EncodeChar, hv, if_true]
  rfl

theorem utf8EncodeChar_ofNat {b : UInt8} (h : b < 128) :
    utf8EncodeChar (Char.ofNat b.toNat) = [b] := by
  have all : ∀ n : Fin 128,
      utf8EncodeChar (Char.ofNat (UInt8.ofNat n.val).toNat) = [UInt8.ofNat n.val] := by decide
  simpa using all ⟨b.toNat, h⟩

/-- An ASCII byte opens no character but its own. -/
theorem eq_ofNat_of_utf8EncodeChar {c : Char} {b : UInt8} {tail : Bytes}
    (h : utf8EncodeChar c = b :: tail) (hb : b < 128) : c = Char.ofNat b.toNat ∧ tail = [] := by
  have hsame : utf8EncodeChar c ++ [] = utf8EncodeChar (Char.ofNat b.toNat) ++ tail := by
    rw [utf8EncodeChar_ofNat hb, h, List.append_nil]
    rfl
  obtain ⟨hc, htail⟩ := utf8EncodeChar_append_inj hsame
  exact ⟨hc, htail.symm⟩

/-- A character is one ASCII byte or has no ASCII byte at all. -/
theorem utf8EncodeChar_cases (c : Char) :
    (∃ b, b < 128 ∧ utf8EncodeChar c = [b]) ∨ ∀ b ∈ utf8EncodeChar c, 128 ≤ b := by
  have hfirst : ∀ b : UInt8, b < 128 → b.IsUTF8FirstByte := by
    intro b hb
    have all : ∀ n : Fin 128, (UInt8.ofNat n.val).IsUTF8FirstByte := by decide
    simpa using all ⟨b.toNat, hb⟩
  obtain ⟨b, tail, he, -, htail⟩ := exists_utf8EncodeChar c
  by_cases hb : b < 128
  · obtain ⟨-, rfl⟩ := eq_ofNat_of_utf8EncodeChar he hb
    exact .inl ⟨b, hb, he⟩
  · refine .inr ?_
    rw [he, List.forall_mem_cons]
    refine ⟨UInt8.not_lt.1 hb, fun x hx => ?_⟩
    exact UInt8.not_lt.1 fun hlt => htail x hx (hfirst x hlt)

/-- An ASCII byte of a text is a character of it. -/
theorem exists_char_of_utf8Bytes_eq {chars : List Char} {p w : Bytes} {b : UInt8} (hb : b < 128)
    (h : utf8Bytes chars = p ++ b :: w) : ∃ before behind,
      chars = before ++ Char.ofNat b.toNat :: behind ∧ p = utf8Bytes before ∧ w = utf8Bytes behind := by
  induction chars generalizing p with
  | nil => simp at h
  | cons c chars ih =>
    rw [utf8Bytes_cons] at h
    rcases List.append_eq_append_iff.1 h with ⟨z, hz, hrest⟩ | ⟨z, hz, hrest⟩
    · -- the byte stands behind the first character
      obtain ⟨before, behind, rfl, rfl, rfl⟩ := ih hrest
      exact ⟨c :: before, behind, rfl, hz, rfl⟩
    · cases z with
      | nil =>
        obtain ⟨before, behind, rfl, hp, rfl⟩ := ih (p := []) hrest.symm
        rw [List.append_nil] at hz
        exact ⟨c :: before, behind, rfl, by rw [utf8Bytes_cons, ← hp, List.append_nil, hz], rfl⟩
      | cons x z =>
        -- the byte is one of the first character, and so its only one
        obtain ⟨rfl, rfl⟩ := List.cons.inj hrest
        rcases utf8EncodeChar_cases c with ⟨a, -, ha⟩ | hge
        · rw [ha] at hz
          obtain ⟨rfl, hnil⟩ := List.append_eq_singleton_iff.1 hz.symm |>.resolve_right (by simp)
          obtain ⟨rfl, rfl⟩ := List.cons.inj hnil
          obtain ⟨hc, -⟩ := eq_ofNat_of_utf8EncodeChar ha hb
          exact ⟨[], chars, by rw [hc]; rfl, rfl, rfl⟩
        · exact absurd (hge b (by simp [hz])) (UInt8.not_le.2 hb)

namespace Substitution

variable {s : Substitution} {copy : UInt8 → Bytes}

def OfTexts (s : Substitution) : Prop := ∀ rule ∈ s.rules, ∃ chars, rule.pattern = utf8Bytes chars

theorem find?_eq_none_of_not_first (h : s.OfTexts) {b : UInt8} (hb : ¬ b.IsUTF8FirstByte)
    (w : Bytes) : s.find? (b :: w) = none := by
  refine find?_cons_eq_none (fun rule hm hhead => hb ?_) w
  obtain ⟨chars, hchars⟩ := h rule hm
  cases chars with
  | nil => simp [hchars] at hhead
  | cons c chars =>
    obtain ⟨first, tail, he, hfirst, -⟩ := exists_utf8EncodeChar c
    rw [hchars, utf8Bytes_cons, he] at hhead
    obtain rfl : first = b := Option.some.inj hhead
    exact hfirst

theorem replace_char (h : s.OfTexts) {c : Char} {w : Bytes}
    (hf : s.find? (utf8EncodeChar c ++ w) = none) :
    s.replace copy (utf8EncodeChar c ++ w) = (utf8EncodeChar c).flatMap copy ++ s.replace copy w := by
  apply replace_unmatched
  intro z hne hz
  obtain ⟨first, tail, he, -, htail⟩ := exists_utf8EncodeChar c
  rw [he] at hz hf
  rcases List.suffix_cons_iff.1 hz with rfl | hz
  · exact hf
  · cases z with
    | nil => exact absurd rfl hne
    | cons x z => exact find?_eq_none_of_not_first h (htail x (hz.subset (by simp))) (z ++ w)

theorem apply_char (h : s.OfTexts) {c : Char} {w : Bytes}
    (hf : s.find? (utf8EncodeChar c ++ w) = none) :
    s.apply (utf8EncodeChar c ++ w) = utf8EncodeChar c ++ s.apply w := by
  rw [apply, replace_char h hf, List.flatMap_singleton']
  rfl

theorem OfTexts.respects (h : s.OfTexts) :
    s.Respects utf8EncodeChar (fun _ => True) (fun _ => True) := by
  intro rule hm xs _ hp
  obtain ⟨chars, hchars⟩ := h rule hm
  rw [hchars] at hp ⊢
  obtain ⟨rest, rfl⟩ := utf8Bytes_prefix_iff.1 hp
  exact ⟨chars, rest, rfl, rfl, fun _ _ => trivial⟩

theorem text_induction (h : s.OfTexts) {motive : List Char → Prop} (nil : motive [])
    (hit : ∀ r p rest, r.1.pattern = utf8Bytes p →
      s.find? (r.1.pattern ++ utf8Bytes rest) = some r → motive rest → motive (p ++ rest))
    (miss : ∀ c rest, s.find? (utf8EncodeChar c ++ utf8Bytes rest) = none →
      motive rest → motive (c :: rest))
    (chars : List Char) : motive chars :=
  coded_induction h.respects nil (fun r p rest _ _ => hit r p rest)
    (fun c rest _ _ => miss c rest) chars fun _ _ => trivial

end Substitution

end FontCodec
