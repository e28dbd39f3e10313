import FontCodec.Proofs.Text.Backslashes

/-!
# Text with loose bytes

Between decoding and unescaping, text holds characters and bytes that belong to no character. A loose
byte stands for itself on the way to the game and is spelled as an escape on the way back.
-/

namespace FontCodec

open String (utf8EncodeChar)

/-- A character, or a byte that belongs to none. -/
inductive Symbol where
  | char (c : Char)
  | byte (b : UInt8)

namespace Symbol

def raw : Symbol → Bytes
  | char c => utf8EncodeChar c
  | byte b => [b]

def spelled : Symbol → Bytes
  | char c => utf8EncodeChar c
  | byte b => byteEscape b

def escaped : Symbol → Bytes
  | char c => escape (utf8EncodeChar c)
  | byte b => byteEscape b

def IsChar : Symbol → Prop
  | char _ => True
  | byte _ => False

/-- A byte symbol is a control code or continues no text. -/
def IsLoose : Symbol → Prop
  | char _ => True
  | byte b => b < 0x20 ∨ ¬ b.IsUTF8FirstByte

def IsUnescaped : Symbol → Prop
  | char c => c ≠ '\\'
  | byte _ => True

/-- No character that the escaping pass turns into a code that cannot be resolved again. -/
def IsInline : Symbol → Prop
  | char c => c ≠ '\\' ∧ c ≠ '\n' ∧ c ≠ '\t'
  | byte _ => True

theorem IsInline.isUnescaped {x : Symbol} (h : x.IsInline) : x.IsUnescaped := by
  cases x with
  | char c => exact h.1
  | byte b => trivial

theorem isInline_of_shown {c : Char} (h : ∀ b ∈ utf8EncodeChar c, IsShown b) :
    (char c).IsInline := by
  refine ⟨?_, ?_, ?_⟩ <;> rintro rfl <;> revert h <;> decide

theorem isInline_ofNat {b : UInt8} (hlt : b < 128) (hb : b ≠ backslash) (hn : b ≠ lineFeed)
    (ht : b ≠ tabulator) : (char (Char.ofNat b.toNat)).IsInline := by
  have he := utf8EncodeChar_ofNat hlt
  refine ⟨fun hc => ?_, fun hc => ?_, fun hc => ?_⟩ <;> rw [hc] at he
  · exact hb (List.cons.inj he).1.symm
  · exact hn (List.cons.inj he).1.symm
  · exact ht (List.cons.inj he).1.symm

theorem raw_ne_nil (x : Symbol) : x.raw ≠ [] := by
  cases x with
  | char c => exact String.utf8EncodeChar_ne_nil
  | byte b => exact List.cons_ne_nil b []

theorem spelled_ne_nil (x : Symbol) : x.spelled ≠ [] := by
  cases x with
  | char c => exact String.utf8EncodeChar_ne_nil
  | byte b => exact List.cons_ne_nil _ _

theorem flatMap_raw_of_isChar {p : List Symbol} (h : ∀ x ∈ p, x.IsChar) :
    p.flatMap raw = p.flatMap spelled := by
  induction p with
  | nil => rfl
  | cons x p ih =>
    have hx : x.raw = x.spelled := by
      cases x with
      | char c => rfl
      | byte b => exact (h (byte b) (by simp)).elim
    rw [List.flatMap_cons, List.flatMap_cons, hx, ih fun y hy => h y (by simp [hy])]

@[simp] theorem flatMap_raw_map_char (chars : List Char) :
    (chars.map char).flatMap raw = utf8Bytes chars := by
  rw [List.flatMap_map]
  rfl

@[simp] theorem flatMap_spelled_map_char (chars : List Char) :
    (chars.map char).flatMap spelled = utf8Bytes chars := by
  rw [List.flatMap_map]
  rfl

/-- A text that opens coded symbols stands for the first ones if it cannot run into a byte. -/
theorem exists_map_char_append {code : Symbol → Bytes}
    (hchar : ∀ c, code (char c) = utf8EncodeChar c) {chars : List Char} {xs : List Symbol}
    (hbyte : ∀ c ∈ chars, ∀ b w, byte b ∈ xs → ¬ utf8EncodeChar c <+: code (byte b) ++ w)
    (h : utf8Bytes chars <+: xs.flatMap code) : ∃ rest, xs = chars.map char ++ rest := by
  induction chars generalizing xs with
  | nil => exact ⟨xs, rfl⟩
  | cons c chars ih =>
    cases xs with
    | nil =>
      have hnil := List.prefix_nil.1 h
      simp at hnil
    | cons x xs =>
      rw [List.flatMap_cons] at h
      cases x with
      | char d =>
        rw [hchar, utf8Bytes_cons_prefix] at h
        obtain ⟨rfl, htail⟩ := h
        obtain ⟨rest, rfl⟩ := ih (fun e he b w hb => hbyte e (by simp [he]) b w (by simp [hb])) htail
        exact ⟨rest, rfl⟩
      | byte b =>
        have hopens : utf8EncodeChar c <+: code (byte b) ++ xs.flatMap code :=
          (List.prefix_append _ _).trans h
        exact absurd hopens (hbyte c (by simp) b _ (by simp))

/-- Shown text in front of loose symbols stands for the first ones. -/
theorem exists_map_char_append_of_raw {chars : List Char} {xs : List Symbol}
    (hchars : ∀ b ∈ utf8Bytes chars, 0x20 ≤ b) (hxs : ∀ x ∈ xs, x.IsLoose)
    (h : utf8Bytes chars <+: xs.flatMap raw) : ∃ rest, xs = chars.map char ++ rest := by
  refine exists_map_char_append (fun _ => rfl) (fun c hc b w hb hp => ?_) h
  obtain ⟨first, tail, he, hfirst, -⟩ := exists_utf8EncodeChar c
  have hmem : first ∈ utf8Bytes chars := List.mem_flatMap.2 ⟨c, hc, by simp [he]⟩
  rw [he] at hp
  have hsame : first = b := (List.cons_prefix_cons.1 hp).1
  rcases hxs _ hb with hlt | hn
  · exact absurd hlt (UInt8.not_lt.2 (hsame ▸ hchars first hmem))
  · exact hn (hsame ▸ hfirst)

/-- Text without backslashes in front of spelled symbols stands for the first ones. -/
theorem exists_map_char_append_of_spelled {chars : List Char} {xs : List Symbol}
    (hchars : backslash ∉ utf8Bytes chars) (h : utf8Bytes chars <+: xs.flatMap spelled) :
    ∃ rest, xs = chars.map char ++ rest := by
  refine exists_map_char_append (fun _ => rfl) (fun c hc b w _ hp => ?_) h
  obtain ⟨first, tail, he, -, -⟩ := exists_utf8EncodeChar c
  have hmem : first ∈ utf8Bytes chars := List.mem_flatMap.2 ⟨c, hc, by simp [he]⟩
  rw [he] at hp
  have hsame : first = backslash := (List.cons_prefix_cons.1 hp).1
  exact hchars (hsame ▸ hmem)

theorem respects_of_texts {s : Substitution} {code : Symbol → Bytes} {good : Symbol → Prop}
    (hs : s.OfTexts) (hchar : ∀ c, code (char c) = utf8EncodeChar c)
    (hopen : ∀ rule ∈ s.rules, ∀ chars, rule.pattern = utf8Bytes chars → ∀ xs : List Symbol,
      (∀ x ∈ xs, good x) → utf8Bytes chars <+: xs.flatMap code →
        ∃ rest, xs = chars.map char ++ rest) :
    s.Respects code good IsChar := by
  intro rule hm xs hxs hp
  obtain ⟨chars, hchars⟩ := hs rule hm
  rw [hchars] at hp ⊢
  obtain ⟨rest, rfl⟩ := hopen rule hm chars hchars xs hxs hp
  refine ⟨chars.map char, rest, rfl, ?_, ?_⟩
  · rw [List.flatMap_map]
    simp only [hchar]
    rfl
  · intro x hx
    obtain ⟨c, -, rfl⟩ := List.mem_map.1 hx
    trivial

theorem respects_raw {s : Substitution} (hs : s.OfTexts)
    (h : ∀ rule ∈ s.rules, ∀ b ∈ rule.pattern, 0x20 ≤ b) : s.Respects raw IsLoose IsChar :=
  respects_of_texts hs (fun _ => rfl) fun rule hm _ hchars _ hxs hp =>
    exists_map_char_append_of_raw (hchars ▸ h rule hm) hxs hp

theorem respects_spelled {s : Substitution} (hs : s.OfTexts)
    (h : ∀ rule ∈ s.rules, backslash ∉ rule.pattern) :
    s.Respects spelled (fun _ => True) IsChar :=
  respects_of_texts hs (fun _ => rfl) fun rule hm _ hchars _ _ hp =>
    exists_map_char_append_of_spelled (hchars ▸ h rule hm) hp

/-- A table of texts skips a whole symbol where it chooses no rule. -/
theorem apply_raw_append {s : Substitution} (hs : s.OfTexts) {x : Symbol} {w : Bytes}
    (hf : s.find? (x.raw ++ w) = none) : s.apply (x.raw ++ w) = x.raw ++ s.apply w := by
  cases x with
  | char c => exact Substitution.apply_char hs hf
  | byte b => exact Substitution.apply_miss hf

theorem not_special_of_ne {c : Char} (hb : c ≠ '\\') (hn : c ≠ '\n') (ht : c ≠ '\t') (hq : c ≠ '"') :
    ∀ b ∈ utf8EncodeChar c, ¬ IsSpecial b := by
  intro b hm hs
  rcases utf8EncodeChar_cases c with ⟨a, ha, he⟩ | hge
  · rw [he, List.mem_singleton] at hm
    subst hm
    have hc : utf8EncodeChar c ++ [] = utf8EncodeChar (Char.ofNat b.toNat) ++ [] := by
      rw [he, utf8EncodeChar_ofNat ha]
    obtain ⟨rfl, -⟩ := utf8EncodeChar_append_inj hc
    rcases hs with rfl | rfl | rfl | rfl
    · exact hb rfl
    · exact hn rfl
    · exact ht rfl
    · exact hq rfl
  · have h128 := hge b hm
    rcases hs with rfl | rfl | rfl | rfl <;> exact absurd h128 (by decide)

theorem backslash_not_mem {c : Char} (hc : c ≠ '\\') : backslash ∉ utf8EncodeChar c := by
  intro hm
  by_cases hsp : c = '\n' ∨ c = '\t' ∨ c = '"'
  · rcases hsp with rfl | rfl | rfl <;> exact absurd hm (by decide)
  · simp only [not_or] at hsp
    exact not_special_of_ne hc hsp.1 hsp.2.1 hsp.2.2 backslash hm (.inl rfl)

theorem escape_spelled {xs : List Symbol} (h : ∀ x ∈ xs, x.IsUnescaped) :
    escape (xs.flatMap spelled) = xs.flatMap escaped := by
  induction xs with
  | nil => rfl
  | cons x xs ih =>
    rw [List.flatMap_cons, List.flatMap_cons, ← ih fun y hy => h y (by simp [hy])]
    cases x with
    | char c => exact escape_append_of_not_mem (backslash_not_mem (h (char c) (by simp))) _
    | byte b => exact escape_byteEscape_append b _

theorem escaped_quote : escaped (char '"') = [backslash, quoteMark] := by decide

theorem escaped_of_ne {c : Char} (h : (char c).IsInline) (hq : c ≠ '"') :
    escaped (char c) = utf8EncodeChar c := by
  have hplain := not_special_of_ne h.1 h.2.1 h.2.2 hq
  simpa [escaped, escape] using escape_append_of_not_special hplain []

theorem flatMap_escaped_map_char {chars : List Char} (h : ∀ b ∈ utf8Bytes chars, IsShown b) :
    (chars.map char).flatMap escaped = utf8Bytes chars := by
  induction chars with
  | nil => rfl
  | cons c chars ih =>
    rw [utf8Bytes_cons] at h ⊢
    have hplain : ∀ b ∈ utf8EncodeChar c, ¬ IsSpecial b := fun b hb => (h b (by simp [hb])).2
    have hescaped : escaped (char c) = utf8EncodeChar c := by
      simpa [escaped, escape] using escape_append_of_not_special hplain []
    rw [List.map_cons, List.flatMap_cons, hescaped, ih fun b hb => h b (by simp [hb])]

theorem unescapeFrom_escaped {xs : List Symbol} (h : ∀ x ∈ xs, x.IsInline) (position : Nat) :
    unescapeFrom position (xs.flatMap escaped) = .ok (xs.flatMap raw) := by
  induction xs generalizing position with
  | nil => rfl
  | cons x xs ih =>
    have hx : x.IsInline := h x (by simp)
    have hrest := fun n => ih (fun y hy => h y (by simp [hy])) n
    rw [List.flatMap_cons, List.flatMap_cons]
    cases x with
    | byte b =>
      change unescapeFrom position (byteEscape b ++ _) = _
      rw [unescapeFrom_byteEscape, hrest]
      rfl
    | char c =>
      by_cases hq : c = '"'
      · subst hq
        rw [escaped_quote, List.cons_append, List.singleton_append, unescapeFrom_quote, hrest]
        rfl
      · have hplain : ∀ b ∈ utf8EncodeChar c, b ≠ quoteMark ∧ b ≠ backslash := by
          intro b hm
          have hs := not_special_of_ne hx.1 hx.2.1 hx.2.2 hq b hm
          simp only [IsSpecial, not_or] at hs
          exact ⟨hs.2.2.2, hs.1⟩
        rw [escaped_of_ne hx hq, unescapeFrom_append hplain, hrest]
        rfl

theorem unescape_escaped {xs : List Symbol} (h : ∀ x ∈ xs, x.IsInline) :
    unescape (xs.flatMap escaped) = .ok (xs.flatMap raw) := unescapeFrom_escaped h 0

theorem backslashesCoded_spelled {xs : List Symbol} (h : ∀ x ∈ xs, x.IsUnescaped) :
    BackslashesCoded (xs.flatMap spelled) := by
  induction xs with
  | nil => trivial
  | cons x xs ih =>
    rw [List.forall_mem_cons] at h
    rw [List.flatMap_cons]
    refine .append ?_ (ih h.2)
    cases x with
    | char c => exact backslashesCoded_of_not_mem (backslash_not_mem h.1)
    | byte b => exact backslashesCoded_byteEscape b

theorem not_pair_infix_escaped {xs : List Symbol} (h : ∀ x ∈ xs, x.IsInline) :
    ¬ [backslash, backslash] <:+: xs.flatMap escaped := by
  have hunescaped : ∀ x ∈ xs, x.IsUnescaped := fun x hx => (h x hx).isUnescaped
  rw [← escape_spelled hunescaped]
  exact (backslashesCoded_spelled hunescaped).not_pair_infix_escape

end Symbol

end FontCodec
