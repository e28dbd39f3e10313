import FontCodec.Escape
import FontCodec.Proofs.Text.CodePoint

/-!
# Reading and writing escapes

What the two passes over escape syntax do with one byte, one spelled byte and one plain character.
-/

namespace FontCodec

open String (utf8EncodeChar)

def IsHexDigit (b : UInt8) : Prop := (0x30 ≤ b ∧ b ≤ 0x39) ∨ (0x61 ≤ b ∧ b ≤ 0x66)

instance (b : UInt8) : Decidable (IsHexDigit b) :=
  inferInstanceAs (Decidable ((0x30 ≤ b ∧ b ≤ 0x39) ∨ (0x61 ≤ b ∧ b ≤ 0x66)))

theorem hexDigit_spec {n : Nat} (h : n < 16) :
    IsHexDigit (asciiByte (Hex.digit n)) ∧ Hex.byteValue? (asciiByte (Hex.digit n)) = some n := by
  have all : ∀ m : Fin 16, IsHexDigit (asciiByte (Hex.digit m)) ∧
      Hex.byteValue? (asciiByte (Hex.digit m)) = some m.val := by decide
  exact all ⟨n, h⟩

theorem exists_byteEscape (b : UInt8) :
    ∃ high low, byteEscape b = [backslash, byteCode, high, low] ∧ IsHexDigit high ∧
      IsHexDigit low ∧ Hex.byteValue? high = some (b.toNat / 16) ∧
      Hex.byteValue? low = some (b.toNat % 16) := by
  have hb := b.toNat_lt
  obtain ⟨h1, h2⟩ := hexDigit_spec (show b.toNat / 16 < 16 by omega)
  obtain ⟨l1, l2⟩ := hexDigit_spec (show b.toNat % 16 < 16 by omega)
  exact ⟨_, _, rfl, h1, l1, h2, l2⟩

theorem mem_byteEscape {a b : UInt8} (ha : a ∈ byteEscape b) :
    a = backslash ∨ a = byteCode ∨ IsHexDigit a := by
  obtain ⟨high, low, he, hh, hl, -⟩ := exists_byteEscape b
  simp only [he, List.mem_cons, List.not_mem_nil, or_false] at ha
  rcases ha with rfl | rfl | rfl | rfl
  · exact .inl rfl
  · exact .inr (.inl rfl)
  · exact .inr (.inr hh)
  · exact .inr (.inr hl)

theorem utf8Bytes_escape_digits (b : UInt8) :
    utf8Bytes ('\\' :: 'c' :: Hex.digits b) = byteEscape b := by
  have hdigit : ∀ n, n < 16 → utf8EncodeChar (Hex.digit n) = [asciiByte (Hex.digit n)] := by
    intro n hn
    have all : ∀ m : Fin 16, (Hex.digit m).toNat < 128 := by decide
    exact utf8EncodeChar_of_lt (all ⟨n, hn⟩)
  have hb := b.toNat_lt
  have hhigh := hdigit (b.toNat / 16) (by omega)
  have hlow := hdigit (b.toNat % 16) (by omega)
  simp only [Hex.digits, utf8Bytes_cons, utf8Bytes_nil, hhigh, hlow]
  rfl

/-- The bytes that the escaping pass rewrites. -/
def IsSpecial (b : UInt8) : Prop :=
  b = backslash ∨ b = lineFeed ∨ b = tabulator ∨ b = quoteMark

instance (b : UInt8) : Decidable (IsSpecial b) :=
  inferInstanceAs (Decidable (b = backslash ∨ b = lineFeed ∨ b = tabulator ∨ b = quoteMark))

/-- The bytes that are no control codes and that the escaping pass leaves alone. -/
def IsShown (b : UInt8) : Prop := 0x20 ≤ b ∧ ¬ IsSpecial b

instance (b : UInt8) : Decidable (IsShown b) := inferInstanceAs (Decidable (0x20 ≤ b ∧ ¬ IsSpecial b))

theorem IsHexDigit.not_special {b : UInt8} (h : IsHexDigit b) : ¬ IsSpecial b := by
  rintro (rfl | rfl | rfl | rfl) <;> exact absurd h (by decide)

theorem escapeByte_of_not_special {b : UInt8} (h : ¬ IsSpecial b) (w : Bytes) :
    escapeByte b w = [b] := by
  simp only [IsSpecial, not_or] at h
  obtain ⟨h1, h2, h3, h4⟩ := h
  simp [escapeByte, h1, h2, h3, h4]

theorem escape_cons_of_not_special {b : UInt8} (h : ¬ IsSpecial b) (w : Bytes) :
    escape (b :: w) = b :: escape w := by
  rw [escape, escapeByte_of_not_special h, List.singleton_append]

/-- What escaping puts in is special or the letter of a line feed or a tab. -/
theorem isSpecial_of_mem_escapeByte {a b : UInt8} {w : Bytes} (hb : IsSpecial b)
    (ha : a ∈ escapeByte b w) : IsSpecial a ∨ a = asciiByte 'n' ∨ a = asciiByte 't' := by
  simp only [escapeByte] at ha
  grind [IsSpecial]

theorem escape_backslash_byteCode (tail : Bytes) :
    escape (backslash :: byteCode :: tail) = backslash :: byteCode :: escape tail := by
  have hcode : escape (byteCode :: tail) = byteCode :: escape tail :=
    escape_cons_of_not_special (by decide) tail
  rw [← hcode]
  rfl

/-- A byte is the backslash of an escape, is put behind a backslash under a letter of its own, or stays
as it is. The letter of a backslash is one again. -/
theorem escape_cons_cases (b : UInt8) (rest : Bytes) :
    (∃ tail, b = backslash ∧ rest = byteCode :: tail) ∨
      (∃ letter, escape (b :: rest) = backslash :: letter :: escape rest ∧
        (letter = backslash → b = backslash ∧ rest.head? ≠ some byteCode)) ∨
        ¬ IsSpecial b ∧ escape (b :: rest) = b :: escape rest := by
  by_cases hs : IsSpecial b
  · rcases hs with rfl | rfl | rfl | rfl
    · by_cases hcode : rest.head? = some byteCode
      · obtain ⟨tail, rfl⟩ := List.head?_eq_some_iff.1 hcode
        exact .inl ⟨tail, rfl, rfl⟩
      · exact .inr (.inl ⟨backslash, by simp [escape, escapeByte, hcode], fun _ => ⟨rfl, hcode⟩⟩)
    · exact .inr (.inl ⟨asciiByte 'n', rfl, fun hn => absurd hn (by decide)⟩)
    · exact .inr (.inl ⟨asciiByte 't', rfl, fun ht => absurd ht (by decide)⟩)
    · exact .inr (.inl ⟨quoteMark, rfl, fun hq => absurd hq (by decide)⟩)
  · exact .inr (.inr ⟨hs, escape_cons_of_not_special hs rest⟩)

theorem escape_append_of_not_special {u : Bytes} (h : ∀ b ∈ u, ¬ IsSpecial b) (w : Bytes) :
    escape (u ++ w) = u ++ escape w := by
  induction u with
  | nil => rfl
  | cons b u ih =>
    rw [List.cons_append, escape_cons_of_not_special (h b (by simp)),
      ih fun c hc => h c (by simp [hc])]
    rfl

/-- Escaping makes no text without special bytes that was not there before. -/
theorem prefix_of_prefix_escape {t u : Bytes} (ht : ∀ b ∈ t, ¬ IsSpecial b) (h : t <+: escape u) :
    t <+: u := by
  induction u generalizing t with
  | nil => exact h
  | cons b u ih =>
    cases t with
    | nil => exact List.nil_prefix
    | cons a t =>
      by_cases hb : IsSpecial b
      · have hback : ∃ rest, escape (b :: u) = backslash :: rest := by
          rcases hb with rfl | rfl | rfl | rfl
          · rw [escape, escapeByte, if_pos rfl]
            split <;> exact ⟨_, rfl⟩
          · exact ⟨_, rfl⟩
          · exact ⟨_, rfl⟩
          · exact ⟨_, rfl⟩
        obtain ⟨rest, hrest⟩ := hback
        rw [hrest, List.cons_prefix_cons] at h
        exact absurd (.inl h.1) (ht a (by simp))
      · rw [escape_cons_of_not_special hb, List.cons_prefix_cons] at h
        rw [List.cons_prefix_cons]
        exact ⟨h.1, ih (fun x hx => ht x (by simp [hx])) h.2⟩

/-- Escaping puts in no text that begins with another byte than those. -/
theorem infix_of_infix_escape {t u : Bytes} (ht : ∀ b ∈ t, ¬ IsSpecial b)
    (hhead : ∀ b ∈ t.head?, b ≠ asciiByte 'n' ∧ b ≠ asciiByte 't') (h : t <:+: escape u) :
    t <:+: u := by
  induction u with
  | nil => exact h
  | cons b u ih =>
    rw [escape] at h
    rcases infix_append_cases h with ⟨z, hz, hsuffix, hp⟩ | hi
    · by_cases hb : IsSpecial b
      · cases t with
        | nil => exact List.nil_infix
        | cons a t =>
          obtain ⟨x, z, rfl⟩ := List.exists_cons_of_ne_nil hz
          obtain rfl : a = x := (List.cons_prefix_cons.1 hp).1
          obtain ⟨hn, htab⟩ := hhead a rfl
          rcases isSpecial_of_mem_escapeByte hb (hsuffix.subset List.mem_cons_self) with ha | ha | ha
          · exact absurd ha (ht a List.mem_cons_self)
          · exact absurd ha hn
          · exact absurd ha htab
      · have hopen : escapeByte b u ++ escape u = escape (b :: u) := rfl
        have hzb : z = escapeByte b u := by
          rw [escapeByte_of_not_special hb] at hsuffix ⊢
          exact (List.suffix_cons_iff.1 hsuffix).resolve_right fun hnil =>
            hz (List.suffix_nil.1 hnil)
        rw [hzb, hopen] at hp
        exact (prefix_of_prefix_escape ht hp).isInfix
    · exact (ih hi).trans (List.suffix_cons b u).isInfix

/-- Only a backslash looks at the byte behind it. -/
theorem escape_append_of_not_mem {u : Bytes} (h : backslash ∉ u) (w : Bytes) :
    escape (u ++ w) = escape u ++ escape w := by
  induction u with
  | nil => rfl
  | cons b u ih =>
    have hb : b ≠ backslash := fun heq => h (by simp [heq])
    have hu : backslash ∉ u := fun hm => h (by simp [hm])
    have hstep : escapeByte b (u ++ w) = escapeByte b u := by
      simp [escapeByte, hb]
    rw [List.cons_append, escape, hstep, ih hu, escape, List.append_assoc]

theorem escape_byteEscape_append (b : UInt8) (w : Bytes) :
    escape (byteEscape b ++ w) = byteEscape b ++ escape w := by
  obtain ⟨high, low, he, hh, hl, -⟩ := exists_byteEscape b
  have hplain : ∀ x ∈ [byteCode, high, low], ¬ IsSpecial x := by
    simp only [List.forall_mem_cons, List.not_mem_nil, false_implies, implies_true, and_true]
    exact ⟨by decide, hh.not_special, hl.not_special⟩
  have hhead : escape (backslash :: ([byteCode, high, low] ++ w)) =
      backslash :: escape ([byteCode, high, low] ++ w) := rfl
  rw [he, List.cons_append, hhead, escape_append_of_not_special hplain]
  rfl

theorem pair_infix_of_append {u w : Bytes} (hu : backslash ∉ u)
    (h : [backslash, backslash] <:+: u ++ w) : [backslash, backslash] <:+: w := by
  induction u with
  | nil => exact h
  | cons b u ih =>
    rcases List.infix_cons_iff.1 h with hp | hi
    · exact absurd (List.cons_prefix_cons.1 hp).1 fun heq => hu (by simp [heq])
    · exact ih (fun hm => hu (by simp [hm])) hi

/-- An escape that does not name a backslash holds no pair of backslashes. -/
theorem pair_infix_of_escape {u w : Bytes} (hne : u ≠ []) (hu : backslash ∉ u)
    (h : [backslash, backslash] <:+: backslash :: (u ++ w)) : [backslash, backslash] <:+: w := by
  rcases List.infix_cons_iff.1 h with hp | hi
  · have htail := (List.cons_prefix_cons.1 hp).2
    cases u with
    | nil => exact absurd rfl hne
    | cons b u => exact absurd (List.cons_prefix_cons.1 htail).1 fun heq => hu (by simp [heq])
  · exact pair_infix_of_append hu hi

theorem unescapeFrom_byteEscape (position : Nat) (b : UInt8) (w : Bytes) :
    unescapeFrom position (byteEscape b ++ w) =
      (unescapeFrom (position + 4) w).map (b :: ·) := by
  obtain ⟨high, low, he, -, -, hh, hl⟩ := exists_byteEscape b
  rw [he, List.cons_append, List.cons_append, List.cons_append, List.cons_append, List.nil_append,
    unescapeFrom.eq_def]
  simp [hh, hl, Hex.join_halves, show backslash ≠ quoteMark by decide]

theorem unescapeFrom_quote (position : Nat) (w : Bytes) :
    unescapeFrom position (backslash :: quoteMark :: w) =
      (unescapeFrom (position + 2) w).map (quoteMark :: ·) := by
  rw [unescapeFrom.eq_def]
  simp [show backslash ≠ quoteMark by decide, show quoteMark ≠ byteCode by decide]

theorem unescapeFrom_append {u : Bytes} (h : ∀ b ∈ u, b ≠ quoteMark ∧ b ≠ backslash)
    (position : Nat) (w : Bytes) :
    unescapeFrom position (u ++ w) = (unescapeFrom (position + u.length) w).map (u ++ ·) := by
  induction u generalizing position with
  | nil =>
    cases hw : unescapeFrom position w <;> simp [hw, Except.map]
  | cons b u ih =>
    obtain ⟨hq, hb⟩ := h b (by simp)
    have hstep : unescapeFrom position (b :: (u ++ w)) =
        (unescapeFrom (position + 1) (u ++ w)).map (b :: ·) := by
      rw [unescapeFrom.eq_def]
      simp [hq, hb]
    rw [List.cons_append, hstep, ih fun c hc => h c (by simp [hc])]
    rw [List.length_cons, Nat.add_assoc, Nat.add_comm 1]
    cases unescapeFrom (position + (u.length + 1)) w <;> rfl

end FontCodec
