import FontCodec.Proofs.Text.EscapeGrammar
import FontCodec.Proofs.Text.EscapeSyntax

/-!
# Resolving what the escaping pass writes

The escaping pass writes a token for each byte and leaves the escapes of bytes as they are. So resolving
its result turns these escapes into the bytes that they name and brings back everything else, but for
line feeds and tabs, whose escapes cannot be resolved.
-/

namespace FontCodec

/-- An escape that names a byte stands in front. -/
def NamesByte (data : Bytes) : Prop :=
  ∃ high low rest, data = backslash :: byteCode :: high :: low :: rest ∧ IsHexCode high ∧ IsHexCode low

/-- The bytes with each escape replaced by the byte that it names. -/
def resolveNamed : Bytes → Bytes
  | b :: code :: high :: low :: tail =>
    if b = backslash ∧ code = byteCode ∧ IsHexCode high ∧ IsHexCode low then
      Hex.join (hexCodeValue high) (hexCodeValue low) :: resolveNamed tail
    else b :: resolveNamed (code :: high :: low :: tail)
  | b :: rest => b :: resolveNamed rest
  | [] => []
termination_by structural data => data

/-- Bytes without line feeds and tabs in which every beginning of an escape names a byte. -/
structure IsResolvable (data : Bytes) : Prop where
  noLineFeed : lineFeed ∉ data
  noTab : tabulator ∉ data
  named : ∀ tail, backslash :: byteCode :: tail <:+ data → NamesByte (backslash :: byteCode :: tail)

theorem isHexCode_not_special {b : UInt8} (h : IsHexCode b) : ¬ IsSpecial b := by
  rintro (rfl | rfl | rfl | rfl) <;> exact absurd h (by decide)

theorem resolveNamed_named {high low : UInt8} (digits : IsHexCode high ∧ IsHexCode low)
    (rest : Bytes) :
    resolveNamed (backslash :: byteCode :: high :: low :: rest) =
      Hex.join (hexCodeValue high) (hexCodeValue low) :: resolveNamed rest := by
  simp [resolveNamed, digits.1, digits.2]

theorem resolveNamed_cons {b : UInt8} {rest : Bytes} (h : ¬ NamesByte (b :: rest)) :
    resolveNamed (b :: rest) = b :: resolveNamed rest := by
  match rest with
  | [] | [_] | [_, _] => rfl
  | code :: high :: low :: tail =>
    have hname : ¬ (b = backslash ∧ code = byteCode ∧ IsHexCode high ∧ IsHexCode low) := by
      rintro ⟨rfl, rfl, hhigh, hlow⟩
      exact h ⟨high, low, tail, rfl, hhigh, hlow⟩
    rw [resolveNamed, if_neg hname]

/-- Without the beginning of an escape nothing changes. -/
theorem resolveNamed_eq_self {data : Bytes} (h : ¬ [backslash, byteCode] <:+: data) :
    resolveNamed data = data := by
  induction data with
  | nil => rfl
  | cons b rest ih =>
    rw [resolveNamed_cons, ih fun hi => h (hi.trans (List.suffix_cons b rest).isInfix)]
    rintro ⟨high, low, tail, heq, -⟩
    exact h (heq ▸ (List.prefix_append [backslash, byteCode] _).isInfix)

theorem isResolvable_cons_iff {b : UInt8} {rest : Bytes} (hn : b ≠ lineFeed) (ht : b ≠ tabulator)
    (hb : ∀ tail, b :: rest = backslash :: byteCode :: tail → NamesByte (b :: rest)) :
    IsResolvable (b :: rest) ↔ IsResolvable rest := by
  constructor
  · rintro ⟨hline, htab, hnamed⟩
    exact ⟨fun hm => hline (List.mem_cons_of_mem b hm), fun hm => htab (List.mem_cons_of_mem b hm),
      fun tail htail => hnamed tail (htail.trans (List.suffix_cons b rest))⟩
  · rintro ⟨hline, htab, hnamed⟩
    refine ⟨by simp [hn.symm, hline], by simp [ht.symm, htab], fun tail htail => ?_⟩
    rcases List.suffix_cons_iff.1 htail with heq | htail
    · exact heq ▸ hb tail heq.symm
    · exact hnamed tail htail

theorem isResolvable_named_iff {high low : UInt8} (digits : IsHexCode high ∧ IsHexCode low)
    {rest : Bytes} :
    IsResolvable (backslash :: byteCode :: high :: low :: rest) ↔ IsResolvable rest := by
  have hplain : ∀ {b : UInt8} {w : Bytes}, ¬ IsSpecial b →
      (IsResolvable (b :: w) ↔ IsResolvable w) := by
    intro b w hs
    simp only [IsSpecial, not_or] at hs
    exact isResolvable_cons_iff hs.2.1 hs.2.2.1 fun tail heq => absurd (List.cons.inj heq).1 hs.1
  calc IsResolvable (backslash :: byteCode :: high :: low :: rest)
    _ ↔ IsResolvable (byteCode :: high :: low :: rest) :=
      isResolvable_cons_iff (by decide) (by decide) fun _ _ => ⟨high, low, rest, rfl, digits⟩
    _ ↔ IsResolvable (high :: low :: rest) := hplain (by decide)
    _ ↔ IsResolvable (low :: rest) := hplain (isHexCode_not_special digits.1)
    _ ↔ IsResolvable rest := hplain (isHexCode_not_special digits.2)

open EscapeToken

/-- The escaping pass writes what stands in front as one token, with the meaning that resolving gives
to it. -/
structure WritesToken (t : EscapeToken) (rest data : Bytes) : Prop where
  whole : t.IsWhole
  shorter : rest.length < data.length
  escaped : escape data = t.render ++ escape rest
  resolvable : IsResolvable data ↔ IsResolvable rest
  resolved : resolveNamed data = t.meaning :: resolveNamed rest

theorem writesToken_named {high low : UInt8} (digits : IsHexCode high ∧ IsHexCode low) (rest : Bytes) :
    WritesToken (named high low digits) rest (backslash :: byteCode :: high :: low :: rest) where
  whole := EscapeToken.noConfusion
  shorter := by
    simp only [List.length_cons]
    omega
  escaped := by
    rw [escape_backslash_byteCode, escape_cons_of_not_special (isHexCode_not_special digits.1),
      escape_cons_of_not_special (isHexCode_not_special digits.2)]
    rfl
  resolvable := isResolvable_named_iff digits
  resolved := resolveNamed_named digits rest

/-- A byte that begins no escape is a token of its own. -/
theorem exists_writesToken {b : UInt8} {rest : Bytes} (hn : b ≠ lineFeed) (ht : b ≠ tabulator)
    (hb : b = backslash → rest.head? ≠ some byteCode) : ∃ t, WritesToken t rest (b :: rest) := by
  have hfront : ∀ tail, b :: rest ≠ backslash :: byteCode :: tail := by
    rintro tail heq
    obtain ⟨rfl, rfl⟩ := List.cons.inj heq
    exact hb rfl rfl
  have hname : ¬ NamesByte (b :: rest) := fun ⟨_, _, _, heq, _⟩ => hfront _ heq
  have hresolvable := isResolvable_cons_iff hn ht fun tail heq => absurd heq (hfront tail)
  by_cases hspecial : b = quoteMark ∨ b = backslash
  · have hescape : escape (b :: rest) = [backslash, b] ++ escape rest := by
      rcases hspecial with rfl | rfl
      · rfl
      · simp [escape, escapeByte, hb]
    exact ⟨escaped b hspecial, EscapeToken.noConfusion, Nat.lt_add_one rest.length, hescape, hresolvable,
      resolveNamed_cons hname⟩
  · have hordinary := not_or.1 hspecial
    have hescape : escape (b :: rest) = [b] ++ escape rest :=
      escape_cons_of_not_special (by simp [IsSpecial, hn, ht, hordinary]) rest
    exact ⟨plain b hordinary, EscapeToken.noConfusion, Nat.lt_add_one rest.length, hescape, hresolvable,
      resolveNamed_cons hname⟩

theorem blocked_letter {letter : UInt8} (h : letter = asciiByte 'n' ∨ letter = asciiByte 't')
    (w : Bytes) : Blocked (letter :: w) := by
  intro t
  rcases h with rfl | rfl <;> cases t <;>
    grind [render, quoteMark, backslash, byteCode, asciiByte]

/-- Escaping makes no digits where there were none. -/
theorem blocked_byteCode {tail : Bytes} (h : ¬ NamesByte (backslash :: byteCode :: tail)) :
    Blocked (byteCode :: escape tail) := by
  intro t hp
  cases t with
  | named high low digits =>
    have hdigits : [high, low] <+: escape tail := by simpa [render] using hp
    have hplain : ∀ b ∈ [high, low], ¬ IsSpecial b := by
      simp [isHexCode_not_special digits.1, isHexCode_not_special digits.2]
    obtain ⟨rest, rfl⟩ := prefix_of_prefix_escape hplain hdigits
    exact h ⟨high, low, rest, rfl, digits⟩
  | quote hidden => exact absurd (List.cons_prefix_cons.1 hp).1 (by decide)
  | lastQuote => exact absurd (List.cons_prefix_cons.1 hp).1 (by decide)
  | escaped b special =>
    obtain rfl : b = byteCode := by simpa [render] using hp
    exact absurd special (by decide)
  | plain b ordinary => exact ordinary.2 (List.cons_prefix_cons.1 hp).1

theorem writesToken_or_blocked (b : UInt8) (rest : Bytes) :
    (∃ t w, WritesToken t w (b :: rest)) ∨
      ¬ IsResolvable (b :: rest) ∧ ∃ w, escape (b :: rest) = backslash :: w ∧ Blocked w := by
  by_cases hn : b = lineFeed
  · subst hn
    exact .inr ⟨fun h => h.noLineFeed (by simp), _, rfl, blocked_letter (.inl rfl) _⟩
  by_cases ht : b = tabulator
  · subst ht
    exact .inr ⟨fun h => h.noTab (by simp), _, rfl, blocked_letter (.inr rfl) _⟩
  by_cases hb : b = backslash → rest.head? ≠ some byteCode
  · obtain ⟨t, h⟩ := exists_writesToken hn ht hb
    exact .inl ⟨t, rest, h⟩
  simp only [not_forall, not_not, List.head?_eq_some_iff] at hb
  obtain ⟨rfl, tail, rfl⟩ := hb
  by_cases hname : NamesByte (backslash :: byteCode :: tail)
  · obtain ⟨high, low, w, heq, digits⟩ := hname
    exact .inl ⟨named high low digits, w, heq ▸ writesToken_named digits w⟩
  · exact .inr ⟨fun h => hname (h.named tail (List.suffix_refl _)), _,
      escape_backslash_byteCode tail, blocked_byteCode hname⟩

/-- What resolving makes of escaped bytes, wherever they stand. -/
theorem unescapeFrom_escape_eq_ok_iff (data : Bytes) (position : Nat) (bytes : Bytes) :
    unescapeFrom position (escape data) = .ok bytes ↔
      IsResolvable data ∧ resolveNamed data = bytes := by
  match data with
  | [] =>
    have hnil : IsResolvable [] := ⟨by simp, by simp, fun tail htail => by simp at htail⟩
    simp [escape, unescapeFrom, resolveNamed, hnil]
  | b :: rest =>
    rcases writesToken_or_blocked b rest with ⟨t, w, h⟩ | ⟨hn, w, hescape, hw⟩
    · have hlen := h.shorter
      have ih := unescapeFrom_escape_eq_ok_iff w (position + t.render.length)
      rw [h.escaped, unescapeFrom_render_append h.whole, h.resolvable, h.resolved]
      constructor
      · intro hok
        cases hrest : unescapeFrom (position + t.render.length) (escape w) with
        | error e => simp [hrest, Except.map] at hok
        | ok tail =>
          obtain ⟨hresolvable, hresolved⟩ := (ih tail).1 hrest
          refine ⟨hresolvable, ?_⟩
          rw [hrest] at hok
          rw [hresolved]
          exact Except.ok.inj hok
      · rintro ⟨hresolvable, rfl⟩
        rw [(ih _).2 ⟨hresolvable, rfl⟩]
        rfl
    · obtain ⟨fault, -, hfault⟩ := hw.exists_explains
      rw [hescape, hfault]
      simp [hn]
termination_by data.length
decreasing_by exact hlen

/-- Resolving reads escaped bytes back exactly if these hold no line feed, no tab and no beginning of an
escape that names no byte, and it changes nothing but the escapes of bytes. -/
theorem unescape_escape_iff (data : Bytes) :
    (∀ bytes, unescape (escape data) = .ok bytes ↔
      IsResolvable data ∧ resolveNamed data = bytes) ∧
    (lineFeed ∉ data → tabulator ∉ data → ¬ [backslash, byteCode] <:+: data →
      unescape (escape data) = .ok data) := by
  refine ⟨unescapeFrom_escape_eq_ok_iff data 0, fun hline htab hcode => ?_⟩
  have hresolvable : IsResolvable data := by
    refine ⟨hline, htab, fun tail htail => absurd ?_ hcode⟩
    exact (List.prefix_append [backslash, byteCode] tail).isInfix.trans htail.isInfix
  exact (unescapeFrom_escape_eq_ok_iff data 0 data).2 ⟨hresolvable, resolveNamed_eq_self hcode⟩

/-- Of three backslashes two are brought back and the last one names a byte. -/
example : unescape (escape [backslash, backslash, backslash, byteCode, 0x34, 0x31, quoteMark]) =
    .ok [backslash, backslash, 0x41, quoteMark] := by decide

end FontCodec
