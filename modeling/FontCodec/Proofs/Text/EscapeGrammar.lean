import FontCodec.Escape
import Mathlib.Data.List.Chain

/-!
# The grammar of escape syntax

Readable text is a sequence of tokens. A quote without a backslash takes the byte behind it along, so
only the last token can be a quote alone. Resolving escapes succeeds on exactly the texts
that split into tokens, and otherwise stops at the first backslash with which no token begins.
-/

namespace FontCodec

def IsHexCode (b : UInt8) : Prop :=
  (0x30 ≤ b ∧ b ≤ 0x39) ∨ (0x41 ≤ b ∧ b ≤ 0x46) ∨ (0x61 ≤ b ∧ b ≤ 0x66)

instance (b : UInt8) : Decidable (IsHexCode b) :=
  inferInstanceAs (Decidable ((0x30 ≤ b ∧ b ≤ 0x39) ∨ (0x41 ≤ b ∧ b ≤ 0x46) ∨ (0x61 ≤ b ∧ b ≤ 0x66)))

def hexCodeValue (b : UInt8) : Nat :=
  if b ≤ 0x39 then b.toNat - 0x30 else if b ≤ 0x46 then b.toNat - 0x37 else b.toNat - 0x57

theorem byteValue?_eq (b : UInt8) :
    Hex.byteValue? b = if IsHexCode b then some (hexCodeValue b) else none := by
  have all : ∀ n : Fin 256, Hex.byteValue? (UInt8.ofNat n.val) =
      if IsHexCode (UInt8.ofNat n.val) then some (hexCodeValue (UInt8.ofNat n.val)) else none := by
    decide +kernel
  simpa using all ⟨b.toNat, b.toNat_lt⟩

/-- What is read as one unit. -/
inductive EscapeToken where
  /-- A quote and the byte that it hides. -/
  | quote (hidden : UInt8)
  | lastQuote
  | escaped (b : UInt8) (special : b = quoteMark ∨ b = backslash)
  | named (high low : UInt8) (digits : IsHexCode high ∧ IsHexCode low)
  | plain (b : UInt8) (ordinary : b ≠ quoteMark ∧ b ≠ backslash)

/-- Nothing stands behind the backslash, or the letter of an escape without its two operands. -/
def LacksOperands (rest : Bytes) : Prop :=
  rest = [] ∨ ∃ operands, rest = byteCode :: operands ∧ operands.length < 2

/-- The letter of an escape stands behind the backslash, with operands that are not both digits. -/
def HasBadDigit (rest : Bytes) : Prop :=
  ∃ high low tail, rest = byteCode :: high :: low :: tail ∧ ¬ (IsHexCode high ∧ IsHexCode low)

namespace EscapeToken

def render : EscapeToken → Bytes
  | quote hidden => [quoteMark, hidden]
  | lastQuote => [quoteMark]
  | escaped b _ => [backslash, b]
  | named high low _ => [backslash, byteCode, high, low]
  | plain b _ => [b]

def meaning : EscapeToken → UInt8
  | quote _ => quoteMark
  | lastQuote => quoteMark
  | escaped b _ => b
  | named high low _ => Hex.join (hexCodeValue high) (hexCodeValue low)
  | plain b _ => b

/-- Another token can follow. -/
def IsWhole (t : EscapeToken) : Prop := t ≠ lastQuote

/-- The bytes are the tokens one after the other. -/
structure Spells (tokens : List EscapeToken) (source : Bytes) : Prop where
  joined : tokens.IsChain fun before _ => before.IsWhole
  rendered : tokens.flatMap render = source

/-- No token begins with a backslash in front of these bytes. -/
def Blocked (rest : Bytes) : Prop := ∀ t : EscapeToken, ¬ t.render <+: backslash :: rest

/-- The bytes are tokens up to a backslash with which none begins. -/
structure Stops (tokens : List EscapeToken) (rest source : Bytes) : Prop where
  whole : ∀ t ∈ tokens, t.IsWhole
  rendered : tokens.flatMap render ++ backslash :: rest = source
  blocked : Blocked rest

/-- Reading the tokens one after the other comes to a quote without a backslash. -/
def MeetsBareQuote (source : Bytes) : Prop :=
  ∃ (tokens : List EscapeToken) (rest : Bytes), (∀ t ∈ tokens, t.IsWhole) ∧
    tokens.flatMap render ++ quoteMark :: rest = source

variable {t other : EscapeToken} {tokens : List EscapeToken} {source : Bytes}

theorem render_ne_nil (t : EscapeToken) : t.render ≠ [] := by
  cases t <;> simp [render]

theorem render_append_inj {v w : Bytes} (ht : t.IsWhole ∨ v = []) (hother : other.IsWhole ∨ w = [])
    (h : t.render ++ v = other.render ++ w) : t = other ∧ v = w := by
  have hqb : quoteMark ≠ backslash := by decide
  have hcq : byteCode ≠ quoteMark := by decide
  have hcb : byteCode ≠ backslash := by decide
  cases t <;> cases other <;> grind [render, IsWhole]

theorem spells_cons_iff :
    Spells (t :: tokens) source ↔
      ∃ w, (t.IsWhole ∨ w = []) ∧ Spells tokens w ∧ t.render ++ w = source := by
  constructor
  · rintro ⟨hj, hr⟩
    rw [List.isChain_cons] at hj
    refine ⟨tokens.flatMap render, ?_, ⟨hj.2, rfl⟩, hr⟩
    cases tokens with
    | nil => exact .inr rfl
    | cons other tokens => exact .inl (hj.1 other rfl)
  · rintro ⟨w, hw, ⟨hj, rfl⟩, rfl⟩
    refine ⟨List.isChain_cons.2 ⟨fun other ho => ?_, hj⟩, rfl⟩
    rcases hw with hw | hw
    · exact hw
    · cases tokens with
      | nil => simp at ho
      | cons first tokens => exact absurd (List.append_eq_nil_iff.1 hw).1 first.render_ne_nil

/-- A text is read in one way only. -/
theorem Spells.unique (h : Spells tokens source) {others : List EscapeToken}
    (hothers : Spells others source) : others = tokens := by
  induction tokens generalizing others source with
  | nil =>
    obtain rfl := h.rendered
    cases others with
    | nil => rfl
    | cons other others =>
      exact absurd (List.append_eq_nil_iff.1 hothers.rendered).1 other.render_ne_nil
  | cons t tokens ih =>
    obtain ⟨v, hv, htokens, rfl⟩ := spells_cons_iff.1 h
    cases others with
    | nil => exact absurd (List.append_eq_nil_iff.1 hothers.rendered.symm).1 t.render_ne_nil
    | cons other others =>
      obtain ⟨w, hw, hrest, heq⟩ := spells_cons_iff.1 hothers
      obtain ⟨rfl, rfl⟩ := render_append_inj hw hv heq
      rw [ih htokens hrest]

/-- A text begins with a token, or with a backslash where none begins. -/
theorem front_cases (b : UInt8) (w : Bytes) :
    (∃ (t : EscapeToken) (rest : Bytes), t.IsWhole ∧ b :: w = t.render ++ rest) ∨ b :: w = [quoteMark] ∨
      b = backslash ∧ Blocked w := by
  by_cases hq : b = quoteMark
  · subst hq
    cases w with
    | nil => exact .inr (.inl rfl)
    | cons hidden w => exact .inl ⟨quote hidden, w, EscapeToken.noConfusion, rfl⟩
  · by_cases hb : b = backslash
    · subst hb
      by_cases hopen : ∃ t : EscapeToken, t.render <+: backslash :: w
      · obtain ⟨t, rest, hrest⟩ := hopen
        refine .inl ⟨t, rest, ?_, hrest.symm⟩
        rintro rfl
        exact hq (List.cons.inj hrest).1.symm
      · exact .inr (.inr ⟨rfl, not_exists.1 hopen⟩)
    · exact .inl ⟨plain b ⟨hq, hb⟩, w, EscapeToken.noConfusion, rfl⟩

/-- Induction along the tokens of a text, up to its end or to the first backslash that blocks. -/
@[elab_as_elim]
theorem front_induction {motive : Bytes → Prop} (nil : motive [])
    (token : ∀ (t : EscapeToken) rest, t.IsWhole → motive rest → motive (t.render ++ rest))
    (lastQuote : motive [quoteMark])
    (blocked : ∀ rest, Blocked rest → motive (backslash :: rest)) (source : Bytes) :
    motive source := by
  match source with
  | [] => exact nil
  | b :: w =>
    rcases front_cases b w with ⟨t, rest, ht, hsource⟩ | hsource | ⟨rfl, hw⟩
    · have hlen : rest.length < (b :: w).length := by
        have := List.length_pos_iff.2 t.render_ne_nil
        rw [hsource, List.length_append]
        omega
      rw [hsource]
      exact token t rest ht (front_induction nil token lastQuote blocked rest)
    · exact hsource ▸ lastQuote
    · exact blocked w hw
termination_by source.length
decreasing_by exact hlen

theorem unescapeFrom_render_append (h : t.IsWhole) (position : Nat) (w : Bytes) :
    unescapeFrom position (t.render ++ w) =
      (unescapeFrom (position + t.render.length) w).map (t.meaning :: ·) := by
  have hqb : backslash ≠ quoteMark := by decide
  cases t with
  | quote hidden =>
    rw [unescapeFrom.eq_def]
    simp [render, meaning]
  | lastQuote => exact absurd rfl h
  | escaped b special =>
    have hbc : b ≠ byteCode := by rcases special with rfl | rfl <;> decide
    rw [unescapeFrom.eq_def]
    simp [render, meaning, hqb, hbc, special]
  | named high low digits =>
    rw [unescapeFrom.eq_def]
    simp [render, meaning, hqb, byteValue?_eq, digits.1, digits.2]
  | plain b ordinary =>
    rw [unescapeFrom.eq_def]
    simp [render, meaning, ordinary.1, ordinary.2]

theorem unescapeFrom_flatMap_render_append (h : ∀ t ∈ tokens, t.IsWhole) (position : Nat) (w : Bytes) :
    unescapeFrom position (tokens.flatMap render ++ w) =
      (unescapeFrom (position + (tokens.flatMap render).length) w).map (tokens.map meaning ++ ·) := by
  induction tokens generalizing position with
  | nil => cases hw : unescapeFrom position w <;> simp [hw, Except.map]
  | cons t tokens ih =>
    rw [List.forall_mem_cons] at h
    rw [List.flatMap_cons, List.append_assoc, unescapeFrom_render_append h.1, ih h.2,
      List.length_append, Nat.add_assoc]
    cases unescapeFrom (position + (t.render.length + (tokens.flatMap render).length)) w <;> rfl

theorem unescapeFrom_of_spells (h : Spells tokens source) (position : Nat) :
    unescapeFrom position source = .ok (tokens.map meaning) := by
  induction tokens generalizing source position with
  | nil =>
    obtain rfl := h.rendered
    rfl
  | cons t tokens ih =>
    obtain ⟨w, hw, htokens, rfl⟩ := spells_cons_iff.1 h
    by_cases ht : t.IsWhole
    · rw [unescapeFrom_render_append ht, ih htokens]
      rfl
    · obtain rfl : t = lastQuote := not_not.1 ht
      obtain rfl : w = [] := hw.resolve_left ht
      obtain rfl : tokens = [] := Spells.unique ⟨.nil, rfl⟩ htokens
      rfl

/-- A text splits into tokens as a whole, or up to a backslash that blocks. -/
theorem spells_or_stops (source : Bytes) :
    (∃ tokens, Spells tokens source) ∨ ∃ tokens rest, Stops tokens rest source := by
  induction source using front_induction with
  | nil => exact .inl ⟨[], .nil, rfl⟩
  | token t rest ht ih =>
    rcases ih with ⟨tokens, htokens⟩ | ⟨tokens, w, htokens, rfl, hw⟩
    · exact .inl ⟨t :: tokens, spells_cons_iff.2 ⟨rest, .inl ht, htokens, rfl⟩⟩
    · refine .inr ⟨t :: tokens, w, List.forall_mem_cons.2 ⟨ht, htokens⟩, ?_, hw⟩
      rw [List.flatMap_cons, List.append_assoc]
  | lastQuote => exact .inl ⟨[lastQuote], .singleton _, rfl⟩
  | blocked rest hrest => exact .inr ⟨[], rest, by simp, rfl, hrest⟩

end EscapeToken

/-- The kind of a fault goes with what stands behind the backslash. -/
structure EscapeFault.Explains (fault : EscapeFault) (rest : Bytes) : Prop where
  incomplete : fault = .incomplete ↔ LacksOperands rest
  invalidHex : (∃ c, fault = .invalidHex c) ↔ HasBadDigit rest
  unknownCode : (∃ c, fault = .unknownCode c) ↔ ¬ LacksOperands rest ∧ ¬ HasBadDigit rest

section Faults

variable {rest : Bytes}

theorem LacksOperands.not_hasBadDigit (h : LacksOperands rest) : ¬ HasBadDigit rest := by
  rintro ⟨high, low, tail, rfl, -⟩
  rcases h with h | ⟨operands, h, hlen⟩
  · cases h
  · obtain ⟨-, rfl⟩ := List.cons.inj h
    simp only [List.length_cons] at hlen
    omega

theorem unescapeFrom_of_lacksOperands (h : LacksOperands rest) (position : Nat) :
    unescapeFrom position (backslash :: rest) = .error ⟨position, .incomplete⟩ := by
  have hqb : backslash ≠ quoteMark := by decide
  rcases h with rfl | ⟨operands, rfl, hlen⟩
  · rw [unescapeFrom.eq_def]
    simp [hqb]
  · match operands, hlen with
    | [], _ =>
      rw [unescapeFrom.eq_def]
      simp [hqb]
    | [high], _ =>
      rw [unescapeFrom.eq_def]
      simp [hqb]

theorem unescapeFrom_of_bad_high {high : UInt8} (h : ¬ IsHexCode high) (low : UInt8) (tail : Bytes)
    (position : Nat) : unescapeFrom position (backslash :: byteCode :: high :: low :: tail) =
      .error ⟨position, .invalidHex (characterAt (high :: low :: tail))⟩ := by
  rw [unescapeFrom.eq_def]
  simp [show backslash ≠ quoteMark by decide, byteValue?_eq, h]

theorem unescapeFrom_of_bad_low {high low : UInt8} (hhigh : IsHexCode high) (hlow : ¬ IsHexCode low)
    (tail : Bytes) (position : Nat) :
    unescapeFrom position (backslash :: byteCode :: high :: low :: tail) =
      .error ⟨position, .invalidHex (characterAt (low :: tail))⟩ := by
  rw [unescapeFrom.eq_def]
  simp [show backslash ≠ quoteMark by decide, byteValue?_eq, hhigh, hlow]

theorem unescapeFrom_of_unknown {code : UInt8} (hcode : code ≠ byteCode)
    (hspecial : ¬ (code = quoteMark ∨ code = backslash)) (operands : Bytes) (position : Nat) :
    unescapeFrom position (backslash :: code :: operands) =
      .error ⟨position, .unknownCode (characterAt (code :: operands))⟩ := by
  rw [unescapeFrom.eq_def]
  simp [show backslash ≠ quoteMark by decide, hcode, hspecial]

theorem exists_unescapeFrom_of_hasBadDigit (h : HasBadDigit rest) :
    ∃ c, ∀ position, unescapeFrom position (backslash :: rest) = .error ⟨position, .invalidHex c⟩ := by
  obtain ⟨high, low, tail, rfl, hdigits⟩ := h
  by_cases hhigh : IsHexCode high
  · exact ⟨_, unescapeFrom_of_bad_low hhigh (fun hlow => hdigits ⟨hhigh, hlow⟩) tail⟩
  · exact ⟨_, unescapeFrom_of_bad_high hhigh low tail⟩

theorem exists_unescapeFrom_of_blocked (h : EscapeToken.Blocked rest) (hoperands : ¬ LacksOperands rest)
    (hdigit : ¬ HasBadDigit rest) :
    ∃ c, ∀ position, unescapeFrom position (backslash :: rest) = .error ⟨position, .unknownCode c⟩ := by
  cases rest with
  | nil => exact absurd (.inl rfl) hoperands
  | cons code operands =>
    have hspecial : ¬ (code = quoteMark ∨ code = backslash) :=
      fun hspecial => h (.escaped code hspecial) ⟨operands, rfl⟩
    have hcode : code ≠ byteCode := by
      rintro rfl
      match operands with
      | [] => exact hoperands (.inr ⟨[], rfl, by decide⟩)
      | [high] => exact hoperands (.inr ⟨[high], rfl, by simp⟩)
      | high :: low :: tail =>
        exact hdigit ⟨high, low, tail, rfl, fun digits => h (.named high low digits) ⟨tail, rfl⟩⟩
    exact ⟨_, unescapeFrom_of_unknown hcode hspecial operands⟩

/-- Where no token begins, resolving stops with the fault that explains why. -/
theorem EscapeToken.Blocked.exists_explains (h : EscapeToken.Blocked rest) :
    ∃ fault : EscapeFault, fault.Explains rest ∧
      ∀ position, unescapeFrom position (backslash :: rest) = .error ⟨position, fault⟩ := by
  by_cases hoperands : LacksOperands rest
  · refine ⟨.incomplete, ⟨?_, ?_, ?_⟩, unescapeFrom_of_lacksOperands hoperands⟩
    · simp [hoperands]
    · simp [hoperands.not_hasBadDigit]
    · simp [hoperands]
  · by_cases hdigit : HasBadDigit rest
    · obtain ⟨c, hc⟩ := exists_unescapeFrom_of_hasBadDigit hdigit
      refine ⟨.invalidHex c, ⟨?_, ?_, ?_⟩, hc⟩
      · simp [hoperands]
      · simp [hdigit]
      · simp [hdigit]
    · obtain ⟨c, hc⟩ := exists_unescapeFrom_of_blocked h hoperands hdigit
      refine ⟨.unknownCode c, ⟨?_, ?_, ?_⟩, hc⟩
      · simp [hoperands]
      · simp [hdigit]
      · simp [hoperands, hdigit]

end Faults

open EscapeToken

theorem unescape_eq_ok_iff {source bytes : Bytes} :
    unescape source = .ok bytes ↔ ∃ tokens, Spells tokens source ∧ tokens.map meaning = bytes := by
  constructor
  · intro h
    rcases spells_or_stops source with ⟨tokens, htokens⟩ | ⟨tokens, rest, htokens, rfl, hrest⟩
    · refine ⟨tokens, htokens, ?_⟩
      rw [unescape, unescapeFrom_of_spells htokens] at h
      exact Except.ok.inj h
    · obtain ⟨fault, -, hfault⟩ := hrest.exists_explains
      rw [unescape, unescapeFrom_flatMap_render_append htokens, hfault] at h
      cases h
  · rintro ⟨tokens, htokens, rfl⟩
    exact unescapeFrom_of_spells htokens 0

theorem unescape_eq_error {source : Bytes} {e : EscapeError} (h : unescape source = .error e) :
    ∃ tokens rest, Stops tokens rest source ∧ e.position = (tokens.flatMap render).length ∧
      e.fault.Explains rest := by
  rcases spells_or_stops source with ⟨tokens, htokens⟩ | ⟨tokens, rest, htokens, rfl, hrest⟩
  · rw [unescape, unescapeFrom_of_spells htokens] at h
    cases h
  · obtain ⟨fault, hexplains, hfault⟩ := hrest.exists_explains
    rw [unescape, unescapeFrom_flatMap_render_append htokens, hfault, Nat.zero_add] at h
    obtain rfl := Except.error.inj h
    exact ⟨tokens, rest, ⟨htokens, rfl, hrest⟩, rfl, hexplains⟩

/-- Resolving escapes reads exactly the texts that split into tokens, in the one way in which they do,
and otherwise stops at the first backslash with which no token begins. -/
theorem unescape_iff_spells (source : Bytes) :
    (∀ bytes, unescape source = .ok bytes ↔
      ∃ tokens, Spells tokens source ∧ tokens.map meaning = bytes) ∧
    (∀ tokens others, Spells tokens source → Spells others source → others = tokens) ∧
    ∀ e, unescape source = .error e →
      ∃ tokens rest, Stops tokens rest source ∧ e.position = (tokens.flatMap render).length ∧
        e.fault.Explains rest :=
  ⟨fun _ => unescape_eq_ok_iff, fun _ _ h => h.unique, fun _ => unescape_eq_error⟩

/-- A quote hides a backslash, and the escape behind them stands at another offset. -/
example : unescape [quoteMark, backslash, backslash, byteCode, 0x34, 0x31] = .ok [quoteMark, 0x41] ∧
    unescape [quoteMark, backslash, backslash, byteCode, 0x34] = .error ⟨2, .incomplete⟩ := by decide

end FontCodec
