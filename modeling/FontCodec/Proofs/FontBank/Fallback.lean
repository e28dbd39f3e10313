import FontCodec.Proofs.FontBank.GlyphStage
import FontCodec.Proofs.FontBank.Totality
import FontCodec.Proofs.Text.Backslashes

/-!
# Bytes without a glyph

A byte that no glyph begins with and that does not pass is spelled as an escape. The escape survives the
later passes unless a composed sequence takes a part of it: a pair of backslashes takes the
backslash in front, and a sequence that begins with the last character of the escape goes on behind it.
-/

namespace FontCodec

def percent : UInt8 := 0x25

def fallback (b : UInt8) : String :=
  if b = lineFeed then "\\n"
  else if b = tabulator then "\\t"
  else if b = quoteMark then "\\\""
  else String.ofList ('\\' :: 'c' :: Hex.digits b)

/-- The bytes with which a spelling can end. -/
def IsFallbackEnd (b : UInt8) : Prop :=
  b = asciiByte 'n' ∨ b = asciiByte 't' ∨ b = quoteMark ∨ IsHexDigit b

instance (b : UInt8) : Decidable (IsFallbackEnd b) :=
  inferInstanceAs (Decidable (b = asciiByte 'n' ∨ b = asciiByte 't' ∨ b = quoteMark ∨ IsHexDigit b))

theorem IsFallbackEnd.lt {y : UInt8} (hy : IsFallbackEnd y) : y < 128 := by
  rcases hy with rfl | rfl | rfl | hex
  · decide
  · decide
  · decide
  · exact hex.lt

namespace FontBank

theorem utf8_fallback_of_verbatim {b : UInt8} (hv : isVerbatim b = true) (hb : b ≠ backslash) :
    ∃ y, IsFallbackEnd y ∧ utf8 (fallback b) = [backslash, y] ∧
      ∀ w, escape (b :: w) = backslash :: y :: escape w := by
  rcases isVerbatim_iff.1 hv with rfl | rfl | rfl | rfl
  · exact absurd rfl hb
  · exact ⟨asciiByte 'n', by decide, by decide, fun _ => rfl⟩
  · exact ⟨asciiByte 't', by decide, by decide, fun _ => rfl⟩
  · exact ⟨quoteMark, by decide, by decide, fun _ => rfl⟩

theorem utf8_fallback_of_not_verbatim {b : UInt8} (hv : isVerbatim b = false) :
    utf8 (fallback b) = byteEscape b := by
  have hs : ¬ IsSpecial b := isVerbatim_iff.not.1 (by simp [hv])
  simp only [IsSpecial, not_or] at hs
  obtain ⟨-, hn, ht, hq⟩ := hs
  rw [fallback, if_neg hn, if_neg ht, if_neg hq, utf8_ofList]
  exact utf8Bytes_escape_digits b

theorem isFallbackEnd_of_getLast? {b y : UInt8} (h : (utf8 (fallback b)).getLast? = some y) :
    IsFallbackEnd y := by
  by_cases hv : isVerbatim b = true ∧ b ≠ backslash
  · obtain ⟨z, hz, htext, -⟩ := utf8_fallback_of_verbatim hv.1 hv.2
    rw [htext] at h
    obtain rfl : z = y := by simpa using h
    exact hz
  · have htext : utf8 (fallback b) = byteEscape b := by
      by_cases hb : b = backslash
      · rw [hb]
        decide
      · exact utf8_fallback_of_not_verbatim (Bool.eq_false_iff.2 fun ht => hv ⟨ht, hb⟩)
    obtain ⟨high, low, he, -, hl, -⟩ := exists_byteEscape b
    rw [htext, he] at h
    obtain rfl : low = y := by simpa using h
    exact .inr (.inr (.inr hl))

variable {bank : FontBank} {pages : List UInt8}

/-- What decoding does behind the glyph stage. -/
def finish (bank : FontBank) (text : Bytes) : Bytes :=
  bank.compositesToReadable.apply (escape (bank.compositesToReadable.apply text))

theorem readableBytes_eq_finish (payload : Bytes) :
    bank.readableBytes payload = bank.finish (bank.glyphText payload) := rfl

/-- Whether a pair of backslashes is a composed sequence. -/
def HasPair (bank : FontBank) : Prop := ∃ c ∈ bank.composites, utf8 c.game = [backslash, backslash]

/-- A composed sequence begins with the byte and goes on in the text behind it. -/
def GoesOn (bank : FontBank) (y : UInt8) (text : Bytes) : Prop :=
  ∃ c ∈ bank.composites, ∃ tail, utf8 c.game = y :: tail ∧ tail <+: text

/-- The spelling of a byte between two payloads loses a part to a composed sequence: its backslash
to a pair, or its last character to a sequence that goes on behind it. -/
def Merges (bank : FontBank) (p : Bytes) (b : UInt8) (q : Bytes) : Prop :=
  (isVerbatim b = false ∧ bank.HasPair ∧ endsOdd (bank.glyphText p) = true) ∨
    ∃ y, (utf8 (fallback b)).getLast? = some y ∧ bank.GoesOn y (bank.glyphText q)

/-- A composed sequence that begins where a spelling can end goes on with a positioning code, cannot
begin again before its end, and reads as text past ASCII. -/
def EndsApart (composites : List Composite) (readable : Bytes) : Bytes → Prop
  | [] => False
  | y :: tail => y < 128 ∧ y ≠ byteCode ∧ (IsFallbackEnd y →
      tail.head? = some tilde ∧ readable.head?.any (128 ≤ ·) ∧
        ∀ d ∈ composites, ¬ BeginsIn (utf8 d.game) tail ∧ ¬ BeginsIn (utf8 d.readable) tail)

instance (composites : List Composite) (readable : Bytes) :
    (game : Bytes) → Decidable (EndsApart composites readable game)
  | [] => inferInstanceAs (Decidable False)
  | y :: tail => inferInstanceAs (Decidable (y < 128 ∧ y ≠ byteCode ∧ (IsFallbackEnd y →
      tail.head? = some tilde ∧ readable.head?.any (128 ≤ ·) ∧
        ∀ d ∈ composites, ¬ BeginsIn (utf8 d.game) tail ∧ ¬ BeginsIn (utf8 d.readable) tail)))

theorem EndsApart.mono {composites composites' : List Composite} {readable game : Bytes}
    (h : EndsApart composites readable game) (hsub : ∀ d ∈ composites', d ∈ composites) :
    EndsApart composites' readable game := by
  match game, h with
  | _ :: _, ⟨hlt, hne, hend⟩ =>
    exact ⟨hlt, hne, fun hy => ⟨(hend hy).1, (hend hy).2.1, fun d hd => (hend hy).2.2 d (hsub d hd)⟩⟩

/-- What the tables of a bank need for spellings to stay apart from what stands around them. -/
structure FallbackTables (bank : FontBank) (pages : List UInt8) : Prop where
  ascii : bank.AsciiPassthrough
  paged : Paged pages bank.glyphs
  apart : bank.GamesApart
  pair : ∀ c ∈ bank.composites, backslash ∈ utf8 c.game →
    utf8 c.game = [backslash, backslash] ∧ utf8 c.readable = [tilde, percent]
  shown : ∀ c ∈ bank.composites, ∀ b ∈ utf8 c.game, b = backslash ∨ IsShown b
  ends : ∀ c ∈ bank.composites, EndsApart bank.composites (utf8 c.readable) (utf8 c.game)
  pairApart : bank.HasPair → ∀ c ∈ bank.composites, (utf8 c.game).head? ≠ some percent ∧
    (utf8 c.game).getLast? ≠ some tilde ∧ ¬ [tilde, percent] <:+: utf8 c.game

namespace FallbackTables

variable (h : bank.FallbackTables pages)
include h

theorem exists_game {c : Composite} (hc : c ∈ bank.composites) :
    ∃ y tail, utf8 c.game = y :: tail ∧ y < 128 ∧ y ≠ byteCode ∧ (IsFallbackEnd y →
      tail.head? = some tilde ∧ (utf8 c.readable).head?.any (128 ≤ ·) ∧
        ∀ d ∈ bank.composites, ¬ BeginsIn (utf8 d.game) tail ∧ ¬ BeginsIn (utf8 d.readable) tail) := by
  have hends := h.ends c hc
  match utf8 c.game, hends with
  | y :: tail, hends => exact ⟨y, tail, rfl, hends⟩

/-- A byte is copied if every sequence that begins with it goes on differently. -/
theorem apply_cons {y : UInt8} {w : Bytes} (hy : ∀ c ∈ bank.composites, ∀ tail,
    utf8 c.game = y :: tail → ¬ tail <+: w) :
    bank.compositesToReadable.apply (y :: w) = y :: bank.compositesToReadable.apply w := by
  refine Substitution.apply_miss (Substitution.find?_eq_none_iff.2 ?_)
  intro rule hm _ hp
  obtain ⟨c, hc, rfl⟩ := mem_rules_compositesToReadable.1 hm
  obtain ⟨a, tail, he, -⟩ := h.exists_game hc
  change utf8 c.game <+: y :: w at hp
  rw [he, List.cons_prefix_cons] at hp
  exact hy c hc tail (by rw [he, hp.1]) hp.2

theorem apply_cons_of_head {y : UInt8} (hy : 128 ≤ y ∨ y = byteCode) (w : Bytes) :
    bank.compositesToReadable.apply (y :: w) = y :: bank.compositesToReadable.apply w := by
  refine h.apply_cons fun c hc tail he => ?_
  obtain ⟨a, tail', he', hlt, hne, -⟩ := h.exists_game hc
  rw [he'] at he
  obtain ⟨rfl, -⟩ := List.cons.inj he
  rcases hy with hy | hy
  · exact absurd hlt (UInt8.not_lt.2 hy)
  · exact absurd hy hne

theorem apply_cons_of_end {y : UInt8} {w : Bytes} (hy : IsFallbackEnd y) (hw : w.head? ≠ some tilde) :
    bank.compositesToReadable.apply (y :: w) = y :: bank.compositesToReadable.apply w := by
  refine h.apply_cons fun c hc tail he hp => ?_
  obtain ⟨a, tail', he', -, -, hend⟩ := h.exists_game hc
  rw [he'] at he
  obtain ⟨rfl, rfl⟩ := List.cons.inj he
  obtain ⟨htilde, -⟩ := hend hy
  obtain ⟨v, rfl⟩ := hp
  cases htail : tail' with
  | nil => simp [htail] at htilde
  | cons x rest =>
    rw [htail] at htilde hw
    exact hw htilde

theorem pattern_eq_pair : ∀ rule ∈ bank.compositesToReadable.rules, backslash ∈ rule.pattern →
    rule.pattern = [backslash, backslash] := by
  intro rule hm hb
  obtain ⟨c, hc, rfl⟩ := mem_rules_compositesToReadable.1 hm
  exact (h.pair c hc hb).1

theorem apply_append_backslash {u : Bytes} (w : Bytes) (hu : bank.HasPair → endsOdd u = false) :
    bank.compositesToReadable.apply (u ++ backslash :: w) =
      bank.compositesToReadable.apply u ++ bank.compositesToReadable.apply (backslash :: w) := by
  refine Substitution.apply_append_backslash h.pattern_eq_pair w fun ⟨rule, hm, hp⟩ => hu ?_
  obtain ⟨c, hc, rfl⟩ := mem_rules_compositesToReadable.1 hm
  exact ⟨c, hc, hp⟩

theorem apply_backslash_cons {w : Bytes} (hw : w.head? ≠ some backslash) :
    bank.compositesToReadable.apply (backslash :: w) =
      backslash :: bank.compositesToReadable.apply w := by
  refine h.apply_cons fun c hc tail he hp => ?_
  have hpair := (h.pair c hc (by rw [he]; simp)).1
  rw [he] at hpair
  obtain ⟨-, rfl⟩ := List.cons.inj hpair
  obtain ⟨v, rfl⟩ := hp
  exact hw rfl

theorem game_ne_nil {c : Composite} (hc : c ∈ bank.composites) : utf8 c.game ≠ [] := by
  obtain ⟨y, tail, he, -⟩ := h.exists_game hc
  rw [he]
  exact List.cons_ne_nil y tail

theorem not_mem_pattern {b : UInt8} (hs : IsSpecial b) (hb : b ≠ backslash) :
    ∀ rule ∈ bank.compositesToReadable.rules, b ∉ rule.pattern := by
  intro rule hm hmem
  obtain ⟨c, hc, rfl⟩ := mem_rules_compositesToReadable.1 hm
  rcases h.shown c hc b hmem with hback | hshown
  · exact hb hback
  · exact hshown.2 hs

/-- A byte with an escape of its own cuts the text in two. -/
theorem finish_verbatim {b y : UInt8} (hs : IsSpecial b) (hb : b ≠ backslash)
    (hy : y ≠ backslash) (hesc : ∀ w, escape (b :: w) = backslash :: y :: escape w) (u d : Bytes) :
    bank.finish (u ++ b :: d) = bank.finish u ++ backslash ::
      bank.compositesToReadable.apply (y :: escape (bank.compositesToReadable.apply d)) := by
  have hmem := h.not_mem_pattern hs hb
  have hfirst : bank.compositesToReadable.apply (u ++ b :: d) =
      bank.compositesToReadable.apply u ++ b :: bank.compositesToReadable.apply d := by
    rw [Substitution.apply_append (Substitution.cleanCut_of_not_mem hmem u d)]
    rw [Substitution.apply_miss (Substitution.find?_cons_eq_none (fun rule hm hhead => ?_) d)]
    exact hmem rule hm (List.mem_of_mem_head? hhead)
  have hcode : b ≠ byteCode := by
    rintro rfl
    exact absurd hs (by decide)
  rw [finish, hfirst, escape_append_of_ne hcode, hesc, h.apply_append_backslash _ fun _ => endsOdd_escape _,
    h.apply_backslash_cons (by simpa using hy)]
  rfl

/-- A sequence that goes on behind the end of a spelling is replaced by text past ASCII. -/
theorem apply_of_goesOn {y : UInt8} {w : Bytes} (hy : IsFallbackEnd y) (hw : bank.GoesOn y w) :
    ∃ r rest, 128 ≤ r ∧ bank.compositesToReadable.apply (y :: w) = r :: rest := by
  obtain ⟨c, hc, tail, he, hw⟩ := hw
  obtain ⟨a, tail', he', -, -, hend⟩ := h.exists_game hc
  rw [he'] at he
  obtain ⟨rfl, rfl⟩ := List.cons.inj he
  obtain ⟨-, hge, -⟩ := hend hy
  obtain ⟨v, rfl⟩ := hw
  have happly := compositesToReadable_game_append h.apart hc (h.game_ne_nil hc) v
  rw [he', List.cons_append] at happly
  cases hread : utf8 c.readable with
  | nil => simp [hread] at hge
  | cons r rest =>
    have hr : 128 ≤ r := by simpa [hread] using hge
    exact ⟨r, _, hr, by rw [happly, hread]; rfl⟩

theorem apply_of_not_goesOn {y : UInt8} {w : Bytes} (hw : ¬ bank.GoesOn y w) :
    bank.compositesToReadable.apply (y :: w) = y :: bank.compositesToReadable.apply w :=
  h.apply_cons fun c hc tail he hp => hw ⟨c, hc, tail, he, hp⟩

theorem apply_end_cases {y : UInt8} (hy : IsFallbackEnd y) (w : Bytes) :
    ∃ r rest, (r = y ∨ 128 ≤ r) ∧ bank.compositesToReadable.apply (y :: w) = r :: rest := by
  by_cases hw : bank.GoesOn y w
  · obtain ⟨r, rest, hge, happly⟩ := h.apply_of_goesOn hy hw
    exact ⟨r, rest, .inr hge, happly⟩
  · exact ⟨y, _, .inl rfl, h.apply_of_not_goesOn hw⟩

/-- The escape of a byte cuts the text in two in front of its last digit, unless the text in front
ends in a backslash that makes a pair. -/
theorem finish_byteEscape {u : Bytes} (hu : bank.HasPair → endsOdd u = false) {b high low : UInt8}
    (he : byteEscape b = [backslash, byteCode, high, low]) (hh : IsHexDigit high)
    (hl : IsHexDigit low) (d : Bytes) :
    bank.finish (u ++ (byteEscape b ++ d)) =
      bank.finish u ++ backslash :: byteCode :: high :: bank.finish (low :: d) := by
  have hend : IsFallbackEnd high := .inr (.inr (.inr hh))
  -- both passes copy the first three bytes of the escape
  have hcopy : ∀ w : Bytes, w.head? ≠ some tilde →
      bank.compositesToReadable.apply (backslash :: byteCode :: high :: w) =
        backslash :: byteCode :: high :: bank.compositesToReadable.apply w := by
    intro w hw
    rw [h.apply_backslash_cons (by simp [backslash, byteCode]), h.apply_cons_of_head (.inr rfl),
      h.apply_cons_of_end hend hw]
  have hlow : (low :: d).head? ≠ some tilde := by
    rintro hlow
    obtain rfl : low = tilde := by simpa using hlow
    exact absurd hl (by decide)
  obtain ⟨r, rest, hr, happly⟩ := h.apply_end_cases (.inr (.inr (.inr hl))) d
  have hplain : ¬ IsSpecial r ∧ r ≠ tilde := by
    rcases hr with rfl | hge
    · exact ⟨hl.not_special, fun ht => hlow (by rw [ht]; rfl)⟩
    · refine ⟨?_, ?_⟩
      · rintro (rfl | rfl | rfl | rfl) <;> exact absurd hge (by decide)
      · rintro rfl
        exact absurd hge (by decide)
  have hescape : escape (backslash :: byteCode :: high :: r :: rest) =
      backslash :: byteCode :: high :: r :: escape rest := by
    have hhead : escape (backslash :: byteCode :: high :: r :: rest) =
        backslash :: escape (byteCode :: high :: r :: rest) := rfl
    rw [hhead, escape_cons_of_not_special (by decide), escape_cons_of_not_special hh.not_special,
      escape_cons_of_not_special hplain.1]
  have hfirst : bank.compositesToReadable.apply (u ++ (byteEscape b ++ d)) =
      bank.compositesToReadable.apply u ++ backslash :: byteCode :: high :: r :: rest := by
    rw [he, ← happly, ← hcopy _ hlow]
    exact h.apply_append_backslash _ hu
  rw [finish, hfirst, escape_append_of_ne (by decide), hescape,
    h.apply_append_backslash _ fun _ => endsOdd_escape _, hcopy _ (by simpa using hplain.2), finish,
    finish, happly, escape_cons_of_not_special hplain.1]

/-- The readable form of a pair of backslashes is kept apart from what stands around it. -/
theorem apply_append_percent (hpair : bank.HasPair) (u w : Bytes) :
    bank.compositesToReadable.apply (u ++ tilde :: percent :: w) =
      bank.compositesToReadable.apply u ++
        tilde :: percent :: bank.compositesToReadable.apply w := by
  have hgame : ∀ c ∈ bank.composites, ∀ x y, utf8 c.game = x ++ y →
      y <+: tilde :: percent :: w → y = [] := by
    intro c hc x y hxy hy
    obtain ⟨-, hlast, hinfix⟩ := h.pairApart hpair c hc
    match y, hy with
    | [], _ => rfl
    | [a], hy =>
      obtain rfl : a = tilde := (List.cons_prefix_cons.1 hy).1
      exact absurd (by simp [hxy]) hlast
    | a :: a' :: y, hy =>
      obtain ⟨rfl, htail⟩ := List.cons_prefix_cons.1 hy
      obtain rfl : a' = percent := (List.cons_prefix_cons.1 htail).1
      exact absurd ⟨x, y, by simp [hxy]⟩ hinfix
  have hcut : bank.compositesToReadable.CleanCut u (tilde :: percent :: w) := by
    intro rule hm x y hxy _ hy
    obtain ⟨c, hc, rfl⟩ := mem_rules_compositesToReadable.1 hm
    exact .inr (hgame c hc x y hxy hy)
  have htilde : ∀ c ∈ bank.composites, ∀ tail, utf8 c.game = tilde :: tail →
      ¬ tail <+: percent :: w := by
    intro c hc tail he hp
    have hnil := hgame c hc [] (tilde :: tail) he (List.cons_prefix_cons.2 ⟨rfl, hp⟩)
    exact List.cons_ne_nil _ _ hnil
  have hpercent : ∀ c ∈ bank.composites, ∀ tail, utf8 c.game = percent :: tail → ¬ tail <+: w := by
    intro c hc tail he _
    exact (h.pairApart hpair c hc).1 (by rw [he]; rfl)
  rw [Substitution.apply_append hcut, h.apply_cons htilde, h.apply_cons hpercent]

theorem apply_pair_append (hpair : bank.HasPair) (w : Bytes) :
    bank.compositesToReadable.apply (backslash :: backslash :: w) =
      tilde :: percent :: bank.compositesToReadable.apply w := by
  obtain ⟨c, hc, hgame⟩ := hpair
  have hread := (h.pair c hc (by rw [hgame]; simp)).2
  have happly := compositesToReadable_game_append h.apart hc (h.game_ne_nil hc) w
  rwa [hgame, hread] at happly

theorem finish_append_backslash (hpair : bank.HasPair) {v : Bytes} (hv : endsOdd v = false) :
    bank.finish (v ++ [backslash]) = bank.finish v ++ [tilde, percent] := by
  have hsingle : bank.compositesToReadable.apply [backslash] = [backslash] :=
    h.apply_backslash_cons (by simp)
  have hdouble : escape [backslash] = [backslash, backslash] := rfl
  rw [finish, h.apply_append_backslash [] fun _ => hv, hsingle, escape_append_of_ne (by decide),
    hdouble, h.apply_append_backslash _ fun _ => endsOdd_escape _, h.apply_pair_append hpair]
  rfl

/-- Behind an odd run of backslashes, the backslash of an escape goes into a pair. -/
theorem finish_byteEscape_odd (hpair : bank.HasPair) {u : Bytes} (hu : endsOdd u = true)
    {b high low : UInt8} (he : byteEscape b = [backslash, byteCode, high, low]) (d : Bytes) :
    bank.finish (u ++ (byteEscape b ++ d)) =
      bank.finish u ++ byteCode :: bank.finish (high :: low :: d) := by
  obtain ⟨v, rfl, hv⟩ := exists_of_endsOdd hu
  have hfirst : bank.compositesToReadable.apply (v ++ [backslash] ++ (byteEscape b ++ d)) =
      bank.compositesToReadable.apply v ++ tilde :: percent :: byteCode ::
        bank.compositesToReadable.apply (high :: low :: d) := by
    rw [he, List.append_assoc]
    change bank.compositesToReadable.apply
      (v ++ backslash :: backslash :: byteCode :: high :: low :: d) = _
    rw [h.apply_append_backslash _ fun _ => hv, h.apply_pair_append hpair,
      h.apply_cons_of_head (.inr rfl)]
  rw [h.finish_append_backslash hpair hv, finish, hfirst, escape_append_of_ne (by decide),
    escape_cons_of_not_special (by decide), escape_cons_of_not_special (by decide),
    escape_cons_of_not_special (by decide), h.apply_append_percent hpair,
    h.apply_cons_of_head (.inr rfl), List.append_assoc]
  rfl

/-- The later passes neither make nor break the continuation of a sequence. -/
theorem prefix_escape_apply_iff {c : Composite} (hc : c ∈ bank.composites) {y : UInt8} {tail : Bytes}
    (he : utf8 c.game = y :: tail) (hy : IsFallbackEnd y) (d : Bytes) :
    tail <+: escape (bank.compositesToReadable.apply d) ↔ tail <+: d := by
  obtain ⟨a, tail', he', -, -, hend⟩ := h.exists_game hc
  rw [he'] at he
  obtain ⟨rfl, rfl⟩ := List.cons.inj he
  obtain ⟨htilde, -, happart⟩ := hend hy
  have hplain : ∀ x ∈ tail', ¬ IsSpecial x := by
    intro x hx
    rcases h.shown c hc x (by rw [he']; simp [hx]) with rfl | hshown
    · have hpair := (h.pair c hc (by rw [he']; simp [hx])).1
      rw [he'] at hpair
      obtain ⟨-, rfl⟩ := List.cons.inj hpair
      exact absurd htilde (by decide)
    · exact hshown.2
  have hgames : ∀ rule ∈ bank.compositesToReadable.rules,
      ¬ BeginsIn rule.pattern tail' ∧ ¬ BeginsIn rule.output tail' := by
    intro rule hm
    obtain ⟨d, hd, rfl⟩ := mem_rules_compositesToReadable.1 hm
    exact happart d hd
  constructor
  · intro hp
    have hjoined := prefix_of_prefix_escape hplain hp
    exact Substitution.prefix_of_prefix_apply (fun rule hm => (hgames rule hm).2) hjoined
  · rintro ⟨v, rfl⟩
    have hcopy : bank.compositesToReadable.apply (tail' ++ v) =
        tail' ++ bank.compositesToReadable.apply v :=
      Substitution.apply_append_of_not_beginsIn (fun rule hm => (hgames rule hm).1) _
    rw [hcopy, escape_append_of_not_special hplain]
    exact List.prefix_append _ _

theorem goesOn_escape_apply_iff {y : UInt8} (hy : IsFallbackEnd y) (d : Bytes) :
    bank.GoesOn y (escape (bank.compositesToReadable.apply d)) ↔ bank.GoesOn y d := by
  constructor
  · rintro ⟨c, hc, tail, he, hp⟩
    exact ⟨c, hc, tail, he, (h.prefix_escape_apply_iff hc he hy d).1 hp⟩
  · rintro ⟨c, hc, tail, he, hp⟩
    exact ⟨c, hc, tail, he, (h.prefix_escape_apply_iff hc he hy d).2 hp⟩

/-- The last pass keeps the end of a spelling exactly if no sequence goes on behind it. -/
theorem apply_end_iff {y : UInt8} (hy : IsFallbackEnd y) (d : Bytes) :
    bank.compositesToReadable.apply (y :: escape (bank.compositesToReadable.apply d)) =
      y :: bank.finish d ↔ ¬ bank.GoesOn y d := by
  rw [← h.goesOn_escape_apply_iff hy d]
  constructor
  · intro heq hon
    obtain ⟨r, rest, hge, happly⟩ := h.apply_of_goesOn hy hon
    obtain ⟨rfl, -⟩ := List.cons.inj (heq.symm.trans happly)
    exact absurd (hy.lt) (UInt8.not_lt.2 hge)
  · exact h.apply_of_not_goesOn

/-- The last three passes keep the last digit of an escape exactly if no sequence goes on behind it. -/
theorem finish_end_iff {y : UInt8} (hy : IsHexDigit y) (d : Bytes) :
    bank.finish (y :: d) = y :: bank.finish d ↔ ¬ bank.GoesOn y d := by
  have hend : IsFallbackEnd y := .inr (.inr (.inr hy))
  by_cases hon : bank.GoesOn y d
  · obtain ⟨r, rest, hge, happly⟩ := h.apply_of_goesOn hend hon
    have hplain : ¬ IsSpecial r := by
      rintro (rfl | rfl | rfl | rfl) <;> exact absurd hge (by decide)
    refine iff_of_false (fun heq => ?_) (not_not_intro hon)
    rw [finish, happly, escape_cons_of_not_special hplain, h.apply_cons_of_head (.inl hge)] at heq
    obtain ⟨rfl, -⟩ := List.cons.inj heq
    exact absurd hy.lt (UInt8.not_lt.2 hge)
  · rw [← h.apply_end_iff hend, finish, h.apply_of_not_goesOn hon,
      escape_cons_of_not_special hy.not_special]

theorem glyphText_append_cons {p : Bytes} {b : UInt8} (hfree : bank.IsFree b)
    (hp : ∀ g ∈ bank.glyphs, g.raw.length = 2 → p.getLast? ≠ g.raw.head?) (q : Bytes) :
    bank.glyphText (p ++ b :: q) = bank.glyphText p ++ (bank.spell b ++ bank.glyphText q) := by
  have hcut : bank.glyphsToReadable.CleanCut p (b :: q) := by
    intro rule hm x y hxy hx _
    obtain ⟨g, hg, rfl⟩ := mem_rules_glyphsToReadable.1 hm
    change g.raw = x ++ y at hxy
    have honPages := h.paged.onPages g hg
    match x, y, hxy with
    | [], _, _ => exact .inl rfl
    | _, [], _ => exact .inr rfl
    | [a], [a'], hxy =>
      obtain ⟨v, rfl⟩ := hx
      exact absurd (by simp [hxy]) (hp g hg (by rw [hxy]; rfl))
    | [a], a' :: a'' :: y, hxy =>
      rw [hxy] at honPages
      exact honPages.elim
    | a :: a' :: x, a'' :: y, hxy =>
      rw [hxy] at honPages
      cases x <;> exact honPages.elim
  rw [← glyphText_free_cons hfree]
  exact Substitution.replace_append hcut

/-- The spelling of a byte without a glyph shows up intact between the texts of its neighbours exactly
if it does not merge. -/
theorem readableBytes_append_iff {p : Bytes} {b : UInt8} (hfree : bank.IsFree b)
    (hplain : ¬ bank.isPlain b.toNat) (hb : b ≠ backslash)
    (hp : ∀ g ∈ bank.glyphs, g.raw.length = 2 → p.getLast? ≠ g.raw.head?) (q : Bytes) :
    bank.readableBytes (p ++ b :: q) =
      bank.readableBytes p ++ (utf8 (fallback b) ++ bank.readableBytes q) ↔
        ¬ bank.Merges p b q := by
  rw [readableBytes_eq_finish, readableBytes_eq_finish, readableBytes_eq_finish,
    h.glyphText_append_cons hfree hp]
  cases hv : isVerbatim b with
  | true =>
    obtain ⟨y, hy, htext, hesc⟩ := utf8_fallback_of_verbatim hv hb
    have hspell : bank.spell b = [b] := spell_of_passes (.inr hv)
    have hmerges : bank.Merges p b q ↔ bank.GoesOn y (bank.glyphText q) := by
      simp [Merges, hv, htext]
    have hyb : y ≠ backslash := by
      rintro rfl
      exact absurd hy (by decide)
    rw [hspell, htext, hmerges, List.singleton_append, h.finish_verbatim (isVerbatim_iff.1 hv) hb hyb hesc,
      List.append_cancel_left_eq, List.cons_append, List.cons_inj_right, ← h.apply_end_iff hy]
    rfl
  | false =>
    obtain ⟨high, low, he, hh, hl, -⟩ := exists_byteEscape b
    have hspell : bank.spell b = byteEscape b := spell_of_hidden (by simp [hv, hplain])
    rw [hspell, utf8_fallback_of_not_verbatim hv]
    by_cases hodd : bank.HasPair ∧ endsOdd (bank.glyphText p) = true
    · have hmerges : bank.Merges p b q := .inl ⟨hv, hodd⟩
      refine iff_of_false (fun heq => ?_) (not_not_intro hmerges)
      rw [h.finish_byteEscape_odd hodd.1 hodd.2 he, List.append_cancel_left_eq, he] at heq
      exact absurd (List.cons.inj heq).1 (by decide)
    · have heven : bank.HasPair → endsOdd (bank.glyphText p) = false := fun hpair =>
        Bool.eq_false_iff.2 fun hend => hodd ⟨hpair, hend⟩
      have hmerges : bank.Merges p b q ↔ bank.GoesOn low (bank.glyphText q) := by
        simp [Merges, hodd, utf8_fallback_of_not_verbatim hv, he]
      rw [h.finish_byteEscape heven he hh hl, hmerges, he, List.append_cancel_left_eq,
        ← h.finish_end_iff hl]
      simp

theorem decode_append_iff {p : Bytes} {b : UInt8} (hfree : bank.IsFree b)
    (hplain : ¬ bank.isPlain b.toNat) (hb : b ≠ backslash)
    (hp : ∀ g ∈ bank.glyphs, g.raw.length = 2 → p.getLast? ≠ g.raw.head?) (q : Bytes) :
    ∃ x y z, bank.decode p false = .ok x ∧ bank.decode q false = .ok y ∧
      bank.decode (p ++ b :: q) false = .ok z ∧
      (z = x ++ fallback b ++ y ↔ ¬ bank.Merges p b q) := by
  obtain ⟨x, hx, hxb⟩ := exists_decode h.ascii p
  obtain ⟨y, hy, hyb⟩ := exists_decode h.ascii q
  obtain ⟨z, hz, hzb⟩ := exists_decode h.ascii (p ++ b :: q)
  refine ⟨x, y, z, hx, hy, hz, ?_⟩
  rw [← h.readableBytes_append_iff hfree hplain hb hp, ← hxb, ← hyb, ← hzb, ← utf8_append,
    ← utf8_append, utf8_inj, String.append_assoc]

end FallbackTables

end FontBank

end FontCodec
