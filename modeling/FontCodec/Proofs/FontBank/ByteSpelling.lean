import FontCodec.Proofs.FontBank.Tables
import FontCodec.Proofs.Substitution.Scan
import FontCodec.Proofs.Text.EscapeSyntax

/-!
# Payloads spelled byte by byte

Escapes are resolved before the tables are applied. So a payload spelled byte by byte is encoded like
text that is typed, and comes out as it is if nothing in it is to be encoded. The converse holds where
whatever the tables put in can be told from what they take out.
-/

namespace FontCodec

/-- The text that names every byte of a payload by its escape. -/
def spelledOut (payload : Bytes) : String :=
  String.ofList (payload.flatMap fun b => '\\' :: 'c' :: Hex.digits b)

theorem utf8_spelledOut (payload : Bytes) : utf8 (spelledOut payload) = payload.flatMap byteEscape := by
  rw [spelledOut, utf8_ofList]
  induction payload with
  | nil => rfl
  | cons b payload ih =>
    rw [List.flatMap_cons, List.flatMap_cons, List.flatMap_append, ih]
    exact congrArg (· ++ _) (utf8Bytes_escape_digits b)

theorem unescapeFrom_flatMap_byteEscape (position : Nat) (payload : Bytes) :
    unescapeFrom position (payload.flatMap byteEscape) = .ok payload := by
  induction payload generalizing position with
  | nil => rfl
  | cons b payload ih =>
    rw [List.flatMap_cons, unescapeFrom_byteEscape, ih]
    rfl

namespace FontBank

variable {bank : FontBank} {opens inert : UInt8 → Bool}

theorem encode_spelledOut (bank : FontBank) (payload : Bytes) :
    bank.encode (spelledOut payload) true = .ok (bank.encodeBytes payload) := by
  rw [encode, if_pos rfl, utf8_spelledOut, unescape, unescapeFrom_flatMap_byteEscape]
  rfl

theorem encodeBytes_eq_self {text : Bytes} (hglyphs : ∀ g ∈ bank.glyphs, ¬ utf8 g.chars <:+: text)
    (hcomposites : ∀ c ∈ bank.composites, ¬ utf8 c.readable <:+: text) :
    bank.encodeBytes text = text := by
  have hexpanded : bank.compositesToGame.apply text = text := by
    refine Substitution.apply_eq_self fun rule hm _ => ?_
    obtain ⟨c, hc, rfl⟩ := mem_rules_compositesToGame.1 hm
    exact hcomposites c hc
  rw [encodeBytes, hexpanded]
  refine Substitution.apply_eq_self fun rule hm _ => ?_
  obtain ⟨g, hg, rfl⟩ := mem_rules_glyphsToGame.1 hm
  exact hglyphs g hg

/-- The bytes of a glyph begin with no inert byte. Its characters differ from them, or go on behind
them with inert bytes. -/
def Leads (inert : UInt8 → Bool) (raw chars : Bytes) : Prop :=
  raw.head?.any (¬ inert ·) ∧
    (¬ Comparable raw chars ∨ raw <+: chars ∧ raw ≠ chars ∧ (chars.drop raw.length).all inert)

instance (inert : UInt8 → Bool) (raw chars : Bytes) : Decidable (Leads inert raw chars) :=
  inferInstanceAs (Decidable (_ ∧ (_ ∨ _ ∧ _ ∧ _)))

/-- What a bank needs to show that it has encoded something. -/
structure EncodingTables (bank : FontBank) (opens inert : UInt8 → Bool) : Prop where
  charsFront : ∀ g ∈ bank.glyphs, ∀ b ∈ (utf8 g.chars).head?, ¬ opens b
  gameFront : ∀ c ∈ bank.composites, ∃ x y tail, utf8 c.game = x :: y :: tail ∧ opens x ∧ opens y ∧
    ¬ Comparable (utf8 c.readable) [x, y]
  rawFront : ∀ g ∈ bank.glyphs, Leads inert g.raw (utf8 g.chars)
  gamesBegin : ∀ c ∈ bank.composites, ∀ g ∈ bank.glyphs,
    ¬ BeginsIn (utf8 c.game) (utf8 g.chars).tail
  readablesBegin : ∀ d ∈ bank.composites, ∀ g ∈ bank.glyphs,
    ¬ BeginsIn (utf8 d.readable) (utf8 g.chars).tail
  opensApart : ∀ b, opens b → ¬ inert b

def OpensCoded (bank : FontBank) (text : Bytes) : Prop :=
  (∃ g ∈ bank.glyphs, utf8 g.chars <+: text) ∨ ∃ c ∈ bank.composites, utf8 c.readable <+: text

/-- What encoding does at the front of a text. -/
inductive EncodesFront (bank : FontBank) : Bytes → Prop
  | copied {b : UInt8} {rest : Bytes} (hopens : ¬ bank.OpensCoded (b :: rest))
      (hout : bank.encodeBytes (b :: rest) = b :: bank.encodeBytes rest) :
      EncodesFront bank (b :: rest)
  | glyph {g : Glyph} {rest : Bytes} (hg : g ∈ bank.glyphs)
      (hout : bank.encodeBytes (utf8 g.chars ++ rest) = g.raw ++ bank.encodeBytes rest) :
      EncodesFront bank (utf8 g.chars ++ rest)
  | composite {c : Composite} {rest out : Bytes} (hc : c ∈ bank.composites)
      (hout : bank.encodeBytes (utf8 c.readable ++ rest) = (utf8 c.game).take 2 ++ out) :
      EncodesFront bank (utf8 c.readable ++ rest)

namespace EncodingTables

variable (h : bank.EncodingTables opens inert)
include h

theorem chars_ne_nil {g : Glyph} (hg : g ∈ bank.glyphs) : utf8 g.chars ≠ [] := by
  intro hnil
  obtain ⟨-, hdiffer | ⟨hopen, hne, -⟩⟩ := h.rawFront g hg
  · exact hdiffer (.inr (hnil ▸ List.nil_prefix))
  · rw [hnil] at hopen hne
    exact hne (List.prefix_nil.1 hopen)

theorem readable_ne_nil {c : Composite} (hc : c ∈ bank.composites) : utf8 c.readable ≠ [] := by
  obtain ⟨x, y, tail, -, -, -, hdiffer⟩ := h.gameFront c hc
  intro hnil
  exact hdiffer (.inl (hnil ▸ List.nil_prefix))

theorem glyphsToGame_cons_of_opens {x : UInt8} (hx : opens x) (w : Bytes) :
    bank.glyphsToGame.apply (x :: w) = x :: bank.glyphsToGame.apply w := by
  refine Substitution.apply_miss (Substitution.find?_cons_eq_none (fun rule hm hhead => ?_) w)
  obtain ⟨g, hg, rfl⟩ := mem_rules_glyphsToGame.1 hm
  exact h.charsFront g hg x hhead hx

/-- Where no composite opens, the characters of a glyph stay as they are. -/
theorem compositesToGame_chars_append {g : Glyph} (hg : g ∈ bank.glyphs) {w : Bytes}
    (hmiss : bank.compositesToGame.find? (utf8 g.chars ++ w) = none) :
    bank.compositesToGame.apply (utf8 g.chars ++ w) =
      utf8 g.chars ++ bank.compositesToGame.apply w := by
  obtain ⟨a, tail, hchars⟩ := List.exists_cons_of_ne_nil (h.chars_ne_nil hg)
  have htail : bank.compositesToGame.apply (tail ++ w) = tail ++ bank.compositesToGame.apply w := by
    refine Substitution.apply_append_of_not_beginsIn (fun rule hm => ?_) w
    obtain ⟨d, hd, rfl⟩ := mem_rules_compositesToGame.1 hm
    have hbegin := h.readablesBegin d hd g hg
    rw [hchars] at hbegin
    exact hbegin
  rw [hchars, List.cons_append] at hmiss ⊢
  rw [Substitution.apply_miss hmiss, htail]
  rfl

/-- Expanding composites behind a byte makes no characters that begin with that byte. -/
theorem prefix_of_prefix_expanded {g : Glyph} (hg : g ∈ bank.glyphs) {b : UInt8} {rest : Bytes}
    (hp : utf8 g.chars <+: b :: bank.compositesToGame.apply rest) : utf8 g.chars <+: b :: rest := by
  obtain ⟨a, tail, hchars⟩ := List.exists_cons_of_ne_nil (h.chars_ne_nil hg)
  rw [hchars, List.cons_prefix_cons] at hp ⊢
  refine ⟨hp.1, Substitution.prefix_of_prefix_apply (fun rule hm => ?_) hp.2⟩
  obtain ⟨c, hc, rfl⟩ := mem_rules_compositesToGame.1 hm
  have hbegin := h.gamesBegin c hc g hg
  rw [hchars] at hbegin
  exact hbegin

theorem encodesFront_composite {c : Composite} (hc : c ∈ bank.composites) {rest : Bytes}
    (hout : bank.compositesToGame.apply (utf8 c.readable ++ rest) =
      utf8 c.game ++ bank.compositesToGame.apply rest) :
    bank.EncodesFront (utf8 c.readable ++ rest) := by
  obtain ⟨x, y, tail, hgame, hx, hy, -⟩ := h.gameFront c hc
  have hcopied : bank.encodeBytes (utf8 c.readable ++ rest) =
      (utf8 c.game).take 2 ++ bank.glyphsToGame.apply (tail ++ bank.compositesToGame.apply rest) := by
    rw [encodeBytes, hout, hgame, List.cons_append, List.cons_append,
      h.glyphsToGame_cons_of_opens hx, h.glyphsToGame_cons_of_opens hy]
    rfl
  exact .composite hc hcopied

theorem not_opensCoded {b : UInt8} {rest : Bytes}
    (hc : bank.compositesToGame.find? (b :: rest) = none)
    (hg : bank.glyphsToGame.find? (b :: bank.compositesToGame.apply rest) = none) :
    ¬ bank.OpensCoded (b :: rest) := by
  rintro (⟨g, hgm, w, hw⟩ | ⟨c, hcm, hp⟩)
  · have hmiss := Substitution.apply_miss hc
    rw [← hw] at hc hmiss
    rw [h.compositesToGame_chars_append hgm hc] at hmiss
    rw [← hmiss] at hg
    exact Substitution.find?_eq_none_iff.1 hg g.toGame (mem_rules_glyphsToGame.2 ⟨g, hgm, rfl⟩)
      (h.chars_ne_nil hgm) (List.prefix_append _ _)
  · exact Substitution.find?_eq_none_iff.1 hc c.toGame (mem_rules_compositesToGame.2 ⟨c, hcm, rfl⟩)
      (h.readable_ne_nil hcm) hp

theorem encodesFront_cons (b : UInt8) (rest : Bytes) : bank.EncodesFront (b :: rest) := by
  cases hc : bank.compositesToGame.find? (b :: rest) with
  | some r =>
    obtain ⟨hm, -, w, hw⟩ := Substitution.mem_rules_of_find? hc
    obtain ⟨c, hcm, hr⟩ := mem_rules_compositesToGame.1 hm
    rw [← hw] at hc ⊢
    have hout := Substitution.apply_hit hc
    rw [← hr] at hout ⊢
    exact h.encodesFront_composite hcm hout
  | none =>
    have hmiss := Substitution.apply_miss hc
    cases hg : bank.glyphsToGame.find? (b :: bank.compositesToGame.apply rest) with
    | none =>
      refine .copied (h.not_opensCoded hc hg) ?_
      rw [encodeBytes, hmiss, Substitution.apply_miss hg]
      rfl
    | some r =>
      obtain ⟨hm, -, hp⟩ := Substitution.mem_rules_of_find? hg
      obtain ⟨g, hgm, hr⟩ := mem_rules_glyphsToGame.1 hm
      rw [← hr] at hp
      obtain ⟨w, hw⟩ := h.prefix_of_prefix_expanded hgm hp
      rw [← hw] at hc hmiss ⊢
      have hskip := h.compositesToGame_chars_append hgm hc
      have hpattern : r.1.pattern = utf8 g.chars := by rw [← hr]; rfl
      have houtput : r.1.output = g.raw := by rw [← hr]; rfl
      rw [← hmiss, hskip, ← hpattern] at hg
      refine .glyph hgm ?_
      rw [encodeBytes, hskip, ← hpattern, Substitution.apply_hit hg, houtput]
      rfl

/-- Encoding never lags behind its input with inert bytes. -/
theorem encodeBytes_ne_append {lag : Bytes} (hne : lag ≠ []) (hlag : ∀ b ∈ lag, inert b)
    (text : Bytes) : bank.encodeBytes text ≠ lag ++ text := by
  induction text generalizing lag with
  | nil => simpa [encodeBytes] using hne.symm
  | cons b rest ih =>
    intro heq
    obtain ⟨x, lag, rfl⟩ := List.exists_cons_of_ne_nil hne
    have hx : inert x := hlag x (by simp)
    have hfront := h.encodesFront_cons b rest
    generalize htext : b :: rest = text at hfront heq
    cases hfront with
    | copied hopens hout =>
      -- the byte copied is the first one to lag, and the lag goes on with it at the end
      obtain ⟨rfl, rfl⟩ := List.cons.inj htext
      rw [hout, List.cons_append] at heq
      obtain ⟨rfl, hrest⟩ := List.cons.inj heq
      have hnext : ∀ y ∈ lag ++ [b], inert y := by
        intro y hy
        rcases List.mem_append.1 hy with hy | hy
        · exact hlag y (by simp [hy])
        · exact List.mem_singleton.1 hy ▸ hx
      exact ih (by simp) hnext (by rw [hrest, List.append_assoc]; rfl)
    | @glyph g _ hg hout =>
      have hraw := (h.rawFront g hg).1
      cases hbytes : g.raw with
      | nil => simp [hbytes] at hraw
      | cons y raw =>
        rw [hout, hbytes, List.cons_append, List.cons_append] at heq
        obtain ⟨rfl, -⟩ := List.cons.inj heq
        simp [hbytes, hx] at hraw
    | composite hc hout =>
      obtain ⟨y, z, tail, hgame, hy, -, -⟩ := h.gameFront _ hc
      rw [hout, hgame] at heq
      obtain ⟨rfl, -⟩ := List.cons.inj heq
      exact h.opensApart y hy hx

theorem encodeBytes_glyph_ne {g : Glyph} (hg : g ∈ bank.glyphs) {rest : Bytes}
    (hout : bank.encodeBytes (utf8 g.chars ++ rest) = g.raw ++ bank.encodeBytes rest) :
    bank.encodeBytes (utf8 g.chars ++ rest) ≠ utf8 g.chars ++ rest := by
  intro heq
  obtain ⟨-, hdiffer | ⟨⟨lag, hlag⟩, hne, hinert⟩⟩ := h.rawFront g hg
  · rw [hout] at heq
    exact hdiffer (.of_opens ⟨_, heq⟩ (List.prefix_append _ _))
  · rw [← hlag, List.drop_left] at hinert
    rw [hout, ← hlag, List.append_assoc, List.append_cancel_left_eq] at heq
    refine h.encodeBytes_ne_append (fun hnil => ?_) (List.all_eq_true.1 hinert) rest heq
    rw [hnil, List.append_nil] at hlag
    exact hne hlag

theorem encodeBytes_composite_ne {c : Composite} (hc : c ∈ bank.composites) {rest out : Bytes}
    (hout : bank.encodeBytes (utf8 c.readable ++ rest) = (utf8 c.game).take 2 ++ out) :
    bank.encodeBytes (utf8 c.readable ++ rest) ≠ utf8 c.readable ++ rest := by
  intro heq
  obtain ⟨x, y, tail, hgame, -, -, hdiffer⟩ := h.gameFront c hc
  rw [hout, hgame] at heq
  exact hdiffer (.of_opens (List.prefix_append _ _) ⟨out, heq⟩)

/-- Text comes out as it is exactly if nothing in it is to be encoded. -/
theorem encodeBytes_eq_self_iff (text : Bytes) :
    bank.encodeBytes text = text ↔ (∀ g ∈ bank.glyphs, ¬ utf8 g.chars <:+: text) ∧
      ∀ c ∈ bank.composites, ¬ utf8 c.readable <:+: text := by
  constructor
  · intro heq
    induction text with
    | nil => exact ⟨fun g hg hi => h.chars_ne_nil hg (List.infix_nil.1 hi),
        fun c hc hi => h.readable_ne_nil hc (List.infix_nil.1 hi)⟩
    | cons b rest ih =>
      have hfront := h.encodesFront_cons b rest
      generalize htext : b :: rest = text at hfront heq
      cases hfront with
      | copied hopens hout =>
        obtain ⟨rfl, rfl⟩ := List.cons.inj htext
        rw [hout] at heq
        obtain ⟨hglyphs, hcomposites⟩ := ih (List.cons.inj heq).2
        refine ⟨fun g hg hi => ?_, fun c hc hi => ?_⟩
        · exact (List.infix_cons_iff.1 hi).elim (fun hp => hopens (.inl ⟨g, hg, hp⟩)) (hglyphs g hg)
        · exact (List.infix_cons_iff.1 hi).elim (fun hp => hopens (.inr ⟨c, hc, hp⟩))
            (hcomposites c hc)
      | glyph hg hout => exact absurd heq (h.encodeBytes_glyph_ne hg hout)
      | composite hc hout => exact absurd heq (h.encodeBytes_composite_ne hc hout)
  · rintro ⟨hglyphs, hcomposites⟩
    exact encodeBytes_eq_self hglyphs hcomposites

end EncodingTables

end FontBank

end FontCodec
