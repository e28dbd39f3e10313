import FontCodec.Proofs.FontBank.CharacterCodes

/-!
# Payloads come back from readable text

Where no composed sequence and no readable composite can begin inside another one, joining composites is
undone by expanding them, and the last pass of decoding finds nothing to join. A payload comes back
unless it spells out a readable composite.
-/

namespace FontCodec

open String (utf8EncodeChar)

/-- No beginning of `a` other than `a` itself stands at the end of `r`. -/
def EndsBefore (r a : Bytes) : Prop := ∀ k < a.length, 0 < k → ¬ a.take k <:+ r

instance (r a : Bytes) : Decidable (EndsBefore r a) :=
  inferInstanceAs (Decidable (∀ k < a.length, 0 < k → ¬ a.take k <:+ r))

namespace FontBank

variable {bank : FontBank} {pages : List UInt8} {name : Bytes}

/-- What a bank needs for payloads to come back. -/
structure PayloadTables (bank : FontBank) (pages : List UInt8) (name : Bytes) : Prop
    extends CharacterCodes bank pages name where
  readableShown : ∀ d ∈ bank.composites, (∀ b ∈ utf8 d.readable, IsShown b) ∧ utf8 d.readable ≠ []
  gameShown : ∀ c ∈ bank.composites, ∀ b ∈ utf8 c.game, IsShown b
  gameHeads : ∀ c ∈ bank.composites, ∀ b ∈ (utf8 c.game).head?, ¬ IsHexDigit b
  readablesApart : ∀ c ∈ bank.composites, ∀ d ∈ bank.composites,
    utf8 c.readable <+: utf8 d.readable → d = c
  gamesBegin : ∀ c ∈ bank.composites, ∀ d ∈ bank.composites,
    ¬ BeginsIn (utf8 c.game) (utf8 d.readable)
  readablesBegin : ∀ c ∈ bank.composites, ∀ d ∈ bank.composites,
    ¬ BeginsIn (utf8 d.readable) (utf8 c.game).tail ∧
      ¬ BeginsIn (utf8 d.readable) (utf8 c.readable).tail
  charsBegin : ∀ g ∈ bank.glyphs, ∀ d ∈ bank.composites, ¬ BeginsIn (utf8 d.readable) (utf8 g.chars)
  readableHeads : ∀ d ∈ bank.composites, (∀ b ∈ (utf8 d.readable).head?, bank.IsCode b) ∨
    ∀ g ∈ bank.glyphs, EndsBefore (utf8 d.readable) (utf8 g.chars)

/-- The payload spells out a readable composite byte by byte. -/
def SpellsComposite (bank : FontBank) (payload : Bytes) : Prop :=
  ∃ d ∈ bank.composites, (∃ b ∈ (utf8 d.readable).head?, ¬ bank.IsCode b) ∧
    bank.glyphsToGame.apply (utf8 d.readable) <:+: payload

namespace PayloadTables

variable (h : bank.PayloadTables pages name)
include h

/-- A readable composite whose first byte is a code is in no characters of a payload. -/
theorem not_infix_characters_of_isCode {d : Composite} (hd : d ∈ bank.composites)
    (hhead : ∀ b ∈ (utf8 d.readable).head?, bank.IsCode b) (payload : Bytes) :
    ¬ utf8 d.readable <:+: bank.characters payload := by
  unfold characters
  induction payload using Substitution.scan_induction bank.glyphsToReadable with
  | nil =>
    intro hi
    exact (h.readableShown d hd).2 (List.infix_nil.1 hi)
  | hit r rest hf ih =>
    obtain ⟨g, hg, hr⟩ := exists_glyph_of_find? hf
    rw [Substitution.apply_hit hf, ← hr]
    intro hi
    rcases infix_append_cases hi with ⟨z, hne, hz, hp⟩ | hi
    · exact h.charsBegin g hg d hd (beginsIn_of_suffix hz hne (Comparable.of_opens_append hp))
    · exact ih hi
  | miss b rest hf ih =>
    rw [Substitution.apply_miss hf]
    intro hi
    rcases List.infix_cons_iff.1 hi with hp | hi
    · cases hread : utf8 d.readable with
      | nil => exact (h.readableShown d hd).2 hread
      | cons a tail =>
        rw [hread] at hp hhead
        have hab : a = b := (List.cons_prefix_cons.1 hp).1
        exact not_isCode_of_find?_eq_none hf (hab ▸ hhead a rfl)
    · exact ih hi

/-- Another readable composite in the characters of a payload is looked up as a whole. -/
theorem infix_of_infix_characters {d : Composite} (hd : d ∈ bank.composites)
    (hend : ∀ g ∈ bank.glyphs, EndsBefore (utf8 d.readable) (utf8 g.chars)) {payload : Bytes}
    (hname : ¬ name <:+: payload) (hi : utf8 d.readable <:+: bank.characters payload) :
    bank.glyphsToGame.apply (utf8 d.readable) <:+: payload := by
  obtain ⟨u, w, huw⟩ := hi
  have hfront : bank.glyphsToGame.CleanCut u (utf8 d.readable ++ w) := by
    intro rule hm x y hxy _ hy
    obtain ⟨g, hg, rfl⟩ := mem_rules_glyphsToGame.1 hm
    change utf8 g.chars = x ++ y at hxy
    by_cases hyne : y = []
    · exact .inr hyne
    · refine absurd ?_ (h.charsBegin g hg d hd)
      exact beginsIn_of_suffix ⟨x, hxy.symm⟩ hyne (Comparable.of_opens_append hy).symm
  have hback : bank.glyphsToGame.CleanCut (utf8 d.readable) w := by
    intro rule hm x y hxy hx _
    obtain ⟨g, hg, rfl⟩ := mem_rules_glyphsToGame.1 hm
    change utf8 g.chars = x ++ y at hxy
    by_cases hne : x = [] ∨ y = []
    · exact hne
    · simp only [not_or] at hne
      have hlen := List.length_pos_iff.2 hne.1
      have hlen' := List.length_pos_iff.2 hne.2
      refine absurd ?_ (hend g hg x.length (by rw [hxy, List.length_append]; omega) hlen)
      rw [hxy, List.take_left]
      exact hx
  refine ⟨bank.glyphsToGame.apply u, bank.glyphsToGame.apply w, ?_⟩
  have hpayload := h.glyphsToGame_characters hname
  rwa [← huw, List.append_assoc, Substitution.apply_append hfront, Substitution.apply_append hback,
    ← List.append_assoc] at hpayload

theorem not_infix_characters {payload : Bytes} (hname : ¬ name <:+: payload)
    (hspells : ¬ bank.SpellsComposite payload) {d : Composite} (hd : d ∈ bank.composites) :
    ¬ utf8 d.readable <:+: bank.characters payload := by
  by_cases hhead : ∀ b ∈ (utf8 d.readable).head?, bank.IsCode b
  · exact h.not_infix_characters_of_isCode hd hhead payload
  · intro hi
    have hend := (h.readableHeads d hd).resolve_left hhead
    have hletter : ∃ b ∈ (utf8 d.readable).head?, ¬ bank.IsCode b := by simpa using hhead
    exact hspells ⟨d, hd, hletter, h.infix_of_infix_characters hd hend hname hi⟩

end PayloadTables

/-- What the symbols of a payload become when composites are joined. -/
structure Joining (bank : FontBank) (xs ys : List Symbol) : Prop where
  joined : bank.compositesToReadable.apply (xs.flatMap Symbol.spelled) = ys.flatMap Symbol.spelled
  expanded : bank.compositesToGame.apply (ys.flatMap Symbol.raw) = xs.flatMap Symbol.raw
  inline : ∀ y ∈ ys, y.IsInline
  settled : bank.compositesToReadable.apply (ys.flatMap Symbol.escaped) = ys.flatMap Symbol.escaped
  /-- Where no readable composite can begin, nothing has changed. -/
  keepsRaw : ∀ t, (∀ d ∈ bank.composites, ¬ BeginsIn (utf8 d.readable) t) →
    t <+: ys.flatMap Symbol.raw → t <+: xs.flatMap Symbol.raw
  keepsSpelled : ∀ t, (∀ d ∈ bank.composites, ¬ BeginsIn (utf8 d.readable) t) →
    t <+: ys.flatMap Symbol.spelled → t <+: xs.flatMap Symbol.spelled

/-- Where no readable composite can begin, nothing of one stands in front. -/
theorem eq_nil_of_prefix_readable {c : Composite} (hc : c ∈ bank.composites) {t w : Bytes}
    (ht : ∀ d ∈ bank.composites, ¬ BeginsIn (utf8 d.readable) t)
    (hpre : t <+: utf8 c.readable ++ w) : t = [] := by
  cases t with
  | nil => rfl
  | cons a t => exact absurd (.inl (Comparable.of_opens_append hpre).symm) (ht c hc)

/-- What a word without readable composites in its end opens was there before joining. -/
theorem prefix_of_prefix_joined {before after u t : Bytes}
    (hkeep : ∀ t, (∀ d ∈ bank.composites, ¬ BeginsIn (utf8 d.readable) t) →
      t <+: after → t <+: before)
    (hu : u ≠ []) (ht : ∀ d ∈ bank.composites, ¬ BeginsIn (utf8 d.readable) t.tail)
    (hafter : t <+: u ++ after) : t <+: u ++ before := by
  rcases prefix_append_cases hafter with htu | ⟨v, rfl, hv⟩
  · exact htu.trans (List.prefix_append u before)
  · refine (List.prefix_append_right_inj u).2 (hkeep v (fun d hd hb => ht d hd ?_) hv)
    cases u with
    | nil => exact absurd rfl hu
    | cons a u => exact hb.of_suffix (List.suffix_append u v)

namespace PayloadTables

variable (h : bank.PayloadTables pages name)
include h

theorem compositesToGame_readable_append {c : Composite} (hc : c ∈ bank.composites) (w : Bytes) :
    bank.compositesToGame.apply (utf8 c.readable ++ w) =
      utf8 c.game ++ bank.compositesToGame.apply w :=
  Substitution.replace_item_append Composite.toGame bank.compositesToGame_eq hc
    (h.readableShown c hc).2 (h.readablesApart c hc) w

/-- A byte with which no composed sequence begins is copied. -/
theorem compositesToReadable_cons {b : UInt8} (hb : IsSpecial b ∨ IsHexDigit b) (w : Bytes) :
    bank.compositesToReadable.apply (b :: w) = b :: bank.compositesToReadable.apply w := by
  refine Substitution.apply_miss (Substitution.find?_cons_eq_none (fun rule hm hhead => ?_) w)
  obtain ⟨c, hc, rfl⟩ := mem_rules_compositesToReadable.1 hm
  change (utf8 c.game).head? = some b at hhead
  rcases hb with hs | hx
  · exact (h.gameShown c hc b (List.mem_of_mem_head? hhead)).2 hs
  · exact h.gameHeads c hc b hhead hx

theorem compositesToReadable_byteEscape_append (b : UInt8) (w : Bytes) :
    bank.compositesToReadable.apply (byteEscape b ++ w) =
      byteEscape b ++ bank.compositesToReadable.apply w := by
  obtain ⟨high, low, he, hh, hl, -⟩ := exists_byteEscape b
  rw [he]
  change bank.compositesToReadable.apply (backslash :: byteCode :: high :: low :: w) = _
  rw [h.compositesToReadable_cons (by decide), h.compositesToReadable_cons (by decide),
    h.compositesToReadable_cons (.inr hh), h.compositesToReadable_cons (.inr hl)]
  rfl

theorem joining_composite {c : Composite} (hc : c ∈ bank.composites) {p xs ys : List Symbol}
    (hp : ∀ x ∈ p, x.IsChar) (hcode : utf8 c.game = p.flatMap Symbol.spelled)
    (hout : bank.compositesToReadable.apply (p.flatMap Symbol.spelled ++ xs.flatMap Symbol.spelled) =
      utf8 c.readable ++ bank.compositesToReadable.apply (xs.flatMap Symbol.spelled))
    (hj : bank.Joining xs ys) :
    bank.Joining (p ++ xs) (c.readable.toList.map Symbol.char ++ ys) := by
  have hread : utf8Bytes c.readable.toList = utf8 c.readable := (utf8_eq_utf8Bytes c.readable).symm
  have hshown : ∀ b ∈ utf8Bytes c.readable.toList, IsShown b := by
    rw [hread]
    exact (h.readableShown c hc).1
  exact
  { joined := by
      rw [List.flatMap_append, hout, hj.joined, List.flatMap_append,
        Symbol.flatMap_spelled_map_char, hread]
    expanded := by
      rw [List.flatMap_append, Symbol.flatMap_raw_map_char, hread,
        h.compositesToGame_readable_append hc, hj.expanded, hcode, List.flatMap_append,
        Symbol.flatMap_raw_of_isChar hp]
    inline := by
      intro y hy
      rcases List.mem_append.1 hy with hy | hy
      · obtain ⟨a, ha, rfl⟩ := List.mem_map.1 hy
        exact Symbol.isInline_of_shown fun b hb => hshown b (List.mem_flatMap.2 ⟨a, ha, hb⟩)
      · exact hj.inline y hy
    settled := by
      have hskip : bank.compositesToReadable.apply (utf8 c.readable ++ ys.flatMap Symbol.escaped) =
          utf8 c.readable ++ bank.compositesToReadable.apply (ys.flatMap Symbol.escaped) := by
        refine Substitution.apply_append_of_not_beginsIn (fun rule hm => ?_) _
        obtain ⟨d, hd, rfl⟩ := mem_rules_compositesToReadable.1 hm
        exact h.gamesBegin d hd c hc
      rw [List.flatMap_append, Symbol.flatMap_escaped_map_char hshown, hread, hskip, hj.settled]
    keepsRaw := by
      intro t ht hpre
      rw [List.flatMap_append, Symbol.flatMap_raw_map_char, hread] at hpre
      rw [eq_nil_of_prefix_readable hc ht hpre]
      exact List.nil_prefix
    keepsSpelled := by
      intro t ht hpre
      rw [List.flatMap_append, Symbol.flatMap_spelled_map_char, hread] at hpre
      rw [eq_nil_of_prefix_readable hc ht hpre]
      exact List.nil_prefix }

theorem compositesToReadable_spelled_append {x : Symbol} {w : Bytes}
    (hf : bank.compositesToReadable.find? (x.spelled ++ w) = none) :
    bank.compositesToReadable.apply (x.spelled ++ w) =
      x.spelled ++ bank.compositesToReadable.apply w := by
  cases x with
  | char c => exact Substitution.apply_char bank.ofTexts_compositesToReadable hf
  | byte b => exact h.compositesToReadable_byteEscape_append b w

theorem compositesToReadable_escaped_append {x : Symbol} (hx : x.IsInline) {w : Bytes}
    (hf : bank.compositesToReadable.find? (x.spelled ++ w) = none) :
    bank.compositesToReadable.apply (x.escaped ++ w) =
      x.escaped ++ bank.compositesToReadable.apply w := by
  cases x with
  | byte b => exact h.compositesToReadable_byteEscape_append b w
  | char c =>
    by_cases hq : c = '"'
    · subst hq
      rw [Symbol.escaped_quote]
      change bank.compositesToReadable.apply (backslash :: quoteMark :: w) = _
      rw [h.compositesToReadable_cons (by decide), h.compositesToReadable_cons (by decide)]
      rfl
    · rw [Symbol.escaped_of_ne hx hq]
      exact Substitution.apply_char bank.ofTexts_compositesToReadable hf

/-- A composed sequence in front of joined and escaped symbols stands there before both: escaping makes
no part of one. -/
theorem find?_escaped_eq_none {x : Symbol} {xs ys : List Symbol}
    (hf : bank.compositesToReadable.find? (x.spelled ++ xs.flatMap Symbol.spelled) = none)
    (hj : bank.Joining xs ys) :
    bank.compositesToReadable.find? (x.spelled ++ ys.flatMap Symbol.escaped) = none := by
  rw [Substitution.find?_eq_none_iff] at hf ⊢
  intro rule hm hne hp
  refine hf rule hm hne ?_
  obtain ⟨d, hd, rfl⟩ := mem_rules_compositesToReadable.1 hm
  change utf8 d.game <+: x.spelled ++ ys.flatMap Symbol.escaped at hp
  have hspelled : utf8 d.game <+: x.spelled ++ ys.flatMap Symbol.spelled := by
    rcases prefix_append_cases hp with hpx | ⟨v, hv, hpv⟩
    · exact hpx.trans (List.prefix_append _ _)
    · rw [← Symbol.escape_spelled fun y hy => (hj.inline y hy).isUnescaped] at hpv
      rw [hv, List.prefix_append_right_inj]
      exact prefix_of_prefix_escape (fun b hb => (h.gameShown d hd b (by simp [hv, hb])).2) hpv
  exact prefix_of_prefix_joined hj.keepsSpelled x.spelled_ne_nil
    (fun e he => (h.readablesBegin d hd e he).1) hspelled

theorem joining_symbol {x : Symbol} {xs ys : List Symbol} (hx : x.IsInline)
    (hf : bank.compositesToReadable.find? (x.spelled ++ xs.flatMap Symbol.spelled) = none)
    (habsent : ∀ d ∈ bank.composites, ¬ utf8 d.readable <+: x.raw ++ xs.flatMap Symbol.raw)
    (hj : bank.Joining xs ys) : bank.Joining (x :: xs) (x :: ys) where
  joined := by
    rw [List.flatMap_cons, h.compositesToReadable_spelled_append hf, hj.joined, List.flatMap_cons]
  expanded := by
    have hnone : bank.compositesToGame.find? (x.raw ++ ys.flatMap Symbol.raw) = none := by
      rw [Substitution.find?_eq_none_iff]
      intro rule hm _ hp
      obtain ⟨d, hd, rfl⟩ := mem_rules_compositesToGame.1 hm
      refine habsent d hd (prefix_of_prefix_joined hj.keepsRaw x.raw_ne_nil ?_ hp)
      exact fun c hc => (h.readablesBegin d hd c hc).2
    rw [List.flatMap_cons, Symbol.apply_raw_append bank.ofTexts_compositesToGame hnone, hj.expanded,
      List.flatMap_cons]
  inline := List.forall_mem_cons.2 ⟨hx, hj.inline⟩
  settled := by
    have hnone := h.find?_escaped_eq_none hf hj
    rw [List.flatMap_cons, h.compositesToReadable_escaped_append hx hnone, hj.settled]
  keepsRaw := fun t ht => prefix_of_prefix_joined hj.keepsRaw x.raw_ne_nil
    fun d hd hb => ht d hd (hb.of_suffix (List.tail_suffix t))
  keepsSpelled := fun t ht => prefix_of_prefix_joined hj.keepsSpelled x.spelled_ne_nil
    fun d hd hb => ht d hd (hb.of_suffix (List.tail_suffix t))

theorem exists_joining {xs : List Symbol} (hxs : ∀ x ∈ xs, x.IsInline)
    (habsent : ∀ d ∈ bank.composites, ¬ utf8 d.readable <:+: xs.flatMap Symbol.raw) :
    ∃ ys, bank.Joining xs ys := by
  have hrespects : bank.compositesToReadable.Respects Symbol.spelled Symbol.IsInline
      Symbol.IsChar := by
    refine (Symbol.respects_spelled bank.ofTexts_compositesToReadable fun rule hm hb => ?_).mono
      fun _ _ => trivial
    obtain ⟨c, hc, rfl⟩ := mem_rules_compositesToReadable.1 hm
    exact (h.gameShown c hc _ hb).2 (.inl rfl)
  revert habsent
  refine Substitution.coded_induction hrespects ?nil ?hit ?miss xs hxs
  case nil =>
    intro _
    exact ⟨[], rfl, rfl, by simp, rfl, fun _ _ hp => hp, fun _ _ hp => hp⟩
  case hit =>
    intro r p rest hp hrest hcode hf ih habsent
    obtain ⟨ys, hj⟩ := ih fun d hd hi => habsent d hd (by
      rw [List.flatMap_append]
      exact hi.trans (List.suffix_append _ _).isInfix)
    have hm := (Substitution.mem_rules_of_find? hf).1
    obtain ⟨c, hc, hr⟩ := mem_rules_compositesToReadable.1 hm
    have hgame : utf8 c.game = p.flatMap Symbol.spelled := by
      rw [← hcode, ← hr]
      rfl
    have hout : bank.compositesToReadable.apply
        (p.flatMap Symbol.spelled ++ rest.flatMap Symbol.spelled) =
          utf8 c.readable ++ bank.compositesToReadable.apply (rest.flatMap Symbol.spelled) := by
      rw [← hcode, Substitution.apply_hit hf, ← hr]
      rfl
    exact ⟨_, h.joining_composite hc (fun x hx => (hp x hx).2) hgame hout hj⟩
  case miss =>
    intro x rest hx hrest hf ih habsent
    rw [List.flatMap_cons] at habsent
    obtain ⟨ys, hj⟩ := ih fun d hd hi => habsent d hd (hi.trans (List.suffix_append _ _).isInfix)
    exact ⟨_, h.joining_symbol hx hf (fun d hd hp => habsent d hd hp.isInfix) hj⟩

/-- A payload without line codes that spells out neither the name nor a composite comes back from its
readable text. -/
theorem encode_decode {payload : Bytes} (hline : lineFeed ∉ payload) (htab : tabulator ∉ payload)
    (hname : ¬ name <:+: payload) (hspells : ¬ bank.SpellsComposite payload) :
    ∃ text, bank.decode payload false = .ok text ∧ bank.encode text true = .ok payload := by
  obtain ⟨xs, hspelled, hraw, hxs⟩ := h.exists_symbols hline htab
  obtain ⟨ys, hj⟩ := h.exists_joining hxs fun d hd hi =>
    h.not_infix_characters hname hspells hd (hraw ▸ hi)
  have hreadable : bank.readableBytes payload = ys.flatMap Symbol.escaped := by
    rw [readableBytes, hspelled, hj.joined,
      Symbol.escape_spelled fun y hy => (hj.inline y hy).isUnescaped, hj.settled]
  obtain ⟨text, hdecode, htext⟩ := exists_decode h.ascii payload
  refine ⟨text, hdecode, ?_⟩
  have hbytes : bank.encodeBytes (ys.flatMap Symbol.raw) = payload := by
    rw [encodeBytes, hj.expanded, ← hraw, h.glyphsToGame_characters hname]
  rw [encode, if_pos rfl, htext, hreadable, Symbol.unescape_escaped hj.inline]
  exact congrArg Except.ok hbytes

end PayloadTables

end FontBank

end FontCodec
