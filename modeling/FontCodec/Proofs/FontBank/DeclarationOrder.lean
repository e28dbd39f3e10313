import FontCodec.Proofs.FontBank.Totality
import FontCodec.Proofs.StableSort
import FontCodec.Proofs.Substitution.Choice
import Mathlib.Data.List.Nodup
import Mathlib.Data.Prod.Lex

/-!
# When the order of declaration matters

A bank lists its entries by the length of one side, and a pass looks for the longest match on its own
side. So of the entries that match with the same length the one whose sorted side is longest is used, and
of several of these the one declared first. Encoding and decoding are scans that make this choice wherever
they look. Where the sides that a pass reads are all different, the order of declaration does not show.
-/

namespace FontCodec

section StableSort

variable {α : Type} {p : α → Prop} [DecidablePred p] {key rank : α → Nat} {before after : List α}
  {place : Nat} {item : α}

/-- What comes first in a sorted list has the greatest key of its rank, and of its key and rank it came
first before. -/
theorem FirstGreatest.of_stablySorted (hsorted : StablySorted key before after)
    (h : FirstGreatest p rank after place item) :
    ∃ declared, FirstGreatest p (fun a => toLex (rank a, key a)) before declared item := by
  have hclass : FirstGreatest (fun a => p a ∧ key a = key item) rank after place item :=
    ⟨h.at_place, ⟨h.holds, rfl⟩, fun other ho hp => h.greatest other ho hp.1,
      fun j other ho hp => h.first j other ho hp.1⟩
  -- Items of one key stand in the same order before and after sorting.
  have hbefore : (before.filter fun a => p a ∧ key a = key item) =
      after.filter fun a => p a ∧ key a = key item := by
    have hstable := congrArg (List.filter fun a => decide (p a)) (hsorted.stable (key item))
    simpa [List.filter_filter] using hstable.symm
  have hargmax := argmax_filter_eq_some_iff.2 ⟨place, hclass⟩
  rw [← hbefore] at hargmax
  obtain ⟨declared, hdeclared⟩ := argmax_filter_eq_some_iff.1 hargmax
  refine ⟨declared, hdeclared.at_place, h.holds, fun other ho hp => ?_, fun j other ho hp hrank => ?_⟩
  · have hafter : other ∈ after := hsorted.perm.mem_iff.2 ho
    rw [Prod.Lex.toLex_le_toLex]
    rcases (h.greatest other hafter hp).lt_or_eq with hlt | heq
    · exact .inl hlt
    · obtain ⟨j, hj⟩ := List.mem_iff_getElem?.1 hafter
      refine .inr ⟨heq, ?_⟩
      rcases (h.first j other hj hp heq).lt_or_eq with hlt | rfl
      · obtain ⟨hjlen, rfl⟩ := List.getElem?_eq_some_iff.1 hj
        obtain ⟨hlen, rfl⟩ := List.getElem?_eq_some_iff.1 h.at_place
        exact List.pairwise_iff_getElem.1 hsorted.descending place j hlen hjlen hlt
      · rw [Option.some.inj (hj.symm.trans h.at_place)]
  · obtain ⟨hrank, hkey⟩ := Prod.ext_iff.1 (toLex.injective hrank)
    exact hdeclared.first j other ho ⟨hp, hkey⟩ hrank

end StableSort

namespace Substitution

variable {α β : Type} [LinearOrder β] {toRule : α → Rule} {items items' : List α} {rank : α → β}
  {s : Substitution} {copy : UInt8 → Bytes} {buffer output : Bytes}

/-- At every offset of every buffer the table chooses the rule of the first item of the greatest rank
among those that match there, and none if no item matches. -/
def UsesFirst (s : Substitution) (toRule : α → Rule) (rank : α → β) (items : List α) : Prop :=
  ∀ (buffer : Bytes) (offset : Nat),
    (s.find? (buffer.drop offset) = none ↔
      ∀ item ∈ items, ¬ Opens (buffer.drop offset) (toRule item).pattern) ∧
    ∀ rule, (∃ n, s.find? (buffer.drop offset) = some (rule, n)) ↔
      ∃ item place, toRule item = rule ∧
        FirstGreatest (fun a => Opens (buffer.drop offset) (toRule a).pattern) rank items place item

theorem UsesFirst.of_le_iff {γ : Type} [LinearOrder γ] {rank' : α → γ}
    (h : UsesFirst s toRule rank items) (hrank : ∀ a b, rank a ≤ rank b ↔ rank' a ≤ rank' b) :
    UsesFirst s toRule rank' items := by
  intro buffer offset
  refine ⟨(h buffer offset).1, fun rule => ((h buffer offset).2 rule).trans ⟨?_, ?_⟩⟩
  · rintro ⟨item, place, hrule, hfirst⟩
    exact ⟨item, place, hrule, hfirst.of_le_iff hrank⟩
  · rintro ⟨item, place, hrule, hfirst⟩
    exact ⟨item, place, hrule, hfirst.of_le_iff fun a b => (hrank a b).symm⟩

/-- What a scan with the items makes of a buffer: at the front of what is left it puts the output of the
first item of the greatest rank among those that match there, and copies one byte if no item matches. -/
inductive ScansTo (toRule : α → Rule) (rank : α → β) (items : List α) (copy : UInt8 → Bytes) :
    Bytes → Bytes → Prop
  | nil : ScansTo toRule rank items copy [] []
  | hit {item : α} {place : Nat} {rest output : Bytes}
    (hfirst : FirstGreatest (fun a => Opens ((toRule item).pattern ++ rest) (toRule a).pattern) rank
      items place item)
    (htail : ScansTo toRule rank items copy rest output) :
    ScansTo toRule rank items copy ((toRule item).pattern ++ rest) ((toRule item).output ++ output)
  | miss {b : UInt8} {rest output : Bytes}
    (hnone : ∀ item ∈ items, ¬ Opens (b :: rest) (toRule item).pattern)
    (htail : ScansTo toRule rank items copy rest output) :
    ScansTo toRule rank items copy (b :: rest) (copy b ++ output)

-- What is left of a buffer is a buffer itself, so a scan only asks for the choice at its front.
theorem UsesFirst.replace_eq_of_scansTo (h : UsesFirst s toRule rank items)
    (hscan : ScansTo toRule rank items copy buffer output) : s.replace copy buffer = output := by
  induction hscan with
  | nil => rfl
  | @hit item place rest output hfirst _ ih =>
    obtain ⟨n, hf⟩ := ((h _ 0).2 _).2 ⟨item, place, rfl, hfirst⟩
    calc s.replace copy ((toRule item).pattern ++ rest)
        = (toRule item).output ++ s.replace copy rest := replace_hit (r := (toRule item, n)) hf
      _ = (toRule item).output ++ output := by rw [ih]
  | miss hnone _ ih =>
    have hf := (h _ 0).1.2 hnone
    rw [List.drop_zero] at hf
    rw [replace_of_find?_eq_none hf, ih]

theorem UsesFirst.scansTo_replace (h : UsesFirst s toRule rank items) (buffer : Bytes) :
    ScansTo toRule rank items copy buffer (s.replace copy buffer) := by
  induction buffer using scan_induction s with
  | nil => exact .nil
  | hit r rest hf ih =>
    obtain ⟨item, place, hrule, hfirst⟩ := ((h (r.1.pattern ++ rest) 0).2 r.1).1 ⟨r.2, hf⟩
    rw [List.drop_zero, ← hrule] at hfirst
    rw [replace_hit hf, ← hrule]
    exact .hit hfirst ih
  | miss b rest hf ih =>
    rw [replace_of_find?_eq_none hf]
    exact .miss ((h (b :: rest) 0).1.1 hf) ih

/-- A table that uses the first items of the greatest rank makes of a buffer what the scan with them
makes of it, and nothing else. -/
theorem UsesFirst.scansTo_iff (h : UsesFirst s toRule rank items) :
    ScansTo toRule rank items copy buffer output ↔ s.replace copy buffer = output :=
  ⟨h.replace_eq_of_scansTo, fun heq => heq ▸ h.scansTo_replace buffer⟩

/-- Of the items that match with the same length, a table made from sorted items uses the one of the
greatest key, and of several of these the first before sorting. -/
theorem usesFirst_sortDescending (toRule : α → Rule) (key : α → Nat) (items : List α) :
    UsesFirst (ofRules ((sortDescending key items).map toRule)) toRule
      (fun a => toLex ((toRule a).pattern.length, key a)) items := by
  intro buffer offset
  generalize buffer.drop offset = window
  have hnone : (ofRules ((sortDescending key items).map toRule)).find? window = none ↔
      ∀ item ∈ items, ¬ Opens window (toRule item).pattern := by
    simp [find?_eq_none_iff, ofRules, Opens]
  have hfirst : ∀ r, (ofRules ((sortDescending key items).map toRule)).find? window = some r →
      ∃ item place, toRule item = r.1 ∧
        FirstGreatest (fun a => Opens window (toRule a).pattern)
          (fun a => toLex ((toRule a).pattern.length, key a)) items place item := by
    intro r hf
    have hchosen := map_fst_find? (s := ofRules ((sortDescending key items).map toRule)) window
    rw [hf, ofRules, longest?_map] at hchosen
    obtain ⟨item, hitem, hrule⟩ := Option.map_eq_some_iff.1 hchosen.symm
    obtain ⟨place, hplace⟩ := longest?_eq_some_iff.1 hitem
    obtain ⟨declared, hdeclared⟩ := hplace.of_stablySorted stablySorted_sortDescending
    exact ⟨item, declared, hrule, hdeclared⟩
  refine ⟨hnone, fun rule => ⟨?_, ?_⟩⟩
  · rintro ⟨n, hf⟩
    exact hfirst (rule, n) hf
  · rintro ⟨item, place, rfl, h⟩
    cases hf : (ofRules ((sortDescending key items).map toRule)).find? window with
    | none => exact absurd h.holds (hnone.1 hf item (List.mem_of_getElem? h.at_place))
    | some r =>
      obtain ⟨other, j, hrule, hother⟩ := hfirst r hf
      rw [h.unique hother] at hrule
      exact ⟨r.2, by rw [hrule]⟩

/-- If the patterns are all different, every order of the rules chooses the same rule. -/
theorem map_fst_find?_perm {rules rules' : List Rule} (hperm : rules'.Perm rules)
    (hnodup : (rules.map Rule.pattern).Nodup) (w : Bytes) :
    ((ofRules rules').find? w).map Prod.fst = ((ofRules rules).find? w).map Prod.fst := by
  cases hf : (ofRules rules).find? w with
  | none =>
    have hnone : (ofRules rules').find? w = none :=
      find?_eq_none_iff.2 fun rule hm => find?_eq_none_iff.1 hf rule (hperm.mem_iff.1 hm)
    rw [hnone]
  | some r =>
    obtain ⟨hm, hne, hp⟩ := mem_rules_of_find? hf
    have hm₀ : r.1 ∈ rules' := hperm.mem_iff.2 hm
    cases hf' : (ofRules rules').find? w with
    | none => exact absurd hp (find?_eq_none_iff.1 hf' r.1 hm₀ hne)
    | some r' =>
      obtain ⟨hm', -, hp'⟩ := mem_rules_of_find? hf'
      have hle := length_le_of_find? hf (hperm.mem_iff.1 hm') hp'
      have hge := length_le_of_find? hf' hm₀ hp
      have hpattern : r'.1.pattern = r.1.pattern :=
        (List.prefix_of_prefix_length_le hp' hp hle).eq_of_length (le_antisymm hle hge)
      have hrule : r'.1 = r.1 := List.inj_on_of_nodup_map hnodup (hperm.mem_iff.1 hm') hm hpattern
      rw [Option.map_some, Option.map_some, hrule]

theorem replace_sortDescending_perm (toRule : α → Rule) (key : α → Nat) (hperm : items'.Perm items)
    (hnodup : (items.map fun a => (toRule a).pattern).Nodup) (copy : UInt8 → Bytes) (buffer : Bytes) :
    (ofRules ((sortDescending key items').map toRule)).replace copy buffer =
      (ofRules ((sortDescending key items).map toRule)).replace copy buffer := by
  have hstable : StablySorted key items (sortDescending key items) := stablySorted_sortDescending
  have hsorted : (sortDescending key items').Perm (sortDescending key items) :=
    (stablySorted_sortDescending.perm.trans hperm).trans hstable.perm.symm
  have hpatterns : (((sortDescending key items).map toRule).map Rule.pattern).Nodup := by
    rw [List.map_map]
    exact (hstable.perm.map _).nodup_iff.2 hnodup
  exact replace_congr (map_fst_find?_perm (hsorted.map toRule) hpatterns) copy buffer

end Substitution

namespace FontBank

variable {bank : FontBank} {version : Version} {glyphs glyphs' : List Glyph}
  {composites composites' : List Composite} {passthrough : IntSet}

theorem nodup_utf8 {α : Type} {text : α → String} {items : List α} (h : (items.map text).Nodup) :
    (items.map fun a => utf8 (text a)).Nodup := by
  have hutf8 : Function.Injective utf8 := fun a b hab => utf8_inj.1 hab
  have := h.map hutf8
  rwa [List.map_map] at this

theorem encodeBytes_build_perm (hglyphs : glyphs'.Perm glyphs)
    (hcomposites : composites'.Perm composites) (hchars : (glyphs.map Glyph.chars).Nodup)
    (hreadables : (composites.map Composite.readable).Nodup) :
    (build version glyphs' composites' passthrough).encodeBytes =
      (build version glyphs composites passthrough).encodeBytes := by
  funext text
  have hexpand : (build version glyphs' composites' passthrough).compositesToGame.apply text =
      (build version glyphs composites passthrough).compositesToGame.apply text :=
    Substitution.replace_sortDescending_perm Composite.toGame _ hcomposites (nodup_utf8 hreadables) _ text
  rw [encodeBytes, hexpand]
  exact Substitution.replace_sortDescending_perm Glyph.toGame _ hglyphs (nodup_utf8 hchars) _ _

theorem readableBytes_build_perm (hglyphs : glyphs'.Perm glyphs)
    (hcomposites : composites'.Perm composites) (hraws : (glyphs.map Glyph.raw).Nodup)
    (hgames : (composites.map Composite.game).Nodup) :
    (build version glyphs' composites' passthrough).readableBytes =
      (build version glyphs composites passthrough).readableBytes := by
  funext payload
  have hstage : (build version glyphs' composites' passthrough).glyphText payload =
      (build version glyphs composites passthrough).glyphText payload :=
    Substitution.replace_sortDescending_perm Glyph.toReadable _ hglyphs hraws _ payload
  have hjoin : ∀ text, (build version glyphs' composites' passthrough).compositesToReadable.apply text =
      (build version glyphs composites passthrough).compositesToReadable.apply text :=
    Substitution.replace_sortDescending_perm Composite.toReadable _ hcomposites (nodup_utf8 hgames) _
  rw [readableBytes, hstage, hjoin, hjoin, readableBytes]

/-- Encoding prefers the entry that reads more, and among those that read the same the longer one in the
game. -/
def glyphRank (g : Glyph) : Nat ×ₗ Nat := toLex ((utf8 g.chars).length, g.raw.length)

def compositeRank (c : Composite) : Nat ×ₗ Nat :=
  toLex ((utf8 c.readable).length, (utf8 c.game).length)

/-- The tables for encoding use the first declared of the entries of the greatest rank that match, the
tables for decoding the first declared of those with the longest matching side of the game. -/
structure UsesFirstDeclared (bank : FontBank) (glyphs : List Glyph) (composites : List Composite) :
    Prop where
  glyphsToGame : bank.glyphsToGame.UsesFirst Glyph.toGame glyphRank glyphs
  compositesToGame : bank.compositesToGame.UsesFirst Composite.toGame compositeRank composites
  glyphsToReadable : bank.glyphsToReadable.UsesFirst Glyph.toReadable (fun g => g.raw.length) glyphs
  compositesToReadable : bank.compositesToReadable.UsesFirst Composite.toReadable
    (fun c => (utf8 c.game).length) composites

/-- The passes of encoding as scans with the declared entries. -/
def EncodesTo (glyphs : List Glyph) (composites : List Composite) (text payload : Bytes) : Prop :=
  ∃ expanded,
    Substitution.ScansTo Composite.toGame compositeRank composites (fun b => [b]) text expanded ∧
    Substitution.ScansTo Glyph.toGame glyphRank glyphs (fun b => [b]) expanded payload

/-- The passes of decoding as scans with the declared entries, with the spelling of the bytes that belong
to none of them. -/
def DecodesTo (glyphs : List Glyph) (composites : List Composite) (spelling : UInt8 → Bytes)
    (payload text : Bytes) : Prop :=
  ∃ shown joined,
    Substitution.ScansTo Glyph.toReadable (fun g => g.raw.length) glyphs spelling payload shown ∧
    Substitution.ScansTo Composite.toReadable (fun c => (utf8 c.game).length) composites
      (fun b => [b]) shown joined ∧
    Substitution.ScansTo Composite.toReadable (fun c => (utf8 c.game).length) composites
      (fun b => [b]) (escape joined) text

theorem UsesFirstDeclared.encodesTo_iff (h : bank.UsesFirstDeclared glyphs composites)
    {text payload : Bytes} :
    EncodesTo glyphs composites text payload ↔ bank.encodeBytes text = payload := by
  simp only [EncodesTo, h.compositesToGame.scansTo_iff, h.glyphsToGame.scansTo_iff, exists_eq_left']
  rfl

theorem UsesFirstDeclared.decodesTo_iff (h : bank.UsesFirstDeclared glyphs composites)
    {payload text : Bytes} :
    DecodesTo glyphs composites bank.spell payload text ↔ bank.readableBytes payload = text := by
  simp only [DecodesTo, h.glyphsToReadable.scansTo_iff, h.compositesToReadable.scansTo_iff,
    exists_and_left, exists_eq_left']
  rfl

theorem usesFirstDeclared_build :
    (build version glyphs composites passthrough).UsesFirstDeclared glyphs composites := by
  have hsquare : ∀ m n : Nat, toLex (m, m) ≤ toLex (n, n) ↔ m ≤ n := by
    intro m n
    rw [Prod.Lex.toLex_le_toLex]
    omega
  constructor
  case glyphsToGame => exact Substitution.usesFirst_sortDescending Glyph.toGame _ glyphs
  case compositesToGame => exact Substitution.usesFirst_sortDescending Composite.toGame _ composites
  case glyphsToReadable =>
    exact (Substitution.usesFirst_sortDescending Glyph.toReadable _ glyphs).of_le_iff
      fun g g' => hsquare g.raw.length g'.raw.length
  case compositesToReadable =>
    exact (Substitution.usesFirst_sortDescending Composite.toReadable _ composites).of_le_iff
      fun c c' => hsquare (utf8 c.game).length (utf8 c'.game).length

/-- Encoding uses, of the entries with the longest matching readable side, the first declared of those
with the longest side of the game. Decoding uses the first declared of the entries with the longest
matching side of the game. This is so of the tables at every offset and of the passes that scan with them.
So the order of declaration never shows in a decoded text if the sides of the game are all different, and
never in a payload if the readable sides are. -/
theorem build_usesFirst (version : Version) (glyphs : List Glyph) (composites : List Composite)
    (passthrough : IntSet) :
    (build version glyphs composites passthrough).UsesFirstDeclared glyphs composites ∧
    (∀ text resolveEscapes payload,
      (build version glyphs composites passthrough).encode text resolveEscapes = .ok payload ↔
        ∃ source, (if resolveEscapes then unescape (utf8 text) else .ok (utf8 text)) = .ok source ∧
          EncodesTo glyphs composites source payload) ∧
    (∀ payload korean text,
      (build version glyphs composites passthrough).decode payload korean = .ok text ↔
        DecodesTo glyphs composites (build version glyphs composites passthrough).spell
          (if korean then Jamo.retag payload else payload) (utf8 text)) ∧
    ∀ glyphs' composites', glyphs'.Perm glyphs → composites'.Perm composites →
      ((glyphs.map Glyph.raw).Nodup → (composites.map Composite.game).Nodup →
        ∀ payload korean,
          (build version glyphs' composites' passthrough).decode payload korean =
            (build version glyphs composites passthrough).decode payload korean) ∧
      ((glyphs.map Glyph.chars).Nodup → (composites.map Composite.readable).Nodup →
        ∀ text resolveEscapes,
          (build version glyphs' composites' passthrough).encode text resolveEscapes =
            (build version glyphs composites passthrough).encode text resolveEscapes) := by
  have huses : (build version glyphs composites passthrough).UsesFirstDeclared glyphs composites :=
    usesFirstDeclared_build
  refine ⟨huses, fun text resolveEscapes payload => ?_, fun payload korean text => ?_,
    fun glyphs' composites' hglyphs hcomposites => ⟨?_, ?_⟩⟩
  · simp only [huses.encodesTo_iff]
    rw [encode]
    cases resolveEscapes with
    | false => simp
    | true => cases unescape (utf8 text) <;> simp [Except.map]
  · rw [decode_eq_ok_iff, huses.decodesTo_iff]
  · intro hraws hgames payload korean
    rw [decode, decode, readableBytes_build_perm hglyphs hcomposites hraws hgames]
  · intro hchars hreadables text resolveEscapes
    rw [encode, encode, encodeBytes_build_perm hglyphs hcomposites hchars hreadables]

/-- Of the glyphs of one character, the first of those with two bytes is used. -/
example : (build .jak2 [⟨"a", [0x01]⟩, ⟨"a", [0x01, 0x02]⟩, ⟨"a", [0x01, 0x03]⟩] [] .empty).encode
    "a" false = .ok [0x01, 0x02] := by decide +kernel

def ligatures : List Glyph := [⟨"a", [0x01]⟩, ⟨"ab", [0x01, 0x02]⟩, ⟨"b", [0x02]⟩]

def diaereses : List Composite := [⟨"~a", "á"⟩, ⟨"~~a", "ä"⟩]

theorem build_ligatures_reverse :
    (ligatures.reverse.Perm ligatures ∧ (ligatures.map Glyph.raw).Nodup ∧
      (diaereses.map Composite.game).Nodup ∧
      (build .jak2 ligatures.reverse diaereses.reverse .empty).decode [0x01, 0x02, 0x01] false =
        (build .jak2 ligatures diaereses .empty).decode [0x01, 0x02, 0x01] false) ∧
    ((ligatures.map Glyph.chars).Nodup ∧ (diaereses.map Composite.readable).Nodup ∧
      (build .jak2 ligatures.reverse diaereses.reverse .empty).encode "abäa" true =
        (build .jak2 ligatures diaereses .empty).encode "abäa" true) := by
  have hglyphs : ligatures.reverse.Perm ligatures := List.reverse_perm ligatures
  have hraws : (ligatures.map Glyph.raw).Nodup := by decide
  have hgames : (diaereses.map Composite.game).Nodup := by decide +kernel
  have hchars : (ligatures.map Glyph.chars).Nodup := by decide +kernel
  have hreadables : (diaereses.map Composite.readable).Nodup := by decide +kernel
  obtain ⟨hdecode, hencode⟩ := (build_usesFirst .jak2 ligatures diaereses .empty).2.2.2 _ _ hglyphs
    (List.reverse_perm diaereses)
  exact ⟨⟨hglyphs, hraws, hgames, hdecode hraws hgames _ false⟩, hchars, hreadables,
    hencode hchars hreadables "abäa" true⟩

end FontBank

end FontCodec
