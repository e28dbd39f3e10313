import FontCodec.Proofs.FontBank.Pages
import FontCodec.Proofs.Text.Symbol

/-!
# There and back through the glyphs

A text that is written in glyphs and in bytes that stand for themselves is read back from the codes of
its glyphs.
-/

namespace FontCodec

namespace FontBank

variable {bank : FontBank} {pages : List UInt8}

/-- The glyph stage spells the bytes of a symbol as the symbol, whatever follows. -/
def Direct (bank : FontBank) (x : Symbol) : Prop :=
  ∀ w, bank.glyphText (x.raw ++ w) = x.spelled ++ bank.glyphText w

theorem direct_byte {b : UInt8} (hfree : bank.IsFree b)
    (hspell : ¬ (bank.isPlain b.toNat ∨ isVerbatim b)) : bank.Direct (.byte b) := by
  intro w
  change bank.glyphText (b :: w) = byteEscape b ++ _
  rw [glyphText_free_cons hfree, spell_of_hidden hspell]

theorem direct_char {b : UInt8} {c : Char} (hc : String.utf8EncodeChar c = [b])
    (hfree : bank.IsFree b) (hspell : bank.isPlain b.toNat ∨ isVerbatim b) :
    bank.Direct (.char c) := by
  intro w
  simp only [Symbol.raw, Symbol.spelled, hc]
  change bank.glyphText (b :: w) = [b] ++ _
  rw [glyphText_free_cons hfree, spell_of_passes hspell]

def OpensWithGlyph (bank : FontBank) (bytes : Bytes) : Prop :=
  ∃ g ∈ bank.glyphs, utf8 g.chars ≠ [] ∧ utf8 g.chars <+: bytes

/-- Wherever the text stands, a glyph opens it or its first symbol is spelled as it is. -/
def Fits (bank : FontBank) : List Symbol → Prop
  | [] => True
  | x :: rest => (bank.Direct x ∨ bank.OpensWithGlyph ((x :: rest).flatMap Symbol.raw)) ∧
      bank.Fits rest

theorem Fits.of_append {p rest : List Symbol} (h : bank.Fits (p ++ rest)) : bank.Fits rest := by
  induction p with
  | nil => exact h
  | cons x p ih => exact ih h.2

theorem glyphsToGame_respects (h : ∀ g ∈ bank.glyphs, ∀ b ∈ utf8 g.chars, IsShown b) :
    bank.glyphsToGame.Respects Symbol.raw Symbol.IsLoose Symbol.IsChar := by
  refine Symbol.respects_raw bank.ofTexts_glyphsToGame fun rule hm b hb => ?_
  obtain ⟨g, hg, rfl⟩ := mem_rules_glyphsToGame.1 hm
  exact (h g hg b hb).1

theorem glyphText_glyphsToGame (hpages : Paged pages bank.glyphs)
    (hshown : ∀ g ∈ bank.glyphs, ∀ b ∈ utf8 g.chars, IsShown b) {xs : List Symbol}
    (hloose : ∀ x ∈ xs, x.IsLoose) (hfits : bank.Fits xs) :
    bank.glyphText (bank.glyphsToGame.apply (xs.flatMap Symbol.raw)) =
      xs.flatMap Symbol.spelled := by
  revert hfits
  refine Substitution.coded_induction (glyphsToGame_respects hshown) ?nil ?hit ?miss xs hloose
  case nil => exact fun _ => rfl
  case hit =>
    intro r p rest hp _ hcode hf ih hfits
    have hm := (Substitution.mem_rules_of_find? hf).1
    obtain ⟨g, hg, hr⟩ := mem_rules_glyphsToGame.1 hm
    have hout : r.1.output = g.raw := by rw [← hr]; rfl
    have hchars : utf8 g.chars = p.flatMap Symbol.spelled := by
      rw [← Symbol.flatMap_raw_of_isChar fun x hx => (hp x hx).2, ← hcode, ← hr]
      rfl
    rw [List.flatMap_append, ← hcode, Substitution.apply_hit hf, hout,
      glyphText_raw_append hpages hg, hchars, ih hfits.of_append, List.flatMap_append]
  case miss =>
    intro x rest _ _ hf ih hfits
    have hdirect : bank.Direct x := by
      rcases hfits.1 with hd | ⟨g, hg, hne, hp⟩
      · exact hd
      · have hm : g.toGame ∈ bank.glyphsToGame.rules := mem_rules_glyphsToGame.2 ⟨g, hg, rfl⟩
        exact absurd hp (Substitution.find?_eq_none_iff.1 hf g.toGame hm hne)
    have hskip := Symbol.apply_raw_append bank.ofTexts_glyphsToGame hf
    rw [List.flatMap_cons, hskip, hdirect, ih hfits.2, List.flatMap_cons]

end FontBank

end FontCodec
