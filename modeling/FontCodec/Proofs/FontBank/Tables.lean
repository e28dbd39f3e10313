import FontCodec.FontBank
import FontCodec.Proofs.Text.EscapeSyntax

/-!
# The compiled tables of a bank

The rules of each table of a bank are its entries, read in one direction.
-/

namespace FontCodec

def tilde : UInt8 := 0x7e

namespace FontBank

variable {bank : FontBank} {rule : Rule}

theorem mem_rules_glyphsToGame :
    rule ∈ bank.glyphsToGame.rules ↔ ∃ g ∈ bank.glyphs, g.toGame = rule := by
  rw [bank.glyphsToGame_eq]
  exact List.mem_map

theorem mem_rules_glyphsToReadable :
    rule ∈ bank.glyphsToReadable.rules ↔ ∃ g ∈ bank.glyphs, g.toReadable = rule := by
  rw [bank.glyphsToReadable_eq]
  exact List.mem_map

theorem mem_rules_compositesToGame :
    rule ∈ bank.compositesToGame.rules ↔ ∃ c ∈ bank.composites, c.toGame = rule := by
  rw [bank.compositesToGame_eq]
  exact List.mem_map

theorem mem_rules_compositesToReadable :
    rule ∈ bank.compositesToReadable.rules ↔ ∃ c ∈ bank.composites, c.toReadable = rule := by
  rw [bank.compositesToReadable_eq]
  exact List.mem_map

variable (bank)

theorem ofTexts_glyphsToGame : bank.glyphsToGame.OfTexts := by
  intro rule hm
  obtain ⟨g, -, rfl⟩ := mem_rules_glyphsToGame.1 hm
  exact ⟨g.chars.toList, utf8_eq_utf8Bytes g.chars⟩

theorem ofTexts_compositesToGame : bank.compositesToGame.OfTexts := by
  intro rule hm
  obtain ⟨c, -, rfl⟩ := mem_rules_compositesToGame.1 hm
  exact ⟨c.readable.toList, utf8_eq_utf8Bytes c.readable⟩

theorem ofTexts_compositesToReadable : bank.compositesToReadable.OfTexts := by
  intro rule hm
  obtain ⟨c, -, rfl⟩ := mem_rules_compositesToReadable.1 hm
  exact ⟨c.game.toList, utf8_eq_utf8Bytes c.game⟩

variable {bank}

theorem isVerbatim_iff {b : UInt8} : isVerbatim b = true ↔ IsSpecial b := by
  simp only [isVerbatim, IsSpecial, Bool.or_eq_true, decide_eq_true_eq]
  grind

/-- A byte that passes unescaped, or that the escaping pass looks after. -/
theorem spell_of_passes {b : UInt8} (h : bank.isPlain b.toNat ∨ isVerbatim b) :
    bank.spell b = [b] := by
  rcases h with hp | hv
  · simp [spell, hp]
  · simp [spell, hv]

theorem spell_of_hidden {b : UInt8} (h : ¬ (bank.isPlain b.toNat ∨ isVerbatim b)) :
    bank.spell b = byteEscape b := by
  simp only [not_or] at h
  simp [spell, h.1, h.2]

/-- No composed sequence opens another one. -/
def GamesApart (bank : FontBank) : Prop :=
  ∀ c ∈ bank.composites, ∀ d ∈ bank.composites, utf8 c.game <+: utf8 d.game → d = c

/-- Joining composites reads a whole sequence where one stands. -/
theorem compositesToReadable_game_append (h : bank.GamesApart) {c : Composite}
    (hc : c ∈ bank.composites) (hne : utf8 c.game ≠ []) (w : Bytes) :
    bank.compositesToReadable.apply (utf8 c.game ++ w) =
      utf8 c.readable ++ bank.compositesToReadable.apply w :=
  Substitution.replace_item_append Composite.toReadable bank.compositesToReadable_eq hc hne (h c hc) w

end FontBank

end FontCodec
