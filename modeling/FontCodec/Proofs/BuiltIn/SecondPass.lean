import FontCodec.Proofs.BuiltIn.PayloadRoundTrip
import FontCodec.Proofs.Substitution.Settling

/-!
# The second pass over readable text

Decoding joins composites before and after escaping. In the fonts of the first game the first pass
leaves no composed sequence, and escaping makes none, so that the second pass changes nothing. In the
font of the second game a pair of backslashes is a sequence that escaping makes.
-/

namespace FontCodec

namespace FontBank.PayloadTables

variable {bank : FontBank} {pages : List UInt8} {name : Bytes} (h : bank.PayloadTables pages name)
include h

theorem settles_compositesToReadable : bank.compositesToReadable.Settles := by
  intro rule hm other ho
  obtain ⟨c, hc, rfl⟩ := mem_rules_compositesToReadable.1 hm
  obtain ⟨d, hd, rfl⟩ := mem_rules_compositesToReadable.1 ho
  exact ⟨h.gamesBegin c hc d hd, (h.readablesBegin c hc d hd).1⟩

theorem game_ne_nil {c : Composite} (hc : c ∈ bank.composites) : utf8 c.game ≠ [] := by
  intro hnil
  have hbegin := h.gamesBegin c hc c hc
  rw [hnil] at hbegin
  obtain ⟨a, tail, hread⟩ := List.exists_cons_of_ne_nil (h.readableShown c hc).2
  rw [hread] at hbegin
  exact hbegin (.inl (.inl List.nil_prefix))

/-- No composed sequence is left once the joined text is escaped. -/
theorem not_infix_escape (hheads : ∀ c ∈ bank.composites, ∀ b ∈ (utf8 c.game).head?, ¬ IsFallbackEnd b)
    (bytes : Bytes) {c : Composite} (hc : c ∈ bank.composites) :
    ¬ utf8 c.game <:+: escape (bank.compositesToReadable.apply bytes) := by
  intro hi
  have hm : c.toReadable ∈ bank.compositesToReadable.rules :=
    mem_rules_compositesToReadable.2 ⟨c, hc, rfl⟩
  refine h.settles_compositesToReadable.not_infix_apply bytes hm (h.game_ne_nil hc) ?_
  refine infix_of_infix_escape (fun b hb => (h.gameShown c hc b hb).2) (fun b hb => ?_) hi
  have hend := hheads c hc b hb
  exact ⟨fun hn => hend (.inl hn), fun ht => hend (.inr (.inl ht))⟩

theorem readableBytes_eq_escape
    (hheads : ∀ c ∈ bank.composites, ∀ b ∈ (utf8 c.game).head?, ¬ IsFallbackEnd b) (payload : Bytes) :
    bank.readableBytes payload =
      escape (bank.compositesToReadable.apply (bank.glyphText payload)) := by
  refine Substitution.apply_eq_self fun rule hm _ => ?_
  obtain ⟨c, hc, rfl⟩ := mem_rules_compositesToReadable.1 hm
  exact h.not_infix_escape hheads _ hc

end FontBank.PayloadTables

namespace BuiltIn

/-- A payload of the first game, Korean or not, reads as its escaped text after one pass over the
composed sequences, and none of these is in that text. -/
theorem decode_eq_escape (v : Version) (hv : v ≠ .jak2) (payload : Bytes) (korean : Bool) :
    ∃ text, (bank v).decode payload korean = .ok text ∧
      utf8 text = escape ((bank v).compositesToReadable.apply
        ((bank v).glyphText (if korean then Jamo.retag payload else payload))) ∧
      ∀ c ∈ (bank v).composites, ¬ utf8 c.game <:+: utf8 text := by
  obtain ⟨inspected⟩ := nonempty_payloadInspection hv
  have h : (bank v).PayloadTables inspected.pages tildeName := by
    rw [bank_eq]
    exact inspected.payloadTables
  have hheads : ∀ c ∈ (bank v).composites, ∀ b ∈ (utf8 c.game).head?, ¬ IsFallbackEnd b := by
    intro c hc b hb
    rw [bank_eq, FontTables.mem_composites_bank] at hc
    have hall := (inspected.games c hc).2
    rw [hb] at hall
    simpa using hall
  obtain ⟨text, hdecode, hbytes⟩ := FontBank.exists_decode_tagged h.ascii payload korean
  have hescape := hbytes.trans (h.readableBytes_eq_escape hheads _)
  exact ⟨text, hdecode, hescape,
    fun c hc => hescape ▸ h.not_infix_escape hheads _ hc⟩

/-- A composite, a code left over next to it, a line feed and a byte without a glyph. -/
theorem decode_eq_escape_leftover :
    ∃ text, (bank .jak1V1).decode [0x7e, 0x7e, 0x7e, 0x5a, 0x0a, 0x80] false = .ok text ∧
      utf8 text = escape ((bank .jak1V1).compositesToReadable.apply
        ((bank .jak1V1).glyphText [0x7e, 0x7e, 0x7e, 0x5a, 0x0a, 0x80])) ∧
      ∀ c ∈ (bank .jak1V1).composites, ¬ utf8 c.game <:+: utf8 text :=
  decode_eq_escape .jak1V1 (by decide) _ false

end BuiltIn

end FontCodec
