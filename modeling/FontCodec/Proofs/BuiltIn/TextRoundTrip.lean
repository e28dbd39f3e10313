import FontCodec.Proofs.BuiltIn.Tables

/-!
# Text through the built-in banks

Everything that can be typed in glyphs and readable composites of a built-in font survives the way to
the game and back. Two pairs of characters are left out, because the sequences they are drawn with read
as one composite.
-/

namespace FontCodec.BuiltIn

/-- A text of allowed tokens encodes, and its payload decodes to the text. -/
theorem decode_encode_text (v : Version) (tokens : List Token)
    (htokens : ∀ t ∈ tokens, t.Allowed (bank v))
    (hcomma : ¬ [',', '\u3000'] <:+: tokens.flatMap Token.text)
    (hnumber : ¬ ['N', '\u00B0'] <:+: tokens.flatMap Token.text) :
    ∃ payload, (bank v).encode (String.ofList (tokens.flatMap Token.text)) true = .ok payload ∧
      (bank v).decode payload false = .ok (String.ofList (tokens.flatMap Token.text)) := by
  refine (readableTables v).decode_encode_tokens htokens rfl fun pair hpair hi => ?_
  rw [String.toList_ofList] at hi
  simp only [clashes, List.mem_cons, List.not_mem_nil, or_false] at hpair
  rcases hpair with rfl | rfl
  · exact hcomma hi
  · exact hnumber hi

theorem decode_encode_text_mixed :
    ∃ payload, (bank .jak1V1).encode "H世\\\"\\c02" true = .ok payload ∧
      (bank .jak1V1).decode payload false = .ok "H世\\\"\\c02" := by
  have hallowed : ∀ t ∈ [Token.char 'H', .char '世', .quote, .code 2], t.Allowed (bank .jak1V1) := by
    simp only [List.forall_mem_cons, List.not_mem_nil, false_implies, implies_true, and_true]
    have hworld : ⟨"~~", "世"⟩ ∈ (bank .jak1V1).composites :=
      FontTables.mem_composites_bank.2 (by simp [tables, Jak1.composites])
    exact ⟨.inl (by decide +kernel), .inr (.inr ⟨_, hworld, rfl⟩), trivial, by decide, by decide,
      by decide, by decide +kernel⟩
  exact decode_encode_text .jak1V1 _ hallowed (by decide) (by decide)

end FontCodec.BuiltIn
