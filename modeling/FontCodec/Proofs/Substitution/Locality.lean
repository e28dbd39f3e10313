import FontCodec.Proofs.Substitution.Segmentation

/-!
# Substitution at a border

Where no pattern stands across the border between two buffers, a scan meets the border. It cuts the two
buffers in a row as it cuts each of them alone.
-/

namespace FontCodec

/-- The pattern stands in the buffer, and begins in front of the border and ends behind it. -/
def Straddles (buffer : Bytes) (border : Nat) (pattern : Bytes) : Prop :=
  ∃ offset < border, border < offset + pattern.length ∧ pattern <+: buffer.drop offset

instance (buffer : Bytes) (border : Nat) (pattern : Bytes) :
    Decidable (Straddles buffer border pattern) :=
  inferInstanceAs (Decidable (∃ offset < border, _ ∧ _))

namespace Substitution

variable {s : Substitution} {rules : List Rule} {a b segment rest : Bytes} {cut cut' : List Bytes}

theorem straddles_append_iff {pattern : Bytes} :
    Straddles (a ++ b) a.length pattern ↔
      ∃ x y, pattern = x ++ y ∧ x <:+ a ∧ y <+: b ∧ x ≠ [] ∧ y ≠ [] := by
  constructor
  · rintro ⟨offset, hbegin, hend, hp⟩
    have hlen : (a.drop offset).length = a.length - offset := List.length_drop
    rw [List.drop_append_of_le_length hbegin.le] at hp
    rcases prefix_append_cases hp with hp | ⟨y, rfl, hy⟩
    · have := hp.length_le
      omega
    · refine ⟨a.drop offset, y, rfl, List.drop_suffix offset a, hy, ?_, ?_⟩
      · exact List.ne_nil_of_length_pos (by omega)
      · rw [List.length_append] at hend
        exact List.ne_nil_of_length_pos (by omega)
  · rintro ⟨x, y, rfl, ⟨z, rfl⟩, hy, hx, hne⟩
    have hxlen := List.length_pos_iff.2 hx
    have hylen := List.length_pos_iff.2 hne
    refine ⟨z.length, ?_, ?_, ?_⟩
    · rw [List.length_append]
      omega
    · rw [List.length_append, List.length_append]
      omega
    · rw [List.append_assoc, List.drop_left, List.prefix_append_right_inj]
      exact hy

theorem cleanCut_iff :
    s.CleanCut a b ↔ ∀ rule ∈ s.rules, ¬ Straddles (a ++ b) a.length rule.pattern := by
  refine forall₂_congr fun rule _ => ?_
  rw [straddles_append_iff]
  refine ⟨fun h ⟨x, y, hxy, hx, hy, hne, hne'⟩ => (h x y hxy hx hy).elim hne hne', ?_⟩
  intro h x y hxy hx hy
  by_contra hne
  rw [not_or] at hne
  exact h ⟨x, y, hxy, hx, hy, hne⟩

/-- What is selected in front of a clean cut stays selected when the buffer goes on behind the cut. -/
theorem selectedAt_append (hclean : (ofRules rules).CleanCut (segment ++ rest) b)
    (hne : segment ≠ []) (h : SelectedAt rules (segment ++ rest) 0 segment) :
    SelectedAt rules (segment ++ (rest ++ b)) 0 segment := by
  have hfind : findLongest rules (segment ++ (rest ++ b)) (0 : Nat) =
      findLongest rules (segment ++ rest) (0 : Nat) := by
    rw [findLongest_zero, findLongest_zero, ← List.append_assoc, find?_append hclean (by simp [hne])]
  rw [SelectedAt, hfind]
  exact h

/-- The greedy cuts on both sides of a clean cut make the greedy cut of the whole. -/
theorem greedyCut_append (hclean : (ofRules rules).CleanCut a b) (h : GreedyCut rules a cut)
    (h' : GreedyCut rules b cut') : GreedyCut rules (a ++ b) (cut ++ cut') := by
  -- Along the first cut: behind each segment the border is as clean as before.
  induction cut generalizing a with
  | nil =>
    obtain rfl : [] = a := h.flatten_eq
    exact h'
  | cons segment cut ih =>
    obtain ⟨hne, rest, rfl, hselected, hrest⟩ := greedyCut_cons_iff.1 h
    rw [List.append_assoc, List.cons_append]
    refine greedyCut_cons_iff.2 ⟨hne, rest ++ b, rfl, selectedAt_append hclean hne hselected, ?_⟩
    exact ih (hclean.suffix (List.suffix_append segment rest)) hrest

/-- Where no pattern stands across the border between two buffers, replacing in both in a row gives what
replacing in each of them gives, and the scan cuts them as it cuts each of them. -/
theorem apply_append_of_not_straddles (rules : List Rule) (a b : Bytes)
    (h : ∀ rule ∈ rules, rule.pattern ≠ [] → ¬ Straddles (a ++ b) a.length rule.pattern) :
    (ofRules rules).apply (a ++ b) = (ofRules rules).apply a ++ (ofRules rules).apply b ∧
      ∀ cut cut', GreedyCut rules a cut → GreedyCut rules b cut' →
        GreedyCut rules (a ++ b) (cut ++ cut') := by
  have hclean : (ofRules rules).CleanCut a b := by
    refine cleanCut_iff.2 fun rule hm hstraddles => ?_
    have hne : rule.pattern ≠ [] := by
      obtain ⟨x, y, hxy, -, -, hx, -⟩ := straddles_append_iff.1 hstraddles
      simp [hxy, hx]
    exact h rule hm hne hstraddles
  exact ⟨apply_append hclean, fun cut cut' => greedyCut_append hclean⟩

/-- A short pattern ends at the border, and a longer one begins there. -/
theorem apply_append_doubled :
    (∀ rule ∈ doubled, rule.pattern ≠ [] →
      ¬ Straddles ([0x62, 0x61] ++ [0x61, 0x62]) ([0x62, 0x61] : Bytes).length rule.pattern) ∧
    (ofRules doubled).apply ([0x62, 0x61] ++ [0x61, 0x62]) = [0x62, 2] ++ [3] := by
  have hborder : ∀ rule ∈ doubled, rule.pattern ≠ [] →
      ¬ Straddles ([0x62, 0x61] ++ [0x61, 0x62]) ([0x62, 0x61] : Bytes).length rule.pattern := by
    decide
  have happly := (apply_append_of_not_straddles doubled [0x62, 0x61] [0x61, 0x62] hborder).1
  have hfront : (ofRules doubled).apply [0x62, 0x61] = [0x62, 2] := by decide +kernel
  have hback : (ofRules doubled).apply [0x61, 0x62] = [3] := by decide +kernel
  rw [hfront, hback] at happly
  exact ⟨hborder, happly⟩

end Substitution

end FontCodec
