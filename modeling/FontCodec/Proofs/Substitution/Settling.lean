import FontCodec.Proofs.Substitution.Scan

/-!
# Passes that leave nothing to replace

A pattern in the result of a pass meets an output or stands in bytes that were copied. If patterns
and outputs cannot meet, none is left.
-/

namespace FontCodec.Substitution

variable {s : Substitution}

/-- No pattern can begin inside an output, and no output behind the beginning of a pattern. -/
def Settles (s : Substitution) : Prop := ∀ rule ∈ s.rules, ∀ other ∈ s.rules,
  ¬ BeginsIn rule.pattern other.output ∧ ¬ BeginsIn other.output rule.pattern.tail

namespace Settles

variable (h : s.Settles)
include h

/-- A copied byte opens a pattern in the result only if it did so in the buffer. -/
theorem not_prefix_miss {b : UInt8} {rest : Bytes} (hf : s.find? (b :: rest) = none) {rule : Rule}
    (hm : rule ∈ s.rules) (hne : rule.pattern ≠ []) : ¬ rule.pattern <+: b :: s.apply rest := by
  intro hp
  cases hpat : rule.pattern with
  | nil => exact hne hpat
  | cons a tail =>
    rw [hpat, List.cons_prefix_cons] at hp
    have htail : tail <+: rest := by
      refine prefix_of_prefix_apply (fun other ho => ?_) hp.2
      simpa [hpat] using (h rule hm other ho).2
    refine find?_eq_none_iff.1 hf rule hm hne ?_
    rw [hpat, List.cons_prefix_cons]
    exact ⟨hp.1, htail⟩

theorem not_infix_apply (buffer : Bytes) {rule : Rule} (hm : rule ∈ s.rules)
    (hne : rule.pattern ≠ []) : ¬ rule.pattern <:+: s.apply buffer := by
  induction buffer using scan_induction s with
  | nil => simpa using hne
  | hit r rest hf ih =>
    have hr := (mem_rules_of_find? hf).1
    rw [apply_hit hf]
    intro hi
    rcases infix_append_cases hi with ⟨z, hz, hsuffix, hp⟩ | hi
    · exact (h rule hm r.1 hr).1
        (beginsIn_of_suffix hsuffix hz (Comparable.of_opens_append hp))
    · exact ih hi
  | miss b rest hf ih =>
    rw [apply_miss hf]
    intro hi
    rcases List.infix_cons_iff.1 hi with hp | hi
    · exact h.not_prefix_miss hf hm hne hp
    · exact ih hi

end Settles

end FontCodec.Substitution
