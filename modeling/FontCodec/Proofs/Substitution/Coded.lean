import FontCodec.Proofs.Substitution.Scan

/-!
# Scanning coded symbols

A buffer often spells symbols of another kind, such as characters. If every match of a table covers
whole symbols, then a scan of the buffer goes from symbol to symbol.
-/

namespace FontCodec.Substitution

variable {σ : Type} {s : Substitution} {code : σ → Bytes} {good whole : σ → Prop}

/-- A pattern that opens coded symbols is the code of the first ones, and only of those that it can
spell. -/
def Respects (s : Substitution) (code : σ → Bytes) (good whole : σ → Prop) : Prop :=
  ∀ rule ∈ s.rules, ∀ xs : List σ, (∀ x ∈ xs, good x) → rule.pattern <+: xs.flatMap code →
    ∃ p rest, xs = p ++ rest ∧ rule.pattern = p.flatMap code ∧ ∀ x ∈ p, whole x

theorem Respects.mono {good' : σ → Prop} (h : s.Respects code good whole)
    (hgood : ∀ x, good' x → good x) : s.Respects code good' whole :=
  fun rule hm xs hxs hp => h rule hm xs (fun x hx => hgood x (hxs x hx)) hp

/-- Induction along a scan of coded symbols. -/
@[elab_as_elim]
theorem coded_induction (h : s.Respects code good whole) {motive : List σ → Prop} (nil : motive [])
    (hit : ∀ r p rest, (∀ x ∈ p, good x ∧ whole x) → (∀ x ∈ rest, good x) →
      r.1.pattern = p.flatMap code → s.find? (r.1.pattern ++ rest.flatMap code) = some r →
      motive rest → motive (p ++ rest))
    (miss : ∀ x rest, good x → (∀ y ∈ rest, good y) →
      s.find? (code x ++ rest.flatMap code) = none → motive rest → motive (x :: rest))
    (xs : List σ) (hxs : ∀ x ∈ xs, good x) : motive xs := by
  match xs with
  | [] => exact nil
  | x :: rest =>
    have hrest : ∀ y ∈ rest, good y := fun y hy => hxs y (by simp [hy])
    cases hf : s.find? ((x :: rest).flatMap code) with
    | none =>
      exact miss x rest (hxs x (by simp)) hrest hf (coded_induction h nil hit miss rest hrest)
    | some r =>
      obtain ⟨hm, hne, hp⟩ := mem_rules_of_find? hf
      obtain ⟨p, tail, ht, hcode, hwhole⟩ := h r.1 hm (x :: rest) hxs hp
      have hlen : tail.length < (x :: rest).length := by
        have hpne : p ≠ [] := by
          rintro rfl
          exact hne hcode
        have := List.length_pos_iff.2 hpne
        rw [ht, List.length_append]
        omega
      have hp : ∀ y ∈ p, good y ∧ whole y := fun y hy => ⟨hxs y (by simp [ht, hy]), hwhole y hy⟩
      have htail : ∀ y ∈ tail, good y := fun y hy => hxs y (by simp [ht, hy])
      rw [ht, List.flatMap_append, ← hcode] at hf
      rw [ht]
      exact hit r p tail hp htail hcode hf (coded_induction h nil hit miss tail htail)
termination_by xs.length
decreasing_by
  · exact Nat.lt_add_one rest.length
  · exact hlen

end FontCodec.Substitution
