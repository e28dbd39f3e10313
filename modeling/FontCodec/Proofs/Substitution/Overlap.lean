import FontCodec.Bytes

/-!
# Overlapping byte strings

Where a pattern can match depends on how beginnings and ends of byte strings meet. The relations
are decidable, so that tables can be tested for them.
-/

namespace FontCodec

/-- One of the two byte strings opens the other. -/
def Comparable (a b : Bytes) : Prop := a <+: b ∨ b <+: a

theorem comparable_cons_iff {x y : UInt8} {a b : Bytes} :
    Comparable (x :: a) (y :: b) ↔ x = y ∧ Comparable a b := by
  simp only [Comparable, List.cons_prefix_cons]
  grind

def agree : Bytes → Bytes → Bool
  | x :: a, y :: b => x == y && agree a b
  | _, _ => true

theorem agree_iff {a b : Bytes} : agree a b = true ↔ Comparable a b := by
  induction a generalizing b with
  | nil => simp [agree, Comparable]
  | cons x a ih =>
    cases b with
    | nil => simp [agree, Comparable]
    | cons y b => simp only [agree, Bool.and_eq_true, beq_iff_eq, ih, comparable_cons_iff]

instance (a b : Bytes) : Decidable (Comparable a b) := decidable_of_iff _ agree_iff

theorem Comparable.symm {a b : Bytes} (h : Comparable a b) : Comparable b a := Or.symm h

theorem Comparable.of_opens {a b w : Bytes} (ha : a <+: w) (hb : b <+: w) : Comparable a b :=
  List.prefix_or_prefix_of_prefix ha hb

theorem Comparable.of_opens_append {a b w : Bytes} (h : a <+: b ++ w) : Comparable a b :=
  .of_opens h (List.prefix_append b w)

/-- The byte string `b` can begin inside `a`: it is comparable with a non-empty end of `a`. -/
def BeginsIn (b : Bytes) : Bytes → Prop
  | [] => False
  | x :: a => Comparable b (x :: a) ∨ BeginsIn b a

instance decidableBeginsIn (b : Bytes) : (a : Bytes) → Decidable (BeginsIn b a)
  | [] => inferInstanceAs (Decidable False)
  | x :: a =>
    have := decidableBeginsIn b a
    inferInstanceAs (Decidable (Comparable b (x :: a) ∨ BeginsIn b a))

theorem beginsIn_of_suffix {a b z : Bytes} (hz : z <:+ a) (hne : z ≠ []) (h : Comparable b z) :
    BeginsIn b a := by
  induction a with
  | nil => exact absurd (List.suffix_nil.1 hz) hne
  | cons x a ih =>
    rcases List.suffix_cons_iff.1 hz with rfl | hz
    · exact .inl h
    · exact .inr (ih hz)

theorem BeginsIn.of_suffix {a b z : Bytes} (hz : z <:+ a) (h : BeginsIn b z) : BeginsIn b a := by
  induction a with
  | nil => exact List.suffix_nil.1 hz ▸ h
  | cons x a ih =>
    rcases List.suffix_cons_iff.1 hz with rfl | hz
    · exact h
    · exact .inr (ih hz)

/-- What opens two byte strings in a row opens the first one or runs into the second one. -/
theorem prefix_append_cases {t a b : Bytes} (h : t <+: a ++ b) :
    t <+: a ∨ ∃ u, t = a ++ u ∧ u <+: b := by
  rcases List.prefix_or_prefix_of_prefix h (List.prefix_append a b) with ha | ⟨u, rfl⟩
  · exact .inl ha
  · exact .inr ⟨u, rfl, (List.prefix_append_right_inj a).1 h⟩

/-- What stands in two byte strings in a row begins in the first one or stands in the second one. -/
theorem infix_append_cases {r a b : Bytes} (h : r <:+: a ++ b) :
    (∃ z, z ≠ [] ∧ z <:+ a ∧ r <+: z ++ b) ∨ r <:+: b := by
  induction a with
  | nil => exact .inr h
  | cons x a ih =>
    rcases List.infix_cons_iff.1 h with hp | hi
    · exact .inl ⟨x :: a, List.cons_ne_nil x a, List.suffix_refl _, hp⟩
    · rcases ih hi with ⟨z, hne, hz, hp⟩ | hb
      · exact .inl ⟨z, hne, hz.trans (List.suffix_cons x a), hp⟩
      · exact .inr hb

end FontCodec
