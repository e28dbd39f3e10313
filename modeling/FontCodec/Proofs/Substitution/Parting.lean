import FontCodec.Proofs.Substitution.Overlap
import Mathlib.Data.List.Chain
import Mathlib.Data.List.Pairwise
import Mathlib.Data.List.Sort

/-!
# Words that part

Two words part if they differ at some byte, so that neither opens the other. Parting upwards is
transitive, so a sorted list of words needs to be looked at only once to see that all of them part.
-/

namespace FontCodec

/-- The words differ at some byte, and at the first such byte the first word is smaller. -/
def Below : Bytes → Bytes → Prop
  | x :: a, y :: b => x < y ∨ x = y ∧ Below a b
  | _, _ => False

instance decidableBelow : (a b : Bytes) → Decidable (Below a b)
  | [], _ => inferInstanceAs (Decidable False)
  | _ :: _, [] => inferInstanceAs (Decidable False)
  | x :: a, y :: b =>
    have := decidableBelow a b
    inferInstanceAs (Decidable (x < y ∨ x = y ∧ Below a b))

theorem Below.trans {a b c : Bytes} (hab : Below a b) (hbc : Below b c) : Below a c := by
  induction a generalizing b c with
  | nil => exact hab.elim
  | cons x a ih =>
    match b, c, hab, hbc with
    | y :: b, z :: c, hab, hbc =>
      rcases hab with hxy | ⟨rfl, hab⟩ <;> rcases hbc with hyz | ⟨rfl, hbc⟩
      · exact .inl (UInt8.lt_trans hxy hyz)
      · exact .inl hxy
      · exact .inl hyz
      · exact .inr ⟨rfl, ih hab hbc⟩

instance : Trans Below Below Below := ⟨Below.trans⟩

theorem Below.not_prefix {a b : Bytes} (h : Below a b) : ¬ a <+: b ∧ ¬ b <+: a := by
  induction a generalizing b with
  | nil => exact h.elim
  | cons x a ih =>
    match b, h with
    | y :: b, h =>
      rw [List.cons_prefix_cons, List.cons_prefix_cons]
      rcases h with hxy | ⟨rfl, hab⟩
      · have hne : x ≠ y := UInt8.ne_of_lt hxy
        exact ⟨fun hp => hne hp.1, fun hp => hne hp.1.symm⟩
      · exact ⟨fun hp => (ih hab).1 hp.2, fun hp => (ih hab).2 hp.2⟩

/-- A number for the first bytes of a word that is the greater the smaller these bytes are. -/
def rank : Nat → Bytes → Nat
  | width + 1, b :: word => 256 ^ width * (255 - b.toNat) + rank width word
  | _, _ => 0

def sortWords (width : Nat) (words : List Bytes) : List Bytes :=
  words.insertionSort (Order.Preimage (rank width) (· ≥ ·))

/-- If sorted words part from their neighbours, every word parts from every other one. -/
theorem pairwise_of_isChain_sortWords {width : Nat} {words : List Bytes}
    (h : (sortWords width words).IsChain Below) :
    words.Pairwise fun a b => ¬ Comparable a b := by
  have hsorted : (sortWords width words).Pairwise fun a b => ¬ Comparable a b :=
    (List.isChain_iff_pairwise.1 h).imp fun hbelow hc => hc.elim hbelow.not_prefix.1 hbelow.not_prefix.2
  exact ((List.perm_insertionSort _ words).pairwise_iff fun hn hc => hn hc.symm).1 hsorted

theorem eq_of_comparable {α : Type} {word : α → Bytes} {items : List α}
    (h : items.Pairwise fun a b => ¬ Comparable (word a) (word b)) {a b : α} (ha : a ∈ items)
    (hb : b ∈ items) (hab : Comparable (word a) (word b)) : b = a := by
  by_contra hne
  have hsymm : Std.Symm fun a b : α => ¬ Comparable (word a) (word b) :=
    ⟨fun _ _ hn hc => hn hc.symm⟩
  exact h.forall ha hb (Ne.symm hne) hab

/-- A word that begins with one of the heads in the byte string, or behind its beginning, is none of
the patterns as far as both go. -/
def Avoids (heads : UInt8 → Bool) (patterns : List Bytes) : Bytes → Prop
  | [] => True
  | x :: a => (heads x = false ∨ ∀ b ∈ patterns, ¬ Comparable b (x :: a)) ∧ Avoids heads patterns a

instance decidableAvoids (heads : UInt8 → Bool) (patterns : List Bytes) :
    (a : Bytes) → Decidable (Avoids heads patterns a)
  | [] => inferInstanceAs (Decidable True)
  | x :: a =>
    have := decidableAvoids heads patterns a
    inferInstanceAs (Decidable
      ((heads x = false ∨ ∀ b ∈ patterns, ¬ Comparable b (x :: a)) ∧ Avoids heads patterns a))

theorem Avoids.of_forall {heads : UInt8 → Bool} {patterns : List Bytes} {a : Bytes}
    (h : ∀ x ∈ a, heads x = false) : Avoids heads patterns a := by
  induction a with
  | nil => trivial
  | cons x a ih => exact ⟨.inl (h x (by simp)), ih fun y hy => h y (by simp [hy])⟩

/-- Patterns that begin with a head begin nowhere in a byte string that avoids them. -/
theorem Avoids.not_beginsIn {heads : UInt8 → Bool} {patterns : List Bytes} {a b : Bytes}
    (h : Avoids heads patterns a) (hb : b ∈ patterns) (hhead : ∃ x ∈ b.head?, heads x) :
    ¬ BeginsIn b a := by
  induction a with
  | nil => exact id
  | cons x a ih =>
    rintro (hc | hr)
    · rcases h.1 with hx | hall
      · obtain ⟨y, hy, hyheads⟩ := hhead
        cases b with
        | nil => simp at hy
        | cons z b =>
          obtain rfl : z = y := by simpa using hy
          rw [← (comparable_cons_iff.1 hc).1, hyheads] at hx
          cases hx
      · exact hall b hb hc
    · exact ih h.2 hr

end FontCodec
