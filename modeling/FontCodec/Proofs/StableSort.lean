import FontCodec.Glyph
import Mathlib.Data.List.Sort
import Mathlib.Order.RelClasses

/-!
# Sorting keeps the order of equal keys

The converter runs without the library, so it spells out the sort of its entries. It is the library's
insertion sort all the same: it only moves items, and moves none past another one of its key.
-/

namespace FontCodec

variable {α : Type} {key : α → Nat} {item : α} {items : List α}

theorem sortDescending_eq_insertionSort (key : α → Nat) (items : List α) :
    sortDescending key items = items.insertionSort (Order.Preimage key (· ≥ ·)) := by
  induction items with
  | nil => rfl
  | cons item rest ih =>
    rw [List.insertionSort_cons_eq_take_drop, ← ih]
    simp [sortDescending, Order.Preimage]

/-- The items in descending order, those of one key in the order they had. -/
structure StablySorted (key : α → Nat) (before after : List α) : Prop where
  perm : after.Perm before
  descending : after.Pairwise fun a b => key b ≤ key a
  stable : ∀ k, after.filter (key · = k) = before.filter (key · = k)

theorem stablySorted_sortDescending : StablySorted key items (sortDescending key items) := by
  rw [sortDescending_eq_insertionSort]
  have hperm := List.perm_insertionSort (Order.Preimage key (· ≥ ·)) items
  refine ⟨hperm, List.pairwise_insertionSort _ items, fun k => ?_⟩
  have hone : (items.filter (key · = k)).Pairwise (Order.Preimage key (· ≥ ·)) := by
    refine List.pairwise_of_forall_mem_list fun a ha b hb => ?_
    have hka : key a = k := by simpa using List.of_mem_filter ha
    have hkb : key b = k := by simpa using List.of_mem_filter hb
    exact (hkb.trans hka.symm).le
  have hsublist := (List.sublist_insertionSort hone List.filter_sublist).filter (key · = k)
  rw [List.filter_filter] at hsublist
  simp only [Bool.and_self] at hsublist
  exact (hsublist.eq_of_length (hperm.filter _).length_eq.symm).symm

@[simp] theorem mem_sortDescending : item ∈ sortDescending key items ↔ item ∈ items :=
  stablySorted_sortDescending.perm.mem_iff

end FontCodec
