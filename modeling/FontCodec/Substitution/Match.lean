import FontCodec.Bytes

/-!
# Longest match

A rule replaces a pattern by an output. Of the rules whose pattern opens a window, the one with the
longest pattern is chosen, and of several with that length the first. Empty patterns never match.
-/

namespace FontCodec

/-- One replacement: the pattern is consumed and the output emitted. -/
structure Rule where
  pattern : Bytes
  output : Bytes
  deriving DecidableEq, Repr

/-- A rule together with its place in a list of rules. -/
abbrev NumberedRule := Rule × Nat

section Longest

variable {α : Type}

/-- The length that the next match has to exceed. -/
def bestLength (pattern : α → Bytes) (best : Option α) : Nat :=
  match best with
  | none => 0
  | some item => (pattern item).length

/-- Takes the item over the best one so far if it matches and is longer. -/
def longer (pattern : α → Bytes) (window : Bytes) (best : Option α) (item : α) : Option α :=
  if bestLength pattern best < (pattern item).length ∧ (pattern item).isPrefixOf window then
    some item
  else best

/-- The first item with the longest non-empty pattern that opens the window. -/
def longest? (pattern : α → Bytes) (window : Bytes) (items : List α) : Option α :=
  items.foldl (longer pattern window) none

@[simp] theorem longest?_nil (pattern : α → Bytes) (window : Bytes) :
    longest? pattern window [] = none := rfl

theorem foldl_longer_cases (pattern : α → Bytes) (window : Bytes) (items : List α)
    (best : Option α) :
    items.foldl (longer pattern window) best = best ∨
      ∃ item ∈ items, items.foldl (longer pattern window) best = some item ∧
        0 < (pattern item).length ∧ pattern item <+: window := by
  induction items generalizing best with
  | nil => exact .inl rfl
  | cons item items ih =>
    rw [List.foldl_cons]
    rcases ih (longer pattern window best item) with h | ⟨other, hm, h⟩
    · rw [h, longer]
      split
      · rename_i hc
        exact .inr ⟨item, by simp, rfl, by omega, List.isPrefixOf_iff_prefix.1 hc.2⟩
      · exact .inl rfl
    · exact .inr ⟨other, by simp [hm], h⟩

/-- A chosen item is one of the items, and its pattern is not empty and opens the window. -/
theorem longest?_some {pattern : α → Bytes} {window : Bytes} {items : List α} {item : α}
    (h : longest? pattern window items = some item) :
    item ∈ items ∧ 0 < (pattern item).length ∧ pattern item <+: window := by
  rcases foldl_longer_cases pattern window items none with hn | ⟨other, hm, hs, hp⟩
  · rw [longest?, hn] at h
    cases h
  · rw [longest?, hs] at h
    cases h
    exact ⟨hm, hp⟩

end Longest

/-- The part of a buffer that a match at an offset looks at. A negative offset counts from the end
and stops at the beginning. -/
def windowAt (buffer : Bytes) (offset : Int) : Bytes :=
  if offset < 0 then buffer.drop (buffer.length + offset).toNat
  else buffer.drop offset.toNat

/-- The rule chosen at an offset by going through all rules. -/
def findLongest (rules : List Rule) (buffer : Bytes) (offset : Int) : Option NumberedRule :=
  longest? (fun r => r.1.pattern) (windowAt buffer offset) rules.zipIdx

end FontCodec
