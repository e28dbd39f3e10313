import FontCodec.Proofs.Substitution.Scan

/-!
# The rule that is chosen

Going through the rules of one first byte gives the rule that going through all of them gives. At an
offset inside the buffer it is the first of the rules with the longest pattern that matches there.
-/

namespace FontCodec

section FirstGreatest

variable {α β : Type} [LinearOrder β] {p : α → Prop} {rank : α → β} {items : List α} {place j : Nat}
  {item other last : α}

/-- The item at the place has the property, and of the items that have it none is of a greater rank and
none of the same rank stands further in front. -/
structure FirstGreatest (p : α → Prop) (rank : α → β) (items : List α) (place : Nat) (item : α) :
    Prop where
  at_place : items[place]? = some item
  holds : p item
  greatest : ∀ other ∈ items, p other → rank other ≤ rank item
  first : ∀ (j : Nat) (other : α), items[j]? = some other → p other → rank other = rank item →
    place ≤ j

theorem FirstGreatest.unique (h : FirstGreatest p rank items place item)
    (h' : FirstGreatest p rank items j other) : other = item := by
  have hrank : rank other = rank item :=
    le_antisymm (h.greatest other (List.mem_of_getElem? h'.at_place) h'.holds)
      (h'.greatest item (List.mem_of_getElem? h.at_place) h.holds)
  have hplace : place = j :=
    le_antisymm (h.first j other h'.at_place h'.holds hrank)
      (h'.first place item h.at_place h.holds hrank.symm)
  have := h.at_place
  rw [hplace, h'.at_place] at this
  exact Option.some.inj this

/-- Only the order of the ranks matters. -/
theorem FirstGreatest.of_le_iff {γ : Type} [LinearOrder γ] {rank' : α → γ}
    (h : FirstGreatest p rank items place item)
    (hrank : ∀ a b, rank a ≤ rank b ↔ rank' a ≤ rank' b) :
    FirstGreatest p rank' items place item := by
  refine ⟨h.at_place, h.holds, fun other ho hp => (hrank _ _).1 (h.greatest other ho hp),
    fun j other ho hp heq => h.first j other ho hp ?_⟩
  exact le_antisymm ((hrank _ _).2 heq.le) ((hrank _ _).2 heq.ge)

theorem FirstGreatest.append_singleton (h : FirstGreatest p rank items place item)
    (hlast : p last → rank last ≤ rank item) :
    FirstGreatest p rank (items ++ [last]) place item := by
  have hplace : place < items.length := List.getElem?_eq_some_iff.1 h.at_place |>.1
  refine ⟨?_, h.holds, fun other ho hp => ?_, fun j other ho hp hrank => ?_⟩
  · rw [List.getElem?_append_left hplace, h.at_place]
  · rcases List.mem_append.1 ho with ho | ho
    · exact h.greatest other ho hp
    · rw [List.mem_singleton] at ho
      exact ho ▸ hlast (ho ▸ hp)
  · by_cases hj : j < items.length
    · rw [List.getElem?_append_left hj] at ho
      exact h.first j other ho hp hrank
    · omega

theorem firstGreatest_last (hp : p last) (h : ∀ other ∈ items, p other → rank other < rank last) :
    FirstGreatest p rank (items ++ [last]) items.length last := by
  refine ⟨by simp, hp, fun other ho hother => ?_, fun j other ho hother hrank => ?_⟩
  · rcases List.mem_append.1 ho with ho | ho
    · exact (h other ho hother).le
    · rw [List.mem_singleton.1 ho]
  · by_contra hj
    rw [List.getElem?_append_left (by omega)] at ho
    exact (h other (List.mem_of_getElem? ho) hother).ne hrank

theorem exists_firstGreatest_of_argmax [DecidablePred p]
    (h : (items.filter fun a => p a).argmax rank = some item) :
    ∃ place, FirstGreatest p rank items place item := by
  induction items using List.reverseRecOn generalizing item with
  | nil => simp at h
  | append_singleton items last ih =>
    rw [List.filter_append] at h
    by_cases hp : p last
    · rw [List.filter_singleton, decide_eq_true hp, cond_true, List.argmax_concat] at h
      cases hbest : (items.filter fun a => p a).argmax rank with
      | none =>
        have hnone : ∀ other ∈ items, ¬ p other := by simpa using hbest
        obtain rfl : last = item := by simpa [hbest] using h
        exact ⟨_, firstGreatest_last hp fun other ho hother => absurd hother (hnone other ho)⟩
      | some best =>
        obtain ⟨place, hplace⟩ := ih hbest
        simp only [hbest] at h
        split at h
        · rename_i hlt
          obtain rfl := Option.some.inj h
          exact ⟨_, firstGreatest_last hp fun other ho hother =>
            (hplace.greatest other ho hother).trans_lt hlt⟩
        · rename_i hlt
          obtain rfl := Option.some.inj h
          exact ⟨place, hplace.append_singleton fun _ => not_lt.1 hlt⟩
    · rw [List.filter_singleton, decide_eq_false hp, cond_false, List.append_nil] at h
      obtain ⟨place, hplace⟩ := ih h
      exact ⟨place, hplace.append_singleton fun hlast => absurd hlast hp⟩

theorem argmax_filter_eq_some_iff [DecidablePred p] :
    (items.filter fun a => p a).argmax rank = some item ↔
      ∃ place, FirstGreatest p rank items place item := by
  refine ⟨exists_firstGreatest_of_argmax, fun ⟨place, h⟩ => ?_⟩
  cases hbest : (items.filter fun a => p a).argmax rank with
  | none =>
    have hnone : ∀ other ∈ items, ¬ p other := by simpa using hbest
    exact absurd h.holds (hnone item (List.mem_of_getElem? h.at_place))
  | some best =>
    obtain ⟨j, hj⟩ := exists_firstGreatest_of_argmax hbest
    rw [h.unique hj]

/-- Among numbered items the first one of the greatest rank carries its own place. -/
theorem firstGreatest_zipIdx_iff (p : α → Prop) (rank : α → β) (items : List α) (place : Nat)
    (n : α × Nat) :
    FirstGreatest (fun n : α × Nat => p n.1) (fun n => rank n.1) items.zipIdx place n ↔
      FirstGreatest p rank items place n.1 ∧ n.2 = place := by
  have hat : ∀ (i : Nat) (m : α × Nat),
      items.zipIdx[i]? = some m ↔ items[i]? = some m.1 ∧ m.2 = i := by
    intro i m
    cases hi : items[i]? <;> simp [List.getElem?_zipIdx, hi, Prod.ext_iff, eq_comm]
  refine ⟨fun h => ?_, fun ⟨h, hn⟩ => ?_⟩
  · obtain ⟨hplace, hn⟩ := (hat place n).1 h.at_place
    refine ⟨⟨hplace, h.holds, fun other ho hp => ?_, fun j other ho hp hrank => ?_⟩, hn⟩
    · obtain ⟨j, hj⟩ := List.mem_iff_getElem?.1 ho
      exact h.greatest (other, j) (List.mem_of_getElem? ((hat j (other, j)).2 ⟨hj, rfl⟩)) hp
    · exact h.first j (other, j) ((hat j (other, j)).2 ⟨ho, rfl⟩) hp hrank
  · refine ⟨(hat place n).2 ⟨h.at_place, hn⟩, h.holds, fun m hm hp => ?_, fun j m hm hp hrank => ?_⟩
    · exact h.greatest m.1 (List.fst_mem_of_mem_zipIdx hm) hp
    · exact h.first j m.1 ((hat j m).1 hm).1 hp hrank

end FirstGreatest

/-- A pattern matches at the front of the window. An empty one matches nowhere. -/
def Opens (window pattern : Bytes) : Prop := pattern ≠ [] ∧ pattern <+: window

instance (window pattern : Bytes) : Decidable (Opens window pattern) :=
  inferInstanceAs (Decidable (pattern ≠ [] ∧ pattern <+: window))

theorem longest?_eq_some_iff {α : Type} {pattern : α → Bytes} {window : Bytes} {items : List α}
    {item : α} :
    longest? pattern window items = some item ↔ ∃ place,
      FirstGreatest (fun a => Opens window (pattern a)) (fun a => (pattern a).length) items place
        item := by
  rw [longest?_eq_argmax, ← argmax_filter_eq_some_iff]
  rfl

theorem windowAt_of_nonneg {buffer : Bytes} {offset : Int} (h : 0 ≤ offset) :
    windowAt buffer offset = buffer.drop offset.toNat := if_neg (by omega)

theorem findLongest_eq_some_iff {rules : List Rule} {buffer : Bytes} {offset : Int} {rule : Rule}
    {i : Nat} :
    findLongest rules buffer offset = some (rule, i) ↔
      FirstGreatest (fun rule => Opens (windowAt buffer offset) rule.pattern)
        (fun rule => rule.pattern.length) rules i rule := by
  rw [findLongest, longest?_eq_some_iff]
  simp only [firstGreatest_zipIdx_iff (fun rule : Rule => Opens (windowAt buffer offset) rule.pattern)
    (fun rule => rule.pattern.length), exists_eq_right']

namespace Substitution

theorem find?_windowAt (rules : List Rule) (buffer : Bytes) (offset : Int) :
    (ofRules rules).find? (windowAt buffer offset) = findLongest rules buffer offset :=
  find?_eq_longest? _ _

/-- The index by first byte never changes which rule is chosen at an offset. Where the offset is not
counted from the end, no rule is chosen exactly if none matches, and otherwise the first of those with the
longest matching pattern. -/
theorem findAt_eq_ok_findLongest (rules : List Rule) (buffer : Bytes) (offset : Int)
    (hoffset : -buffer.length ≤ offset) :
    (ofRules rules).findAt buffer offset = .ok (findLongest rules buffer offset) ∧
      (0 ≤ offset →
        (findLongest rules buffer offset = none ↔
          ∀ rule ∈ rules, ¬ Opens (buffer.drop offset.toNat) rule.pattern) ∧
        ∀ rule i, findLongest rules buffer offset = some (rule, i) ↔
          FirstGreatest (fun rule => Opens (buffer.drop offset.toNat) rule.pattern)
            (fun rule => rule.pattern.length) rules i rule) := by
  have hfind := find?_windowAt rules buffer offset
  refine ⟨?_, fun hpos => ⟨?_, fun rule i => ?_⟩⟩
  · rw [findAt, if_neg (by omega), hfind]
  · simp [← hfind, find?_eq_none_iff, windowAt_of_nonneg hpos, ofRules, Opens]
  · rw [findLongest_eq_some_iff, windowAt_of_nonneg hpos]

/-- An empty pattern, a short one, and a longer one twice. -/
def doubled : List Rule :=
  [⟨[], [1]⟩, ⟨[0x61], [2]⟩, ⟨[0x61, 0x62], [3]⟩, ⟨[0x61, 0x62], [4]⟩]

theorem findAt_doubled :
    (-3 ≤ (-2 : Int) ∧
      (ofRules doubled).findAt [0x78, 0x61, 0x62] (-2) = .ok (some (⟨[0x61, 0x62], [3]⟩, 2))) ∧
    (-3 ≤ (1 : Int) ∧ 0 ≤ (1 : Int) ∧
      FirstGreatest (fun rule => Opens [0x61, 0x62] rule.pattern) (fun rule => rule.pattern.length)
        doubled 2 ⟨[0x61, 0x62], [3]⟩) := by
  have hback := findAt_eq_ok_findLongest doubled [0x78, 0x61, 0x62] (-2) (by decide)
  have hfront := findAt_eq_ok_findLongest doubled [0x78, 0x61, 0x62] 1 (by decide)
  refine ⟨⟨by decide, hback.1.trans (by decide)⟩, by decide, by decide, ?_⟩
  exact ((hfront.2 (by decide)).2 _ _).1 (by decide)

end Substitution

end FontCodec
