import FontCodec.Jamo.Collector
import FontCodec.Proofs.Jamo.Packed
import Mathlib.Data.List.DropRight

/-!
# What a collector reports

However a collector has been used, its reports are about the numbers recorded since it was last emptied,
without regard to their order and repetition.
-/

namespace FontCodec.Jamo

namespace Collector

inductive Operation where
  | record (sequence : Int)
  /-- Records the sequences of a payload while it is tagged. -/
  | tag (payload : Bytes)
  | clear
  | flush

namespace Operation

def values : Operation → List Int
  | record sequence => [sequence]
  | tag payload => Jamo.sequences payload
  | clear | flush => []

def empties : Operation → Bool
  | record _ | tag _ => false
  | clear | flush => true

end Operation

def after (c : Collector) : Operation → Collector × List String
  | .record sequence => (c.record sequence, [])
  | .tag payload => (c.recordPayload payload, [])
  | .clear => (empty, [])
  | .flush => (c.flush.2, c.flush.1)

def run (operations : List Operation) : Collector × List String :=
  operations.foldl (fun state o => ((state.1.after o).1, state.2 ++ (state.1.after o).2)) (empty, [])

/-- The numbers recorded since the last operation that empties the collector. -/
def recorded (operations : List Operation) : List Int :=
  (operations.rtakeWhile fun o => !o.empties).flatMap Operation.values

def OccursAt (values : List Int) (i : Nat) (key : Int) : Prop :=
  ∃ n ∈ values, (unpack n)[i]? = some key

/-- The reports of a collector say exactly what was recorded. -/
structure Reports (c : Collector) (values : List Int) : Prop where
  length_byPosition : c.byPosition.length = 4
  mem_byPosition : ∀ i, ∀ keys ∈ c.byPosition[i]?, ∀ key, key ∈ keys ↔ OccursAt values i key
  ascending : ∀ keys ∈ c.byPosition, keys.elements.Pairwise (· < ·)
  mem_allJamo : ∀ key position, (key, position) ∈ c.allJamo ↔
    ∃ i, position = i + 1 ∧ OccursAt values i key ∧ ∀ j < i, ¬ OccursAt values j key
  allJamo_ascending : c.allJamo.Pairwise fun a b => a.1 < b.1
  report_eq_nil : c.report = [] ↔ values = []

section Recording

theorem run_append_singleton (operations : List Operation) (o : Operation) :
    run (operations ++ [o]) =
      (((run operations).1.after o).1, (run operations).2 ++ ((run operations).1.after o).2) := by
  rw [run, List.foldl_append]
  rfl

theorem mem_after_of_keeps {c : Collector} {o : Operation} (h : o.empties = false) (n : Int) :
    n ∈ (c.after o).1.sequences ↔ n ∈ c.sequences ∨ n ∈ o.values := by
  cases o with
  | record sequence => simp [after, record, Operation.values, or_comm]
  | tag payload => simp [after, recordPayload, Operation.values]
  | clear => cases h
  | flush => cases h

theorem after_of_empties {c : Collector} {o : Operation} (h : o.empties = true) :
    (c.after o).1 = empty := by
  cases o with
  | record sequence => cases h
  | tag payload => cases h
  | clear => rfl
  | flush => rfl

theorem mem_run (operations : List Operation) (n : Int) :
    n ∈ (run operations).1.sequences ↔ n ∈ recorded operations := by
  -- the last operation decides whether the ones before it still count
  induction operations using List.reverseRecOn with
  | nil => simp [run, recorded, empty]
  | append_singleton operations o ih =>
    rw [run_append_singleton, recorded]
    cases ho : o.empties with
    | true =>
      rw [List.rtakeWhile_concat_neg _ _ _ (by simp [ho]), after_of_empties ho]
      simp [empty]
    | false =>
      rw [List.rtakeWhile_concat_pos _ _ _ (by simp [ho]), mem_after_of_keeps ho, ih,
        List.flatMap_append, List.mem_append, List.flatMap_singleton]
      rfl

end Recording

section Reporting

variable {c : Collector} {values : List Int}

theorem OccursAt.lt_positions {i : Nat} {key : Int} (h : OccursAt values i key) : i < positions := by
  obtain ⟨n, -, hn⟩ := h
  obtain ⟨hi, -⟩ := List.getElem?_eq_some_iff.1 hn
  exact hi.trans_le (lowestGroups_unpackFrom positions n).length_le

theorem mem_keysAt (h : ∀ n, n ∈ c.sequences ↔ n ∈ values) (i : Nat) (key : Int) :
    key ∈ c.keysAt i ↔ OccursAt values i key := by
  simp only [keysAt, IntSet.mem_ofList, List.mem_filterMap, IntSet.mem_elements, h, OccursAt]

theorem mem_flatMap_byPosition (key : Int) :
    key ∈ c.byPosition.flatMap IntSet.elements ↔ ∃ i < positions, key ∈ c.keysAt i := by
  simp [byPosition, IntSet.mem_elements]

/-- The number of the first position is found for every key that is listed. -/
theorem findIdx_byPosition_eq_iff (key : Int) {i : Nat} (hi : i < positions) :
    c.byPosition.findIdx (fun keys => key ∈ keys) = i ↔
      key ∈ c.keysAt i ∧ ∀ j < i, key ∉ c.keysAt j := by
  rw [List.findIdx_eq (by simpa [byPosition] using hi)]
  simp [byPosition]

theorem mem_allJamo (h : ∀ n, n ∈ c.sequences ↔ n ∈ values) (key : Int) (position : Nat) :
    (key, position) ∈ c.allJamo ↔
      ∃ i, position = i + 1 ∧ OccursAt values i key ∧ ∀ j < i, ¬ OccursAt values j key := by
  have hlisted : (key, position) ∈ c.allJamo ↔
      (∃ i < positions, key ∈ c.keysAt i) ∧
        c.byPosition.findIdx (fun keys => key ∈ keys) + 1 = position := by
    simp only [allJamo, List.mem_map, IntSet.mem_elements, IntSet.mem_ofList,
      mem_flatMap_byPosition, Prod.mk.injEq]
    grind
  simp only [hlisted, ← mem_keysAt h]
  constructor
  · rintro ⟨⟨i, hi, hkey⟩, rfl⟩
    have hfound : c.byPosition.findIdx (fun keys => key ∈ keys) < positions := by
      have hmem : c.keysAt i ∈ c.byPosition := List.mem_map_of_mem (List.mem_range.2 hi)
      simpa [byPosition] using List.findIdx_lt_length_of_exists
        ⟨c.keysAt i, hmem, decide_eq_true hkey⟩
    exact ⟨_, rfl, (findIdx_byPosition_eq_iff key hfound).1 rfl⟩
  · rintro ⟨i, rfl, hkey, hfirst⟩
    have hi : i < positions := ((mem_keysAt h i key).1 hkey).lt_positions
    exact ⟨⟨i, hi, hkey⟩, congrArg (· + 1) ((findIdx_byPosition_eq_iff key hi).2 ⟨hkey, hfirst⟩)⟩

theorem report_eq_nil_iff (h : ∀ n, n ∈ c.sequences ↔ n ∈ values) : c.report = [] ↔ values = [] := by
  have hempty : c.sequences.isEmpty = true ↔ values = [] := by
    rw [IntSet.isEmpty, List.isEmpty_iff, List.eq_nil_iff_forall_not_mem,
      List.eq_nil_iff_forall_not_mem]
    exact forall_congr' fun n => not_congr (h n)
  rw [← hempty, report]
  split <;> simp_all

/-- What a collector reports is determined by the numbers that it holds. -/
theorem reports_of_mem_iff (h : ∀ n, n ∈ c.sequences ↔ n ∈ values) : c.Reports values where
  length_byPosition := by simp [byPosition, positions]
  mem_byPosition i keys hkeys key := by
    obtain ⟨hi, rfl⟩ := List.getElem?_eq_some_iff.1 hkeys
    simpa [byPosition] using mem_keysAt h i key
  ascending keys _ := keys.ascending
  mem_allJamo := mem_allJamo h
  allJamo_ascending := List.pairwise_map.2 (IntSet.ascending _)
  report_eq_nil := report_eq_nil_iff h

theorem eq_of_mem_iff {d : Collector} (h : ∀ n, n ∈ c.sequences ↔ n ∈ d.sequences) : c = d := by
  cases c
  cases d
  rw [mk.injEq]
  exact IntSet.ext h

end Reporting

/-- After any operations on a new collector its reports are exact for the numbers recorded since it was
last emptied, and they are the same after other operations that leave the same numbers. Handing out the
report empties the collector. -/
theorem reports_run (operations : List Operation) :
    (run operations).1.Reports (recorded operations) ∧
      (∀ others, (∀ n, n ∈ recorded others ↔ n ∈ recorded operations) →
        (run others).1.byPosition = (run operations).1.byPosition ∧
          (run others).1.allJamo = (run operations).1.allJamo ∧
          (run others).1.report = (run operations).1.report) ∧
      run (operations ++ [.flush]) = (empty, (run operations).2 ++ (run operations).1.report) := by
  refine ⟨reports_of_mem_iff (mem_run operations), fun others hsame => ?_, ?_⟩
  · have heq : (run others).1 = (run operations).1 := by
      refine eq_of_mem_iff fun n => ?_
      rw [mem_run, mem_run, hsame]
    rw [heq]
    exact ⟨rfl, rfl, rfl⟩
  · exact run_append_singleton operations .flush

/-- The sequence of a span, one recorded by hand, and the same ones again in another order. -/
theorem reports_run_reordered :
    (run [.record 5, .flush, .tag [0x10, 0x02, 0x06, 0x05, 0x07], .record (-1)]).1.report =
      (run [.record (-1), .tag [0x10, 0x02, 0x06, 0x05, 0x07], .record (-1)]).1.report := by
  have hsame : ∀ n,
      n ∈ recorded [.record 5, .flush, .tag [0x10, 0x02, 0x06, 0x05, 0x07], .record (-1)] ↔
        n ∈ recorded [.record (-1), .tag [0x10, 0x02, 0x06, 0x05, 0x07], .record (-1)] := by
    have hleft : recorded [.record 5, .flush, .tag [0x10, 0x02, 0x06, 0x05, 0x07], .record (-1)] =
        [0x1070306, -1] := by decide
    have hright : recorded [.record (-1), .tag [0x10, 0x02, 0x06, 0x05, 0x07], .record (-1)] =
        [-1, 0x1070306, -1] := by decide
    rw [hleft, hright]
    grind
  exact ((reports_run [.record (-1), .tag [0x10, 0x02, 0x06, 0x05, 0x07], .record (-1)]).2.1
    [.record 5, .flush, .tag [0x10, 0x02, 0x06, 0x05, 0x07], .record (-1)] hsame).2.2

end Collector

end FontCodec.Jamo
