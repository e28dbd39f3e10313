import FontCodec.Proofs.Substitution.Choice

/-!
# How a scan cuts a buffer

There is exactly one way to cut a buffer into the patterns chosen where they begin and single bytes where
nothing is chosen. A scan takes one turn for each of these segments and emits what belongs to it.
-/

namespace FontCodec

/-- The segment is the pattern of the rule that going through all rules gives at the offset, or one byte
where it gives none. -/
def SelectedAt (rules : List Rule) (buffer : Bytes) (offset : Nat) (segment : Bytes) : Prop :=
  match findLongest rules buffer offset with
  | some (rule, _) => segment = rule.pattern
  | none => ∃ b, segment = [b]

/-- The buffer cut into segments without gap or overlap, each selected where it begins. -/
structure GreedyCut (rules : List Rule) (buffer : Bytes) (cut : List Bytes) : Prop where
  flatten_eq : cut.flatten = buffer
  nonempty : ∀ segment ∈ cut, segment ≠ []
  selected : ∀ before segment after, cut = before ++ segment :: after →
    SelectedAt rules buffer before.flatten.length segment

/-- What stands for a segment that begins at the offset: the output of the rule chosen there, or the
segment itself. -/
def outputAt (rules : List Rule) (buffer : Bytes) (offset : Nat) (segment : Bytes) : Bytes :=
  match findLongest rules buffer offset with
  | some (rule, _) => rule.output
  | none => segment

/-- What stands for segments in a row, the first of which begins at the offset. -/
def outputsFrom (rules : List Rule) (buffer : Bytes) : Nat → List Bytes → Bytes
  | _, [] => []
  | offset, segment :: cut =>
    outputAt rules buffer offset segment ++ outputsFrom rules buffer (offset + segment.length) cut

section Cut

variable {rules : List Rule} {buffer segment rest : Bytes} {cut : List Bytes}

theorem findLongest_append (rules : List Rule) (segment rest : Bytes) (offset : Nat) :
    findLongest rules (segment ++ rest) (segment.length + offset : Nat) =
      findLongest rules rest offset := by
  have hdrop : (segment ++ rest).drop (segment.length + offset) = rest.drop offset := by simp
  rw [findLongest, findLongest, windowAt_of_nonneg (by omega), windowAt_of_nonneg (by omega),
    Int.toNat_natCast, Int.toNat_natCast, hdrop]

theorem findLongest_zero (rules : List Rule) (buffer : Bytes) :
    findLongest rules buffer (0 : Nat) = (Substitution.ofRules rules).find? buffer := by
  rw [← Substitution.find?_windowAt, windowAt_of_nonneg (by omega)]
  rfl

theorem outputsFrom_append (rules : List Rule) (segment rest : Bytes) (offset : Nat)
    (cut : List Bytes) :
    outputsFrom rules (segment ++ rest) (segment.length + offset) cut =
      outputsFrom rules rest offset cut := by
  induction cut generalizing offset with
  | nil => rfl
  | cons next cut ih =>
    rw [outputsFrom, outputsFrom, outputAt, outputAt, findLongest_append, Nat.add_assoc, ih]

theorem outputsFrom_cons (rules : List Rule) (segment rest : Bytes) (cut : List Bytes) :
    outputsFrom rules (segment ++ rest) 0 (segment :: cut) =
      outputAt rules (segment ++ rest) 0 segment ++ outputsFrom rules rest 0 cut := by
  rw [outputsFrom, Nat.zero_add, ← outputsFrom_append rules segment rest 0, Nat.add_zero]

theorem selectedAt_zero_cases (h : SelectedAt rules (segment ++ rest) 0 segment) :
    (∃ r, (Substitution.ofRules rules).find? (segment ++ rest) = some r ∧ segment = r.1.pattern ∧
      outputAt rules (segment ++ rest) 0 segment = r.1.output) ∨
    ∃ b, (Substitution.ofRules rules).find? (segment ++ rest) = none ∧ segment = [b] ∧
      outputAt rules (segment ++ rest) 0 segment = [b] := by
  rw [SelectedAt, findLongest_zero] at h
  cases hf : (Substitution.ofRules rules).find? (segment ++ rest) with
  | none =>
    rw [hf] at h
    obtain ⟨b, hb⟩ := h
    exact .inr ⟨b, rfl, hb, by rw [outputAt, findLongest_zero, hf, hb]⟩
  | some r =>
    rw [hf] at h
    exact .inl ⟨r, rfl, h, by rw [outputAt, findLongest_zero, hf]⟩

theorem greedyCut_nil : GreedyCut rules [] [] := ⟨rfl, by simp, by simp⟩

theorem GreedyCut.eq_nil (h : GreedyCut rules [] cut) : cut = [] := by
  cases cut with
  | nil => rfl
  | cons segment cut =>
    have hempty : segment = [] := (List.append_eq_nil_iff.1 h.flatten_eq).1
    exact absurd hempty (h.nonempty segment (by simp))

/-- The first segment is selected at the front, and the others cut what is left of the buffer. -/
theorem greedyCut_cons_iff :
    GreedyCut rules buffer (segment :: cut) ↔
      segment ≠ [] ∧ ∃ rest, buffer = segment ++ rest ∧
        SelectedAt rules (segment ++ rest) 0 segment ∧ GreedyCut rules rest cut := by
  constructor
  · intro h
    obtain rfl : segment ++ cut.flatten = buffer := h.flatten_eq
    refine ⟨h.nonempty segment (by simp), cut.flatten, rfl, h.selected [] segment cut rfl, rfl,
      fun next hn => h.nonempty next (by simp [hn]), fun before next after hcut => ?_⟩
    have hnext := h.selected (segment :: before) next after (by rw [hcut]; rfl)
    rw [SelectedAt, List.flatten_cons, List.length_append, findLongest_append] at hnext
    exact hnext
  · rintro ⟨hne, rest, rfl, hselected, hrest⟩
    refine ⟨by rw [List.flatten_cons, hrest.flatten_eq], ?_, fun before next after hcut => ?_⟩
    · simpa [hne] using hrest.nonempty
    · cases before with
      | nil =>
        obtain ⟨rfl, -⟩ := List.cons.inj hcut
        exact hselected
      | cons first before =>
        obtain ⟨rfl, htail⟩ := List.cons.inj hcut
        rw [SelectedAt, List.flatten_cons, List.length_append, findLongest_append]
        exact hrest.selected before next after htail

theorem exists_greedyCut (rules : List Rule) (buffer : Bytes) : ∃ cut, GreedyCut rules buffer cut := by
  induction buffer using Substitution.scan_induction (.ofRules rules) with
  | nil => exact ⟨[], greedyCut_nil⟩
  | hit r rest hf ih =>
    obtain ⟨cut, hcut⟩ := ih
    have hne := (Substitution.mem_rules_of_find? hf).2.1
    refine ⟨_, greedyCut_cons_iff.2 ⟨hne, rest, rfl, ?_, hcut⟩⟩
    rw [SelectedAt, findLongest_zero, hf]
  | miss b rest hf ih =>
    obtain ⟨cut, hcut⟩ := ih
    refine ⟨_, greedyCut_cons_iff.2 ⟨List.cons_ne_nil b [], rest, rfl, ?_, hcut⟩⟩
    rw [SelectedAt, findLongest_zero, List.singleton_append, hf]
    exact ⟨b, rfl⟩

theorem SelectedAt.unique {other rest' : Bytes} (h : SelectedAt rules buffer 0 segment)
    (hother : SelectedAt rules buffer 0 other) (hbuffer : buffer = segment ++ rest)
    (hbuffer' : buffer = other ++ rest') : other = segment := by
  unfold SelectedAt at h hother
  cases hf : findLongest rules buffer (0 : Nat) with
  | some r =>
    rw [hf] at h hother
    exact hother.trans h.symm
  | none =>
    rw [hf] at h hother
    obtain ⟨b, rfl⟩ := h
    obtain ⟨c, rfl⟩ := hother
    rw [hbuffer] at hbuffer'
    simpa using (List.cons.inj hbuffer').1.symm

theorem GreedyCut.unique {other : List Bytes} (h : GreedyCut rules buffer cut)
    (hother : GreedyCut rules buffer other) : other = cut := by
  induction cut generalizing buffer other with
  | nil =>
    obtain rfl : [] = buffer := h.flatten_eq
    exact hother.eq_nil
  | cons segment cut ih =>
    obtain ⟨hne, rest, rfl, hselected, hcut⟩ := greedyCut_cons_iff.1 h
    cases other with
    | nil => exact absurd hother.flatten_eq.symm (by simp [hne])
    | cons segment' cut' =>
      obtain ⟨-, rest', hbuffer, hselected', hcut'⟩ := greedyCut_cons_iff.1 hother
      rw [← hbuffer] at hselected'
      obtain rfl := hselected.unique hselected' rfl hbuffer
      obtain rfl : rest = rest' := List.append_cancel_left hbuffer
      rw [ih hcut hcut']

end Cut

/-- How far a scan has come in a buffer, and what it has emitted. -/
structure Progress where
  index : Nat
  output : Bytes
  deriving DecidableEq, Repr

namespace Substitution

variable {s : Substitution} {rules : List Rule} {buffer consumed segment rest output : Bytes}
  {cut : List Bytes}

theorem apply_segment (h : SelectedAt rules (segment ++ rest) 0 segment) :
    (ofRules rules).apply (segment ++ rest) =
      outputAt rules (segment ++ rest) 0 segment ++ (ofRules rules).apply rest := by
  rcases selectedAt_zero_cases h with ⟨r, hf, rfl, hout⟩ | ⟨b, hf, rfl, hout⟩
  · rw [hout, apply_hit hf]
  · rw [hout]
    exact apply_miss hf

theorem apply_eq_outputsFrom (h : GreedyCut rules buffer cut) :
    (ofRules rules).apply buffer = outputsFrom rules buffer 0 cut := by
  induction cut generalizing buffer with
  | nil =>
    obtain rfl : [] = buffer := h.flatten_eq
    rfl
  | cons segment cut ih =>
    obtain ⟨-, rest, rfl, hselected, hcut⟩ := greedyCut_cons_iff.1 h
    rw [apply_segment hselected, ih hcut, outputsFrom_cons]

/-- One turn of a scan; none behind the end of the buffer. -/
def turn (s : Substitution) (buffer : Bytes) (p : Progress) : Option Progress :=
  match buffer.drop p.index with
  | [] => none
  | b :: rest =>
    match s.find? (b :: rest) with
    | some (rule, _) => some ⟨p.index + rule.pattern.length, p.output ++ rule.output⟩
    | none => some ⟨p.index + 1, p.output ++ [b]⟩

/-- So many turns of a scan; none if it ends before. -/
def turns (s : Substitution) (buffer : Bytes) : Nat → Progress → Option Progress
  | 0, p => some p
  | count + 1, p => (s.turn buffer p).bind (s.turns buffer count)

theorem turn_of_find? {p : Progress} {r : NumberedRule} (hrest : buffer.drop p.index = rest)
    (hf : s.find? rest = some r) :
    s.turn buffer p = some ⟨p.index + r.1.pattern.length, p.output ++ r.1.output⟩ := by
  cases rest with
  | nil => simp [find?] at hf
  | cons b rest => simp [turn, hrest, hf]

theorem turn_end : s.turn buffer ⟨buffer.length, output⟩ = none := by
  simp [turn]

/-- A turn goes over the segment selected where it begins. -/
theorem turn_segment (h : SelectedAt rules (segment ++ rest) 0 segment)
    (consumed output : Bytes) :
    (ofRules rules).turn (consumed ++ (segment ++ rest)) ⟨consumed.length, output⟩ =
      some ⟨(consumed ++ segment).length,
        output ++ outputAt rules (segment ++ rest) 0 segment⟩ := by
  rcases selectedAt_zero_cases h with ⟨r, hf, hsegment, hout⟩ | ⟨b, hf, rfl, hout⟩
  · rw [turn_of_find? List.drop_left hf, hout, List.length_append, hsegment]
  · rw [hout, turn, List.drop_left]
    rw [List.singleton_append] at hf ⊢
    simp [hf]

/-- A scan takes one turn for each segment and stops behind the last one. -/
theorem turns_of_greedyCut (h : GreedyCut rules rest cut) (consumed output : Bytes) :
    (∀ count ≤ cut.length, (ofRules rules).turns (consumed ++ rest) count ⟨consumed.length, output⟩ =
      some ⟨consumed.length + (cut.take count).flatten.length,
        output ++ outputsFrom rules rest 0 (cut.take count)⟩) ∧
    (ofRules rules).turns (consumed ++ rest) (cut.length + 1) ⟨consumed.length, output⟩ = none := by
  induction cut generalizing rest consumed output with
  | nil =>
    obtain rfl : [] = rest := h.flatten_eq
    refine ⟨fun count hcount => ?_, ?_⟩
    · obtain rfl : count = 0 := by simpa using hcount
      simp [turns, outputsFrom]
    · simp [turns, turn_end]
  | cons segment cut ih =>
    obtain ⟨-, rest, rfl, hselected, hcut⟩ := greedyCut_cons_iff.1 h
    have hturn := turn_segment hselected consumed output
    obtain ⟨hrun, hstop⟩ := ih hcut (consumed ++ segment)
      (output ++ outputAt rules (segment ++ rest) 0 segment)
    rw [List.append_assoc] at hrun hstop
    refine ⟨fun count hcount => ?_, ?_⟩
    · cases count with
      | zero => simp [turns, outputsFrom]
      | succ count =>
        rw [turns, hturn, Option.bind_some, hrun count (by simpa using hcount),
          List.take_succ_cons, outputsFrom_cons]
        simp [Nat.add_assoc]
    · rw [List.length_cons, turns, hturn, Option.bind_some, hstop]

/-- Every buffer has exactly one greedy cut, and replacing emits what stands for its segments. The scan
takes one turn for each of them, each from where the segment before ends, and comes to the end of the
buffer with the last one. -/
theorem apply_of_only_greedyCut (rules : List Rule) (buffer : Bytes) :
    ∃ cut, GreedyCut rules buffer cut ∧ (∀ other, GreedyCut rules buffer other → other = cut) ∧
      (ofRules rules).apply buffer = outputsFrom rules buffer 0 cut ∧
      (∀ count ≤ cut.length, (ofRules rules).turns buffer count ⟨0, []⟩ =
        some ⟨(cut.take count).flatten.length, outputsFrom rules buffer 0 (cut.take count)⟩) ∧
      (ofRules rules).turns buffer (cut.length + 1) ⟨0, []⟩ = none := by
  obtain ⟨cut, hcut⟩ := exists_greedyCut rules buffer
  have hturns := turns_of_greedyCut hcut [] []
  exact ⟨cut, hcut, fun other => hcut.unique, apply_eq_outputsFrom hcut, by simpa using hturns⟩

end Substitution

end FontCodec
