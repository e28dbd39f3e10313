import FontCodec.Jamo.Collector
import FontCodec.Proofs.Jamo.Grammar

/-!
# What the tagging pass makes of a text

The pass goes from span to span: each one adds what remains of it after tagging, and a span of
components its packed sequence.
-/

namespace FontCodec.Jamo

/-- The sequence after some more components. -/
def packFrom (count sequence : Nat) : List Component → Nat
  | [] => sequence
  | c :: items => packFrom (count + 1) (extend count sequence c) items

theorem packFrom_eq_foldl (count sequence : Nat) (items : List Component) :
    packFrom count sequence items =
      ((items.take (positions - count)).zipIdx count).foldl
        (fun packed c => packed ||| place c.1.key c.2) sequence := by
  induction items generalizing count sequence with
  | nil => simp [packFrom]
  | cons c items ih =>
    rw [packFrom, ih]
    by_cases hcount : count < positions
    · obtain ⟨left, hleft⟩ : ∃ left, positions - count = left + 1 :=
        ⟨positions - count - 1, by omega⟩
      have hnext : positions - (count + 1) = left := by omega
      simp [extend, hcount, hleft, hnext]
    · have hleft : positions - count = 0 := by omega
      have hnext : positions - (count + 1) = 0 := by omega
      simp [extend, hcount, hleft, hnext]

theorem packFrom_zero (items : List Component) : packFrom 0 0 items = pack items := by
  rw [packFrom_eq_foldl, pack, List.foldl_map]
  rfl

theorem retagFrom_cons (stage : Stage) (b : UInt8) (rest : Bytes) :
    retagFrom stage (b :: rest) =
      ((stage.step b).output ++ (retagFrom (stage.step b).stage rest).1,
        (stage.step b).noted.toList ++ (retagFrom (stage.step b).stage rest).2) := rfl

/-- A step puts out the byte at hand and the tags of the two glyph pages. -/
theorem mem_output_step {stage : Stage} {b x : UInt8} (hx : x ∈ (stage.step b).output) :
    x = b ∨ x = 0x01 ∨ x = 0x03 := by
  cases stage with
  | start | counter => cases hx
  | passthrough =>
    simp only [Stage.step] at hx
    split at hx
    · cases hx
    · exact .inl (List.mem_singleton.1 hx)
  | components count sequence =>
    simp only [Stage.step] at hx
    grind [Component.tagged]
  | alternate count sequence =>
    simp only [Stage.step, Component.tagged] at hx
    grind

theorem mem_retagFrom {stage : Stage} {bytes : Bytes} {x : UInt8}
    (hx : x ∈ (retagFrom stage bytes).1) : x ∈ bytes ∨ x = 0x01 ∨ x = 0x03 := by
  induction bytes generalizing stage with
  | nil => cases hx
  | cons b rest ih =>
    rw [retagFrom_cons] at hx
    rcases List.mem_append.1 hx with hx | hx
    · rcases mem_output_step hx with rfl | htag
      · exact .inl List.mem_cons_self
      · exact .inr htag
    · exact (ih hx).imp_left (List.mem_cons_of_mem b)

/-- At a border a span of kept bytes ends. -/
theorem retagFrom_passthrough_of_atBorder {w : Bytes} (h : AtBorder w) :
    retagFrom .passthrough w = retagFrom .start w := by
  cases w with
  | nil => rfl
  | cons b w => simp [retagFrom_cons, Stage.step, atBorder_cons.1 h]

/-- At a border a span of components ends, and its sequence is noted. -/
theorem retagFrom_components_of_atBorder {w : Bytes} (h : AtBorder w) (count sequence : Nat) :
    retagFrom (.components count sequence) w =
      ((retagFrom .start w).1, sequence :: (retagFrom .start w).2) := by
  cases w with
  | nil => rfl
  | cons b w => simp [retagFrom_cons, Stage.step, atBorder_cons.1 h]

theorem retagFrom_kept {bytes : Bytes} (h : ∀ b ∈ bytes, isTerminator b = false) (w : Bytes) :
    retagFrom .passthrough (bytes ++ w) =
      (bytes ++ (retagFrom .passthrough w).1, (retagFrom .passthrough w).2) := by
  induction bytes with
  | nil => rfl
  | cons b bytes ih =>
    rw [List.forall_mem_cons] at h
    simp [retagFrom_cons, Stage.step, h.1, ih h.2]

/-- A component is tagged and takes the next position. -/
theorem retagFrom_component {c : Component} (h : c.Valid) (count sequence : Nat) (w : Bytes) :
    retagFrom (.components count sequence) (c.render ++ w) =
      (c.tagged ++ (retagFrom (.components (count + 1) (extend count sequence c)) w).1,
        (retagFrom (.components (count + 1) (extend count sequence c)) w).2) := by
  cases c with
  | normal g =>
    obtain ⟨h3, h4, h5⟩ := h
    simp [Component.render, retagFrom_cons, Stage.step, isTerminator, h3, h4, h5]
  | alternate g =>
    simp [Component.render, retagFrom_cons, Stage.step, isTerminator,
      show alternateMark ≠ passthroughMark by decide, show alternateMark ≠ componentMark by decide]

theorem retagFrom_items {items : List Component} (h : ∀ c ∈ items, c.Valid) (count sequence : Nat)
    (w : Bytes) :
    retagFrom (.components count sequence) (items.flatMap Component.render ++ w) =
      (items.flatMap Component.tagged ++
          (retagFrom (.components (count + items.length) (packFrom count sequence items)) w).1,
        (retagFrom (.components (count + items.length) (packFrom count sequence items)) w).2) := by
  induction items generalizing count sequence with
  | nil => rfl
  | cons c items ih =>
    rw [List.forall_mem_cons] at h
    have hcount : count + 1 + items.length = count + (c :: items).length := by
      rw [List.length_cons]
      omega
    rw [List.flatMap_cons, List.append_assoc, retagFrom_component h.1, ih h.2, hcount, packFrom,
      List.flatMap_cons, List.append_assoc]

/-- A span adds what remains of it, and its sequence if it is one of components. -/
theorem retagFrom_render_append {s : Span} (hs : s.Valid) {w : Bytes} (hw : AtBorder w)
    (hcut : s.IsCut → w = []) :
    retagFrom .start (s.render ++ w) =
      (s.tagged ++ (retagFrom .start w).1,
        (s.components?.map pack).toList ++ (retagFrom .start w).2) := by
  cases s with
  | passthrough bytes =>
    change retagFrom .passthrough (bytes ++ w) = _
    rw [retagFrom_kept (not_terminator_of_valid hs), retagFrom_passthrough_of_atBorder hw]
    rfl
  | components header counter items dangling =>
    have hopened : Stage.opened header = .counter := if_neg hs.1
    have hopen : retagFrom .start ((Span.components header counter items dangling).render ++ w) =
        retagFrom (.components 0 0)
          ((items.flatMap Component.render ++ if dangling then [alternateMark] else []) ++ w) := by
      simp [Span.render, retagFrom_cons, Stage.step, hopened]
    rw [hopen, List.append_assoc, retagFrom_items hs.2, packFrom_zero]
    cases dangling with
    | false => simp [retagFrom_components_of_atBorder hw, Span.tagged, Span.components?]
    | true =>
      -- the payload ends behind the mark, and with it the span
      rw [hcut rfl]
      rfl
  | bare header =>
    have hopened : Stage.opened header = .counter := if_neg hs
    have hopen : retagFrom .start [header] = retagFrom .counter [] := by
      simp [retagFrom_cons, Stage.step, hopened]
    rw [hcut trivial, List.append_nil, Span.render, hopen]
    rfl

/-- From its first span on, a text adds what all of its spans add. -/
theorem retagFrom_flatMap_render {list : List Span} (h : WellFormed list) :
    retagFrom .start (list.flatMap Span.render) =
      (list.flatMap Span.tagged, (list.filterMap Span.components?).map pack) := by
  induction list with
  | nil => rfl
  | cons s list ih =>
    obtain ⟨hs, -, hlist⟩ := WellFormed.cons_iff.1 h
    rw [List.flatMap_cons, retagFrom_render_append hs h.rest.1 h.rest.2, ih hlist, List.flatMap_cons]
    cases hitems : s.components? <;> simp [hitems]

theorem retagFrom_start (payload : Bytes) :
    retagFrom .start payload =
      ((spans payload).flatMap Span.tagged, ((spans payload).filterMap Span.components?).map pack) := by
  obtain ⟨hlist, hrender⟩ := wellFormed_spans payload
  rw [← retagFrom_flatMap_render hlist, hrender]

theorem retag_eq_flatMap_spans (payload : Bytes) :
    retag payload = (spans payload).flatMap Span.tagged := by
  rw [retag, retagFrom_start]

theorem sequences_eq_map_pack (payload : Bytes) :
    sequences payload =
      ((spans payload).filterMap Span.components?).map fun items => (pack items : Int) := by
  rw [sequences, retagFrom_start, List.map_map]
  rfl

namespace Collector

theorem foldl_record (c : Collector) {α : Type} (f : α → Int) (items : List α) :
    items.foldl (fun c x => c.record (f x)) c = ⟨c.sequences.insertAll (items.map f)⟩ := by
  induction items generalizing c with
  | nil => rfl
  | cons x items ih =>
    rw [List.foldl_cons, ih]
    rfl

end Collector

/-- Every payload is in exactly one way the rendering of a text. Tagging it puts out what remains of its
spans, and a collector records one packed sequence for each span of components. -/
theorem exists_wellFormed_retag (payload : Bytes) (c : Collector) :
    ∃ list, (WellFormed list ∧ list.flatMap Span.render = payload) ∧
      (∀ other, WellFormed other → other.flatMap Span.render = payload → other = list) ∧
      retag payload = list.flatMap Span.tagged ∧
      c.recordPayload payload =
        (list.filterMap Span.components?).foldl (fun c items => c.record (pack items)) c := by
  refine ⟨spans payload, wellFormed_spans payload, ?_, retag_eq_flatMap_spans payload, ?_⟩
  · intro other hother hrender
    rw [← hrender, spans_flatMap_render hother]
  · rw [Collector.foldl_record, Collector.recordPayload, sequences_eq_map_pack]

/-- Marks in the place of a header, a counter and a glyph are nothing of their own, and a header at the
end is a span. -/
example : retag [0x05, 0x03, 0x05, 0x04, 0x04] = [0x01, 0x04] ∧
    sequences [0x05, 0x03, 0x05, 0x04, 0x04] = [0x104, 0] := by decide

end FontCodec.Jamo
