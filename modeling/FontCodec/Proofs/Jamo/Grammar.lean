import FontCodec.Jamo.Span
import Mathlib.Data.List.Chain

/-!
# The grammar of Korean game text

A list of spans is a text if each of them is one and can stand where it does: only the last one is cut
short, and only the first one has a header of its own choice. Every payload is read as exactly one such
list.
-/

namespace FontCodec.Jamo

/-- A normal glyph is no mark. -/
def Component.Valid : Component → Prop
  | normal g => g ≠ passthroughMark ∧ g ≠ componentMark ∧ g ≠ alternateMark
  | alternate _ => True

namespace Span

def Valid : Span → Prop
  | passthrough bytes => passthroughMark ∉ bytes ∧ componentMark ∉ bytes
  | components h _ items _ => h ≠ passthroughMark ∧ ∀ c ∈ items, c.Valid
  | bare h => h ≠ passthroughMark

def IsCut : Span → Prop
  | passthrough _ => False
  | components _ _ _ dangling => dangling
  | bare _ => True

/-- A header behind another span is the mark of components. -/
def CanFollow : Span → Prop
  | passthrough _ => True
  | components h _ _ _ => h = componentMark
  | bare h => h = componentMark

end Span

/-- Spans that make a text: each behind one that is whole, with the mark that can follow it. -/
structure WellFormed (list : List Span) : Prop where
  valid : ∀ s ∈ list, s.Valid
  joined : list.IsChain fun before after => ¬ before.IsCut ∧ after.CanFollow

/-- The bytes are empty or open a span behind another one. -/
def AtBorder (w : Bytes) : Prop := ∀ b ∈ w.head?, isTerminator b

theorem atBorder_nil : AtBorder [] := by simp [AtBorder]

theorem atBorder_cons {b : UInt8} {w : Bytes} : AtBorder (b :: w) ↔ isTerminator b := by
  simp [AtBorder]

theorem isTerminator_iff {b : UInt8} :
    isTerminator b ↔ b = passthroughMark ∨ b = componentMark := by simp [isTerminator]

theorem not_terminator_of_valid {bytes : Bytes} (h : (Span.passthrough bytes).Valid) :
    ∀ b ∈ bytes, isTerminator b = false := by
  intro b hb
  rw [← Bool.not_eq_true, isTerminator_iff]
  rintro (rfl | rfl)
  · exact h.1 hb
  · exact h.2 hb

theorem Span.CanFollow.atBorder {s : Span} (h : s.CanFollow) (w : Bytes) :
    AtBorder (s.render ++ w) := by
  cases s with
  | passthrough bytes => exact atBorder_cons.2 rfl
  | components header counter items dangling => exact atBorder_cons.2 (h ▸ rfl)
  | bare header => exact atBorder_cons.2 (h ▸ rfl)

namespace WellFormed

variable {s : Span} {list : List Span}

theorem nil : WellFormed [] := ⟨by simp, .nil⟩

theorem cons_iff : WellFormed (s :: list) ↔
    s.Valid ∧ (∀ t ∈ list.head?, ¬ s.IsCut ∧ t.CanFollow) ∧ WellFormed list := by
  constructor
  · rintro ⟨hv, hj⟩
    rw [List.forall_mem_cons] at hv
    rw [List.isChain_cons] at hj
    exact ⟨hv.1, hj.1, hv.2, hj.2⟩
  · rintro ⟨hs, hhead, hv, hj⟩
    exact ⟨List.forall_mem_cons.2 ⟨hs, hv⟩, List.isChain_cons.2 ⟨hhead, hj⟩⟩

/-- Behind a span of a text its rendering goes on at a border, and not at all if the span is cut. -/
theorem rest (h : WellFormed (s :: list)) : AtBorder (list.flatMap Span.render) ∧
    (s.IsCut → list.flatMap Span.render = []) := by
  obtain ⟨-, hhead, -⟩ := cons_iff.1 h
  cases list with
  | nil => exact ⟨atBorder_nil, fun _ => rfl⟩
  | cons t list =>
    obtain ⟨hcut, hfollow⟩ := hhead t rfl
    exact ⟨hfollow.atBorder _, fun hs => absurd hs hcut⟩

end WellFormed

section Reading

@[simp] theorem spans_nil : spans [] = [] := by rw [spans.eq_def]

theorem splitComponents_of_atBorder {w : Bytes} (h : AtBorder w) :
    splitComponents w = ([], false, w) := by
  cases w with
  | nil => rfl
  | cons b w => rw [splitComponents.eq_def]; simp [atBorder_cons.1 h]

/-- Components in front of anything are read one by one. -/
theorem splitComponents_render_append {items : List Component} (h : ∀ c ∈ items, c.Valid) (w : Bytes) :
    splitComponents (items.flatMap Component.render ++ w) =
      (items ++ (splitComponents w).1, (splitComponents w).2) := by
  induction items with
  | nil => rfl
  | cons c items ih =>
    rw [List.forall_mem_cons] at h
    have ih := ih h.2
    cases c with
    | normal g =>
      obtain ⟨h3, h4, h5⟩ := h.1
      change splitComponents (g :: (items.flatMap Component.render ++ w)) = _
      rw [splitComponents.eq_def]
      simp [isTerminator, h3, h4, h5, ih]
    | alternate g =>
      change splitComponents (alternateMark :: g :: (items.flatMap Component.render ++ w)) = _
      rw [splitComponents.eq_def]
      simp [isTerminator, show alternateMark ≠ passthroughMark by decide,
        show alternateMark ≠ componentMark by decide, ih]

/-- A span is read back from in front of what can follow it. -/
theorem spans_render_append {s : Span} (hs : s.Valid) {w : Bytes} (hw : AtBorder w)
    (hcut : s.IsCut → w = []) : spans (s.render ++ w) = s :: spans w := by
  cases s with
  | passthrough bytes =>
    have hbytes : ∀ b ∈ bytes, (!isTerminator b) = true := by
      simpa using not_terminator_of_valid hs
    have hstop : w.takeWhile (fun b => !isTerminator b) = [] ∧
        w.dropWhile (fun b => !isTerminator b) = w := by
      cases w with
      | nil => exact ⟨rfl, rfl⟩
      | cons b w => simp [atBorder_cons.1 hw]
    change spans (passthroughMark :: (bytes ++ w)) = _
    rw [spans.eq_def]
    simp [List.takeWhile_append_of_pos hbytes, List.dropWhile_append_of_pos hbytes, hstop]
  | components header counter items dangling =>
    change spans (header :: counter ::
      ((items.flatMap Component.render ++ if dangling then [alternateMark] else []) ++ w)) = _
    have hsplit : splitComponents
        (items.flatMap Component.render ++ ((if dangling then [alternateMark] else []) ++ w)) =
          (items, dangling, w) := by
      rw [splitComponents_render_append hs.2]
      cases dangling with
      | false => simp [splitComponents_of_atBorder hw]
      | true =>
        rw [hcut rfl]
        simp [splitComponents, isTerminator, show alternateMark ≠ passthroughMark by decide,
          show alternateMark ≠ componentMark by decide]
    rw [List.append_assoc, spans.eq_def]
    simp [hs.1, hsplit]
  | bare header =>
    rw [hcut trivial]
    change spans [header] = _
    rw [spans.eq_def]
    simp [show header ≠ passthroughMark from hs]

theorem spans_flatMap_render {list : List Span} (h : WellFormed list) :
    spans (list.flatMap Span.render) = list := by
  induction list with
  | nil => exact spans_nil
  | cons s list ih =>
    obtain ⟨hs, -, hlist⟩ := WellFormed.cons_iff.1 h
    rw [List.flatMap_cons, spans_render_append hs h.rest.1 h.rest.2, ih hlist]

/-- Components, whether a mark without its glyph ends the text behind them, and what follows. -/
structure IsSplit (bytes : Bytes) (split : List Component × Bool × Bytes) : Prop where
  valid : ∀ c ∈ split.1, c.Valid
  border : AtBorder split.2.2
  ended : split.2.1 = true → split.2.2 = []
  rendered : split.1.flatMap Component.render ++
    ((if split.2.1 then [alternateMark] else []) ++ split.2.2) = bytes

theorem IsSplit.cons {bytes remaining : Bytes} {items : List Component} {dangling : Bool}
    (h : IsSplit bytes (items, dangling, remaining)) {c : Component} (hc : c.Valid) :
    IsSplit (c.render ++ bytes) (c :: items, dangling, remaining) where
  valid := List.forall_mem_cons.2 ⟨hc, h.valid⟩
  border := h.border
  ended := h.ended
  rendered := by
    rw [List.flatMap_cons, List.append_assoc]
    exact congrArg (c.render ++ ·) h.rendered

theorem isSplit_splitComponents (bytes : Bytes) : IsSplit bytes (splitComponents bytes) := by
  fun_induction splitComponents bytes with
  | case1 => exact ⟨by simp, atBorder_nil, fun _ => rfl, rfl⟩
  | case2 b rest hb => exact ⟨by simp, atBorder_cons.2 hb, by simp, rfl⟩
  | case3 => exact ⟨by simp, atBorder_nil, fun _ => rfl, rfl⟩
  | case4 g tail items dangling remaining hsplit _ ih =>
    rw [hsplit] at ih
    exact ih.cons (show (Component.alternate g).Valid from trivial)
  | case5 b rest hb hmark items dangling remaining hsplit ih =>
    rw [hsplit] at ih
    have hvalid : (Component.normal b).Valid :=
      ⟨fun h => hb (isTerminator_iff.2 (.inl h)), fun h => hb (isTerminator_iff.2 (.inr h)), hmark⟩
    exact ih.cons hvalid

theorem canFollow_of_atBorder {w : Bytes} (hw : AtBorder w) {s : Span} (hs : s ∈ (spans w).head?) :
    s.CanFollow := by
  cases w with
  | nil => simp at hs
  | cons b w =>
    rw [spans.eq_def] at hs
    by_cases hpass : b = passthroughMark
    · obtain rfl : Span.passthrough _ = s := by simpa [hpass] using hs
      trivial
    · have hmark : b = componentMark :=
        (isTerminator_iff.1 (atBorder_cons.1 hw)).resolve_left hpass
      cases w with
      | nil =>
        obtain rfl : Span.bare b = s := by simpa [hpass] using hs
        exact hmark
      | cons counter w =>
        obtain rfl : Span.components b _ _ _ = s := by simpa [hpass] using hs
        exact hmark

theorem WellFormed.cons_spans {w : Bytes} (h : WellFormed (spans w)) {s : Span} (hs : s.Valid)
    (hw : AtBorder w) (hcut : s.IsCut → w = []) : WellFormed (s :: spans w) := by
  refine cons_iff.2 ⟨hs, fun t ht => ⟨fun hc => ?_, canFollow_of_atBorder hw ht⟩, h⟩
  rw [hcut hc, spans_nil] at ht
  cases ht

/-- The spans of a payload make a text, and their rendering is the payload. -/
theorem wellFormed_spans (payload : Bytes) :
    WellFormed (spans payload) ∧ (spans payload).flatMap Span.render = payload := by
  fun_induction spans payload with
  | case1 => exact ⟨.nil, rfl⟩
  | case2 rest ih =>
    have hkept : ∀ b ∈ rest.takeWhile (fun b => !isTerminator b), isTerminator b = false := by
      intro b hb
      simpa using List.all_eq_true.1 List.all_takeWhile b hb
    have hborder : AtBorder (rest.dropWhile fun b => !isTerminator b) := by
      have hhead := List.head?_dropWhile_not (fun b => !isTerminator b) rest
      intro b hb
      rw [Option.mem_def.1 hb] at hhead
      simpa using hhead
    have hvalid : (Span.passthrough (rest.takeWhile fun b => !isTerminator b)).Valid :=
      ⟨fun h => absurd (hkept _ h) (by decide), fun h => absurd (hkept _ h) (by decide)⟩
    refine ⟨ih.1.cons_spans hvalid hborder False.elim, ?_⟩
    rw [List.flatMap_cons, ih.2, Span.render, List.cons_append, List.takeWhile_append_dropWhile]
  | case3 header hpass =>
    have hend : WellFormed (.bare header :: spans []) :=
      (spans_nil ▸ WellFormed.nil).cons_spans hpass atBorder_nil fun _ => rfl
    exact ⟨spans_nil ▸ hend, by simp [Span.render]⟩
  | case4 header hpass counter tail ih =>
    have hsplit := isSplit_splitComponents tail
    refine ⟨ih.1.cons_spans ⟨hpass, hsplit.valid⟩ hsplit.border hsplit.ended, ?_⟩
    rw [List.flatMap_cons, ih.2, Span.render, List.cons_append, List.cons_append, List.append_assoc,
      hsplit.rendered]

end Reading

end FontCodec.Jamo
