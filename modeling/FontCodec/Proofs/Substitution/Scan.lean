import FontCodec.Proofs.Substitution.Overlap
import FontCodec.Substitution.Table
import Mathlib.Data.List.Induction
import Mathlib.Data.List.MinMax

/-!
# How a substitution scans

What is chosen in front of a window, induction along the choices, and what a scan does where it
meets a border between two buffers that no pattern runs over.
-/

namespace FontCodec

section Longest

variable {α β : Type} {window : Bytes}

/-- What is chosen is the first of the longest patterns that open the window. -/
theorem longest?_eq_argmax (pattern : α → Bytes) (window : Bytes) (items : List α) :
    longest? pattern window items =
      (items.filter fun a => pattern a ≠ [] ∧ pattern a <+: window).argmax
        fun a => (pattern a).length := by
  induction items using List.reverseRecOn with
  | nil => rfl
  | append_singleton items item ih =>
    have hlast : longest? pattern window (items ++ [item]) =
        longer pattern window (longest? pattern window items) item := by
      rw [longest?, List.foldl_append]
      rfl
    rw [hlast, ih, List.filter_append]
    by_cases hm : pattern item ≠ [] ∧ pattern item <+: window
    · have hmatch : (pattern item).isPrefixOf window = true := List.isPrefixOf_iff_prefix.2 hm.2
      rw [List.filter_singleton, decide_eq_true hm, cond_true, List.argmax_concat]
      cases (items.filter fun a => pattern a ≠ [] ∧ pattern a <+: window).argmax
          fun a => (pattern a).length with
      | none => simp [longer, bestLength, hmatch, List.length_pos_iff, hm.1]
      | some best => simp [longer, bestLength, hmatch]
    · rw [List.filter_singleton, decide_eq_false hm, cond_false, List.append_nil, longer, if_neg]
      rintro ⟨hlt, hp⟩
      exact hm ⟨List.ne_nil_of_length_pos (Nat.zero_lt_of_lt hlt), List.isPrefixOf_iff_prefix.1 hp⟩

theorem longest?_map (f : α → β) (pattern : β → Bytes) (items : List α) :
    longest? pattern window (items.map f) =
      (longest? (fun a => pattern (f a)) window items).map f := by
  rw [longest?, List.foldl_map]
  change items.foldl _ (Option.map f none) = Option.map f (items.foldl _ none)
  refine List.foldl_hom (Option.map f) fun best a => ?_
  cases best <;> simp [longer, bestLength, apply_ite (Option.map f)]

end Longest

namespace Substitution

variable {s : Substitution} {copy : UInt8 → Bytes}

theorem mem_rules_of_find? {w : Bytes} {r : NumberedRule} (h : s.find? w = some r) :
    r.1 ∈ s.rules ∧ r.1.pattern ≠ [] ∧ r.1.pattern <+: w := by
  rw [find?_eq_longest?] at h
  obtain ⟨hm, hlen, hp⟩ := longest?_some h
  exact ⟨List.fst_mem_of_mem_zipIdx hm, List.length_pos_iff.1 hlen, hp⟩

theorem map_fst_find? (w : Bytes) : (s.find? w).map Prod.fst = longest? Rule.pattern w s.rules := by
  rw [find?_eq_longest?, ← longest?_map Prod.fst Rule.pattern, List.zipIdx_map_fst]

theorem length_le_of_find? {w : Bytes} {r : NumberedRule} (h : s.find? w = some r) {rule : Rule}
    (hm : rule ∈ s.rules) (hp : rule.pattern <+: w) :
    rule.pattern.length ≤ r.1.pattern.length := by
  by_cases hne : rule.pattern = []
  · simp [hne]
  · have hchosen := map_fst_find? (s := s) w
    rw [h, longest?_eq_argmax] at hchosen
    exact List.le_of_mem_argmax (f := fun rule : Rule => rule.pattern.length)
      (List.mem_filter.2 ⟨hm, by simp [hne, hp]⟩) hchosen.symm

theorem find?_eq_none_iff {w : Bytes} :
    s.find? w = none ↔ ∀ rule ∈ s.rules, rule.pattern ≠ [] → ¬ rule.pattern <+: w := by
  rw [← Option.map_eq_none_iff (f := Prod.fst), map_fst_find?, longest?_eq_argmax,
    List.argmax_eq_none, List.filter_eq_nil_iff]
  simp

theorem find?_cons_eq_none {b : UInt8} (h : ∀ rule ∈ s.rules, rule.pattern.head? ≠ some b) (w : Bytes) :
    s.find? (b :: w) = none := by
  refine find?_eq_none_iff.2 fun rule hm hne hp => h rule hm ?_
  obtain ⟨a, tail, hpattern⟩ := List.exists_cons_of_ne_nil hne
  rw [hpattern, List.cons_prefix_cons] at hp
  rw [hpattern, hp.1]
  rfl

theorem find?_congr {w w' : Bytes} (h : ∀ rule ∈ s.rules, rule.pattern <+: w ↔ rule.pattern <+: w') :
    s.find? w = s.find? w' := by
  rw [find?_eq_longest?, find?_eq_longest?, longest?_eq_argmax, longest?_eq_argmax]
  congr 1
  refine List.filter_congr fun r hr => ?_
  simp only [h r.1 (List.fst_mem_of_mem_zipIdx hr)]

/-- Induction along a scan: a buffer is empty, or begins with the pattern of the rule chosen there,
or begins with a byte at which no rule is chosen. -/
theorem scan_induction (s : Substitution) {motive : Bytes → Prop} (nil : motive [])
    (hit : ∀ r rest, s.find? (r.1.pattern ++ rest) = some r → motive rest →
      motive (r.1.pattern ++ rest))
    (miss : ∀ b rest, s.find? (b :: rest) = none → motive rest → motive (b :: rest))
    (buffer : Bytes) : motive buffer := by
  match buffer with
  | [] => exact nil
  | b :: rest =>
    cases hf : s.find? (b :: rest) with
    | none => exact miss b rest hf (scan_induction s nil hit miss rest)
    | some r =>
      obtain ⟨-, hne, tail, ht⟩ := mem_rules_of_find? hf
      have hlen : tail.length < (b :: rest).length := by
        have := List.length_pos_iff.2 hne
        rw [← ht, List.length_append]
        omega
      rw [← ht] at hf ⊢
      exact hit r tail hf (scan_induction s nil hit miss tail)
termination_by buffer.length
decreasing_by
  · exact Nat.lt_add_one rest.length
  · exact hlen

theorem replace_hit {r : NumberedRule} {rest : Bytes} (h : s.find? (r.1.pattern ++ rest) = some r) :
    s.replace copy (r.1.pattern ++ rest) = r.1.output ++ s.replace copy rest := by
  rw [replace_of_find?_eq_some h, List.drop_left]

theorem replace_congr {t : Substitution}
    (h : ∀ w, (s.find? w).map Prod.fst = (t.find? w).map Prod.fst) (copy : UInt8 → Bytes)
    (buffer : Bytes) : s.replace copy buffer = t.replace copy buffer := by
  induction buffer using scan_induction s with
  | nil => rfl
  | hit r rest hf ih =>
    have ht := h (r.1.pattern ++ rest)
    rw [hf, Option.map_some] at ht
    obtain ⟨r', hf', hr⟩ := Option.map_eq_some_iff.1 ht.symm
    rw [replace_hit hf, ih, replace_of_find?_eq_some hf', hr, List.drop_left]
  | miss b rest hf ih =>
    have ht := h (b :: rest)
    rw [hf, Option.map_none] at ht
    rw [replace_of_find?_eq_none hf, ih,
      replace_of_find?_eq_none (Option.map_eq_none_iff.1 ht.symm)]

/-- A table copies alike in two ways that agree where it chooses no rule. -/
theorem replace_congr_copy {copy' : UInt8 → Bytes} {buffer : Bytes}
    (h : ∀ b ∈ buffer, ∀ rest, s.find? (b :: rest) = none → copy b = copy' b) :
    s.replace copy buffer = s.replace copy' buffer := by
  induction buffer using scan_induction s with
  | nil => rfl
  | hit r rest hf ih =>
    rw [replace_hit hf, replace_hit hf, ih fun b hb => h b (List.mem_append_right _ hb)]
  | miss b rest hf ih =>
    rw [List.forall_mem_cons] at h
    rw [replace_of_find?_eq_none hf, replace_of_find?_eq_none hf, h.1 rest hf, ih h.2]

theorem apply_hit {r : NumberedRule} {rest : Bytes} (h : s.find? (r.1.pattern ++ rest) = some r) :
    s.apply (r.1.pattern ++ rest) = r.1.output ++ s.apply rest := replace_hit h

theorem apply_miss {b : UInt8} {rest : Bytes} (h : s.find? (b :: rest) = none) :
    s.apply (b :: rest) = b :: s.apply rest := replace_of_find?_eq_none h

@[simp] theorem apply_nil : s.apply [] = [] := rfl

theorem mem_replace {b : UInt8} {buffer : Bytes} (hb : b ∈ s.replace copy buffer) :
    (∃ a ∈ buffer, b ∈ copy a) ∨ ∃ rule ∈ s.rules, b ∈ rule.output := by
  induction buffer using scan_induction s with
  | nil => simp at hb
  | hit r rest hf ih =>
    rw [replace_hit hf, List.mem_append] at hb
    rcases hb with hb | hb
    · exact .inr ⟨r.1, (mem_rules_of_find? hf).1, hb⟩
    · exact (ih hb).imp_left fun ⟨a, ha, hcopy⟩ => ⟨a, by simp [ha], hcopy⟩
  | miss c rest hf ih =>
    rw [replace_of_find?_eq_none hf, List.mem_append] at hb
    rcases hb with hb | hb
    · exact .inl ⟨c, by simp, hb⟩
    · exact (ih hb).imp_left fun ⟨a, ha, hcopy⟩ => ⟨a, by simp [ha], hcopy⟩

theorem mem_apply {b : UInt8} {buffer : Bytes} (hb : b ∈ s.apply buffer) :
    b ∈ buffer ∨ ∃ rule ∈ s.rules, b ∈ rule.output := by
  simpa using mem_replace hb

/-- A rule whose pattern opens no other pattern is chosen wherever its pattern stands. -/
theorem exists_find?_of_alone {rule : Rule} (hm : rule ∈ s.rules) (hne : rule.pattern ≠ [])
    (halone : ∀ other ∈ s.rules, rule.pattern <+: other.pattern → other = rule) (rest : Bytes) :
    ∃ r, s.find? (rule.pattern ++ rest) = some r ∧ r.1 = rule := by
  have hp : rule.pattern <+: rule.pattern ++ rest := List.prefix_append _ _
  cases hf : s.find? (rule.pattern ++ rest) with
  | none => exact absurd hp (find?_eq_none_iff.1 hf rule hm hne)
  | some r =>
    obtain ⟨hm', -, hp'⟩ := mem_rules_of_find? hf
    have hopens := List.prefix_of_prefix_length_le hp hp' (length_le_of_find? hf hm hp)
    exact ⟨r, rfl, halone r.1 hm' hopens⟩

theorem replace_pattern_append {rule : Rule} (hm : rule ∈ s.rules) (hne : rule.pattern ≠ [])
    (halone : ∀ other ∈ s.rules, rule.pattern <+: other.pattern → other = rule) (rest : Bytes) :
    s.replace copy (rule.pattern ++ rest) = rule.output ++ s.replace copy rest := by
  obtain ⟨r, hf, rfl⟩ := exists_find?_of_alone hm hne halone rest
  exact replace_hit hf

/-- In a table made from items, an item whose pattern opens no other one's is read wherever its pattern
stands. -/
theorem replace_item_append {α : Type} (toRule : α → Rule) {items : List α}
    (hs : s = ofRules (items.map toRule)) {item : α} (hm : item ∈ items)
    (hne : (toRule item).pattern ≠ [])
    (halone : ∀ other ∈ items, (toRule item).pattern <+: (toRule other).pattern → other = item)
    (rest : Bytes) :
    s.replace copy ((toRule item).pattern ++ rest) =
      (toRule item).output ++ s.replace copy rest := by
  subst hs
  refine replace_pattern_append (List.mem_map_of_mem hm) hne (fun other ho hp => ?_) rest
  obtain ⟨a, ha, rfl⟩ := List.mem_map.1 ho
  rw [halone a ha hp]

/-- No pattern runs over the border between two buffers. -/
def CleanCut (s : Substitution) (a b : Bytes) : Prop :=
  ∀ rule ∈ s.rules, ∀ x y, rule.pattern = x ++ y → x <:+ a → y <+: b → x = [] ∨ y = []

theorem CleanCut.suffix {a z b : Bytes} (h : s.CleanCut a b) (hz : z <:+ a) : s.CleanCut z b :=
  fun rule hm x y hxy hx hy => h rule hm x y hxy (hx.trans hz) hy

theorem cleanCut_of_not_mem {c : UInt8} (h : ∀ rule ∈ s.rules, c ∉ rule.pattern) (a b : Bytes) :
    s.CleanCut a (c :: b) := by
  intro rule hm x y hxy _ hy
  cases y with
  | nil => exact .inr rfl
  | cons d y =>
    have hd : d = c := (List.cons_prefix_cons.1 hy).1
    exact absurd (by rw [hxy, hd]; simp) (h rule hm)

/-- In front of a clean cut the choice is made as if the buffer ended there. -/
theorem find?_append {a b : Bytes} (h : s.CleanCut a b) (hne : a ≠ []) :
    s.find? (a ++ b) = s.find? a := by
  apply find?_congr
  intro rule hm
  refine ⟨fun hp => ?_, fun hp => hp.trans (List.prefix_append a b)⟩
  rcases List.prefix_or_prefix_of_prefix hp (List.prefix_append a b) with hpa | ⟨y, hy⟩
  · exact hpa
  · rw [← hy, List.prefix_append_right_inj] at hp
    rcases h rule hm a y hy.symm (List.suffix_refl a) hp with rfl | rfl
    · exact absurd rfl hne
    · rw [List.append_nil] at hy
      exact hy ▸ List.prefix_refl a

theorem replace_append {a b : Bytes} (h : s.CleanCut a b) :
    s.replace copy (a ++ b) = s.replace copy a ++ s.replace copy b := by
  induction a using scan_induction s with
  | nil => rfl
  | hit r rest hf ih =>
    have hne : r.1.pattern ++ rest ≠ [] := by
      simp [(mem_rules_of_find? hf).2.1]
    have hf' : s.find? (r.1.pattern ++ (rest ++ b)) = some r := by
      rw [← List.append_assoc, find?_append h hne, hf]
    rw [List.append_assoc, replace_hit hf', replace_hit hf, ih (h.suffix (List.suffix_append _ _)),
      List.append_assoc]
  | miss c rest hf ih =>
    have hf' : s.find? (c :: (rest ++ b)) = none := by
      rw [← List.cons_append, find?_append h (by simp), hf]
    rw [List.cons_append, replace_of_find?_eq_none hf', replace_of_find?_eq_none hf,
      ih (h.suffix (List.suffix_cons c rest)), List.append_assoc]

theorem apply_append {a b : Bytes} (h : s.CleanCut a b) :
    s.apply (a ++ b) = s.apply a ++ s.apply b := replace_append h

theorem replace_unmatched {u w : Bytes}
    (h : ∀ z, z ≠ [] → z <:+ u → s.find? (z ++ w) = none) :
    s.replace copy (u ++ w) = u.flatMap copy ++ s.replace copy w := by
  induction u with
  | nil => rfl
  | cons b u ih =>
    have hb : s.find? (b :: (u ++ w)) = none := h (b :: u) (by simp) (List.suffix_refl _)
    rw [List.cons_append, replace_of_find?_eq_none hb, List.flatMap_cons, List.append_assoc,
      ih fun z hne hz => h z hne (hz.trans (List.suffix_cons b u))]

theorem apply_unmatched {u w : Bytes} (h : ∀ z, z ≠ [] → z <:+ u → s.find? (z ++ w) = none) :
    s.apply (u ++ w) = u ++ s.apply w := by
  rw [apply, replace_unmatched h, List.flatMap_singleton']
  rfl

theorem apply_append_of_not_beginsIn {u : Bytes} (h : ∀ rule ∈ s.rules, ¬ BeginsIn rule.pattern u)
    (w : Bytes) : s.apply (u ++ w) = u ++ s.apply w := by
  refine apply_unmatched fun z hne hz => find?_eq_none_iff.2 fun rule hm _ hp => h rule hm ?_
  exact beginsIn_of_suffix hz hne (Comparable.of_opens_append hp)

theorem apply_eq_self {buffer : Bytes}
    (h : ∀ rule ∈ s.rules, rule.pattern ≠ [] → ¬ rule.pattern <:+: buffer) :
    s.apply buffer = buffer := by
  have hnone : ∀ z, z ≠ [] → z <:+ buffer → s.find? (z ++ []) = none := by
    intro z _ hz
    rw [List.append_nil, find?_eq_none_iff]
    exact fun rule hm hne hp => h rule hm hne (hp.isInfix.trans hz.isInfix)
  simpa using apply_unmatched hnone

/-- What opens the result and can begin in no output was there before. -/
theorem prefix_of_prefix_replace {w buffer : Bytes}
    (hcopy : ∀ b, copy b = [b] ∨ ¬ BeginsIn (copy b) w)
    (hout : ∀ rule ∈ s.rules, ¬ BeginsIn rule.output w)
    (h : w <+: s.replace copy buffer) : w <+: buffer := by
  induction buffer using scan_induction s generalizing w with
  | nil => exact h
  | hit r rest hf ih =>
    rw [replace_hit hf] at h
    cases w with
    | nil => exact List.nil_prefix
    | cons x w =>
      exact absurd (.inl (Comparable.of_opens_append h).symm) (hout r.1 (mem_rules_of_find? hf).1)
  | miss b rest hf ih =>
    rw [replace_of_find?_eq_none hf] at h
    cases w with
    | nil => exact List.nil_prefix
    | cons x w =>
      rcases hcopy b with hb | hb
      · rw [hb, List.singleton_append, List.cons_prefix_cons] at h
        rw [List.cons_prefix_cons]
        exact ⟨h.1, ih (fun c => (hcopy c).imp_right fun hc hw => hc (.inr hw))
          (fun rule hm hw => hout rule hm (.inr hw)) h.2⟩
      · exact absurd (.inl (Comparable.of_opens_append h).symm) hb

theorem prefix_of_prefix_apply {w buffer : Bytes} (hout : ∀ rule ∈ s.rules, ¬ BeginsIn rule.output w)
    (h : w <+: s.apply buffer) : w <+: buffer :=
  prefix_of_prefix_replace (fun _ => .inl rfl) hout h

end Substitution

end FontCodec
