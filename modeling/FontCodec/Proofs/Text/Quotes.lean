import FontCodec.Proofs.Text.Backslashes
import FontCodec.Proofs.Text.EscapeGrammar
import FontCodec.Proofs.Text.Symbol

/-!
# Quotes behind backslashes

The escaping pass puts a backslash in front of each quote and doubles the backslashes in front of that
one. So every quote stands behind an odd run, and reading token by token never comes to
a quote alone. A table that takes backslashes two by two keeps this and leaves single backslashes. Without
such a table they are single if all of them opened escapes.
-/

namespace FontCodec

/-- Every quote stands behind an odd run of backslashes. What stands in front of the bytes ends in such
a run if `odd` is true. -/
def QuotesEscaped (odd : Bool) : Bytes → Prop
  | [] => True
  | b :: rest => (b = quoteMark → odd = true) ∧ QuotesEscaped (leavesOdd odd b) rest

theorem quotesEscaped_append {odd : Bool} {u w : Bytes} :
    QuotesEscaped odd (u ++ w) ↔ QuotesEscaped odd u ∧ QuotesEscaped (u.foldl leavesOdd odd) w := by
  induction u generalizing odd with
  | nil => simp [QuotesEscaped]
  | cons b u ih => simp only [List.cons_append, QuotesEscaped, ih, List.foldl_cons, and_assoc]

theorem quotesEscaped_of_not_mem {u : Bytes} (h : quoteMark ∉ u) (odd : Bool) :
    QuotesEscaped odd u := by
  induction u generalizing odd with
  | nil => trivial
  | cons b u ih =>
    rw [List.mem_cons, not_or] at h
    exact ⟨fun hb => absurd hb.symm h.1, ih h.2 _⟩

/-- A letter behind a single backslash may be a quote, and the run ends with it. -/
theorem quotesEscaped_backslash_cons {letter : UInt8} {w : Bytes} :
    QuotesEscaped false (backslash :: letter :: w) ↔ QuotesEscaped false w := by
  simp [QuotesEscaped, leavesOdd, show backslash ≠ quoteMark by decide]

theorem quotesEscaped_escape (u : Bytes) : QuotesEscaped false (escape u) := by
  induction u with
  | nil => trivial
  | cons b rest ih =>
    rcases escape_cons_cases b rest with ⟨tail, rfl, rfl⟩ | ⟨letter, hescape, -⟩ | ⟨hs, hescape⟩
    · rw [escape_cons_of_not_special (by decide)] at ih
      rw [escape_backslash_byteCode, quotesEscaped_backslash_cons]
      exact ih.2
    · rw [hescape, quotesEscaped_backslash_cons]
      exact ih
    · simp only [IsSpecial, not_or] at hs
      rw [hescape, QuotesEscaped, leavesOdd_of_ne hs.1]
      exact ⟨fun hq => absurd hq hs.2.2.2, ih⟩

namespace EscapeToken

theorem foldl_leavesOdd_render {t : EscapeToken} (h : ∀ hidden, t ≠ quote hidden) :
    t.render.foldl leavesOdd false = false := by
  cases t with
  | quote hidden => exact absurd rfl (h hidden)
  | lastQuote => rfl
  | escaped b special => simp [render, leavesOdd]
  | named high low digits =>
    have hlow : low ≠ backslash := by
      rintro rfl
      exact absurd digits.2 (by decide)
    simp [render, leavesOdd, hlow]
  | plain b ordinary => simp [render, leavesOdd, ordinary.2]

theorem not_meetsBareQuote {source : Bytes} (h : QuotesEscaped false source) :
    ¬ MeetsBareQuote source := by
  rintro ⟨tokens, rest, -, rfl⟩
  induction tokens with
  | nil => exact absurd (h.1 rfl) (by decide)
  | cons t tokens ih =>
    rw [List.flatMap_cons, List.append_assoc, quotesEscaped_append] at h
    by_cases hq : ∃ hidden, t = quote hidden
    · obtain ⟨hidden, rfl⟩ := hq
      exact absurd (h.1.1 rfl) (by decide)
    · rw [foldl_leavesOdd_render (not_exists.1 hq)] at h
      exact ih h.2

end EscapeToken

/-- Where backslashes come one at a time, one of them stands in front of a quote. -/
theorem exists_single_backslash {u w : List Char} (hquotes : QuotesEscaped false (utf8Bytes (u ++ '"' :: w)))
    (hpair : ¬ [backslash, backslash] <:+: utf8Bytes (u ++ '"' :: w)) :
    ∃ front, u = front ++ ['\\'] ∧ front.getLast? ≠ some '\\' := by
  rw [utf8Bytes_append, quotesEscaped_append] at hquotes
  have hodd : (utf8Bytes u).foldl leavesOdd false = true := hquotes.2.1 rfl
  cases u using List.reverseRecOn with
  | nil => exact absurd hodd (by decide)
  | append_singleton front c _ =>
    have hc : c = '\\' := by
      by_contra hc
      have hmem : backslash ∉ utf8Bytes [c] := by simpa using Symbol.backslash_not_mem hc
      rw [utf8Bytes_append, List.foldl_append, foldl_leavesOdd_of_not_mem (by simp) hmem] at hodd
      exact absurd hodd (by decide)
    subst hc
    refine ⟨front, rfl, fun hlast => hpair ?_⟩
    obtain ⟨front, rfl⟩ := List.getLast?_eq_some_iff.1 hlast
    refine ⟨utf8Bytes front, utf8Bytes ('"' :: w), ?_⟩
    simp only [utf8Bytes_append, List.append_assoc]
    rfl

namespace Substitution

variable {s : Substitution}

/-- Backslashes are taken two by two, and neither they nor quotes are put in the place of anything. -/
structure KeepsQuotes (s : Substitution) : Prop where
  pair : ∀ rule ∈ s.rules, backslash ∈ rule.pattern → rule.pattern = [backslash, backslash]
  shown : ∀ rule ∈ s.rules, rule.output ≠ [] ∧ ∀ b ∈ rule.output, IsShown b

namespace KeepsQuotes

variable (h : s.KeepsQuotes)
include h

theorem not_mem_output {rule : Rule} (hm : rule ∈ s.rules) :
    quoteMark ∉ rule.output ∧ backslash ∉ rule.output :=
  ⟨fun hb => absurd ((h.shown rule hm).2 _ hb) (by decide),
    fun hb => absurd ((h.shown rule hm).2 _ hb) (by decide)⟩

theorem prefix_of_prefix_apply {w : Bytes} (hp : [backslash] <+: s.apply w) : [backslash] <+: w := by
  refine Substitution.prefix_of_prefix_apply (fun rule hm => ?_) hp
  rintro (hc | hb)
  · obtain ⟨a, output, hout⟩ := List.exists_cons_of_ne_nil (h.shown rule hm).1
    rw [hout] at hc
    obtain rfl : a = backslash := (comparable_cons_iff.1 hc).1
    exact (h.not_mem_output hm).2 (by simp [hout])
  · exact hb

/-- Behind a pattern the bytes go on behind an even run. -/
theorem foldl_leavesOdd_pattern {r : NumberedRule} {rest : Bytes}
    (hf : s.find? (r.1.pattern ++ rest) = some r) {odd : Bool}
    (hodd : odd = true → s.TakesPairs → (r.1.pattern ++ rest).head? ≠ some backslash) :
    r.1.pattern.foldl leavesOdd odd = false := by
  obtain ⟨hm, hne, -⟩ := mem_rules_of_find? hf
  by_cases hback : backslash ∈ r.1.pattern
  · have hpattern := h.pair r.1 hm hback
    cases odd with
    | false => simp [hpattern, leavesOdd]
    | true => exact absurd (by simp [hpattern]) (hodd rfl ⟨r.1, hm, hpattern⟩)
  · exact foldl_leavesOdd_of_not_mem hne hback odd

theorem quotesEscaped_apply {odd : Bool} {w : Bytes}
    (hodd : odd = true → s.TakesPairs → w.head? ≠ some backslash) (hw : QuotesEscaped odd w) :
    QuotesEscaped odd (s.apply w) := by
  induction w using scan_induction s generalizing odd with
  | nil => trivial
  | hit r rest hf ih =>
    obtain ⟨hm, -, -⟩ := mem_rules_of_find? hf
    obtain ⟨hquote, hback⟩ := h.not_mem_output hm
    rw [quotesEscaped_append, h.foldl_leavesOdd_pattern hf hodd] at hw
    rw [apply_hit hf, quotesEscaped_append, foldl_leavesOdd_of_not_mem (h.shown r.1 hm).1 hback]
    exact ⟨quotesEscaped_of_not_mem hquote odd, ih (by simp) hw.2⟩
  | miss b rest hf ih =>
    rw [apply_miss hf]
    refine ⟨hw.1, ih (fun hnext hpairs => ?_) hw.2⟩
    -- a run that goes on here would have been taken as a pair
    have hb : b = backslash := by
      by_contra hb
      simp [leavesOdd_of_ne hb] at hnext
    exact hpairs.head?_ne (hb ▸ hf)

/-- Pairs of backslashes are taken, or there are none. -/
theorem not_pair_infix_apply {w : Bytes} (hw : s.TakesPairs ∨ ¬ [backslash, backslash] <:+: w) :
    ¬ [backslash, backslash] <:+: s.apply w := by
  induction w using scan_induction s with
  | nil => simp
  | hit r rest hf ih =>
    have hback := (h.not_mem_output (mem_rules_of_find? hf).1).2
    have hrest : s.TakesPairs ∨ ¬ [backslash, backslash] <:+: rest :=
      hw.imp_right fun hnot hi => hnot (hi.trans (List.suffix_append _ _).isInfix)
    rw [apply_hit hf]
    exact fun hi => ih hrest (pair_infix_of_append hback hi)
  | miss b rest hf ih =>
    have hrest : s.TakesPairs ∨ ¬ [backslash, backslash] <:+: rest :=
      hw.imp_right fun hnot hi => hnot (hi.trans (List.suffix_cons b rest).isInfix)
    rw [apply_miss hf, List.infix_cons_iff, not_or]
    refine ⟨fun hp => ?_, ih hrest⟩
    obtain ⟨rfl, hnext⟩ := List.cons_prefix_cons.1 hp
    obtain ⟨tail, rfl⟩ := h.prefix_of_prefix_apply hnext
    rcases hw with hpairs | hnot
    · exact hpairs.head?_ne hf rfl
    · exact hnot (List.prefix_append [backslash, backslash] tail).isInfix

/-- Where no pattern begins with its letter, the escape of a byte keeps its backslash. -/
theorem backslashesCoded_apply (hcode : ∀ rule ∈ s.rules, rule.pattern.head? ≠ some byteCode)
    {w : Bytes} (hw : BackslashesCoded w) : BackslashesCoded (s.apply w) := by
  induction w using scan_induction s with
  | nil => trivial
  | hit r rest hf ih =>
    have hback := (h.not_mem_output (mem_rules_of_find? hf).1).2
    rw [apply_hit hf]
    exact (backslashesCoded_of_not_mem hback).append (ih hw.of_append)
  | miss b rest hf ih =>
    rw [apply_miss hf]
    refine ⟨fun hb => ?_, ih hw.2⟩
    obtain ⟨tail, rfl⟩ := List.head?_eq_some_iff.1 (hw.1 hb)
    rw [apply_miss (find?_cons_eq_none hcode tail)]
    rfl

end KeepsQuotes

end Substitution

end FontCodec
