import FontCodec.Proofs.Substitution.Scan
import FontCodec.Proofs.Text.EscapeSyntax
import Mathlib.Data.List.Induction

/-!
# Runs of backslashes

A table may hold a pair of backslashes as a pattern. A scan then reads a run of backslashes two by two,
and a backslash behind the run is read apart from it if the run is even. The escaping pass only makes
even runs.
-/

namespace FontCodec

/-- Whether the last backslash is left over when backslashes are read two by two. -/
def leavesOdd (odd : Bool) (b : UInt8) : Bool := b = backslash && !odd

def endsOdd (bytes : Bytes) : Bool := bytes.foldl leavesOdd false

theorem endsOdd_append (u w : Bytes) : endsOdd (u ++ w) = w.foldl leavesOdd (endsOdd u) :=
  List.foldl_append

@[simp] theorem leavesOdd_of_ne {odd : Bool} {b : UInt8} (h : b ≠ backslash) :
    leavesOdd odd b = false := by
  simp [leavesOdd, h]

theorem foldl_leavesOdd_cons {odd : Bool} {b : UInt8} (h : b ≠ backslash) (w : Bytes) :
    (b :: w).foldl leavesOdd odd = endsOdd w := by
  rw [List.foldl_cons, leavesOdd_of_ne h]
  rfl

theorem endsOdd_cons {b : UInt8} (h : b ≠ backslash) (w : Bytes) : endsOdd (b :: w) = endsOdd w :=
  foldl_leavesOdd_cons h w

theorem endsOdd_pair_append (w : Bytes) : endsOdd ([backslash, backslash] ++ w) = endsOdd w := rfl

/-- Behind a byte that makes no pair with it, the bytes end as they end alone. -/
theorem endsOdd_of_cons {b : UInt8} {w : Bytes} (h : endsOdd (b :: w) = false)
    (hb : b = backslash → w.head? ≠ some backslash) : endsOdd w = false := by
  cases w with
  | nil => rfl
  | cons c w =>
    by_cases hc : c = backslash
    · have hne : b ≠ backslash := fun heq => hb heq (by simp [hc])
      rwa [endsOdd_cons hne] at h
    · rw [endsOdd, List.foldl_cons, foldl_leavesOdd_cons hc] at h
      rwa [endsOdd_cons hc]

theorem endsOdd_append_of_not_mem {u : Bytes} (h : backslash ∉ u) (w : Bytes) :
    endsOdd (u ++ w) = endsOdd w := by
  induction u with
  | nil => rfl
  | cons b u ih =>
    have hb : b ≠ backslash := fun heq => h (by simp [heq])
    rw [List.cons_append, endsOdd_cons hb, ih fun hm => h (by simp [hm])]

theorem foldl_leavesOdd_of_not_mem {u : Bytes} (hne : u ≠ []) (h : backslash ∉ u) (odd : Bool) :
    u.foldl leavesOdd odd = false := by
  cases u with
  | nil => exact absurd rfl hne
  | cons b u =>
    rw [List.mem_cons, not_or] at h
    rw [foldl_leavesOdd_cons (Ne.symm h.1)]
    simpa [endsOdd] using endsOdd_append_of_not_mem h.2 []

/-- A single backslash ends the bytes, and it stands behind bytes that end evenly. -/
theorem exists_of_endsOdd {u : Bytes} (h : endsOdd u = true) :
    ∃ v, u = v ++ [backslash] ∧ endsOdd v = false := by
  induction u using List.reverseRecOn with
  | nil => simp [endsOdd] at h
  | append_singleton v b _ =>
    rw [endsOdd_append, List.foldl_cons, List.foldl_nil, leavesOdd, Bool.and_eq_true,
      decide_eq_true_eq, Bool.not_eq_true'] at h
    exact ⟨v, by rw [h.1], h.2⟩

/-- The escaping pass doubles every backslash, but for one in front of the letter that makes it an
escape. -/
theorem endsOdd_escape (u : Bytes) : endsOdd (escape u) = false := by
  induction u with
  | nil => rfl
  | cons b rest ih =>
    rcases escape_cons_cases b rest with ⟨tail, rfl, rfl⟩ | ⟨letter, hescape, -⟩ | ⟨hs, hescape⟩
    · rw [escape_cons_of_not_special (by decide), endsOdd_cons (by decide)] at ih
      rw [escape_backslash_byteCode]
      exact ih
    · rw [hescape]
      simpa [endsOdd, leavesOdd] using ih
    · rw [hescape, endsOdd_cons fun hb => hs (.inl hb), ih]

/-- Every backslash opens the escape of a byte. -/
def BackslashesCoded : Bytes → Prop
  | [] => True
  | b :: rest => (b = backslash → rest.head? = some byteCode) ∧ BackslashesCoded rest

theorem backslashesCoded_of_not_mem {u : Bytes} (h : backslash ∉ u) : BackslashesCoded u := by
  induction u with
  | nil => trivial
  | cons b u ih =>
    rw [List.mem_cons, not_or] at h
    exact ⟨fun hb => absurd hb.symm h.1, ih h.2⟩

theorem backslashesCoded_byteEscape (b : UInt8) : BackslashesCoded (byteEscape b) := by
  obtain ⟨high, low, he, hh, hl, -⟩ := exists_byteEscape b
  have hmem : backslash ∉ [byteCode, high, low] := by
    simp only [List.mem_cons, List.not_mem_nil, or_false, not_or]
    exact ⟨by decide, fun hb => hh.not_special (.inl hb.symm), fun hb => hl.not_special (.inl hb.symm)⟩
  rw [he]
  exact ⟨fun _ => rfl, backslashesCoded_of_not_mem hmem⟩

namespace BackslashesCoded

theorem append {u w : Bytes} (hu : BackslashesCoded u) (hw : BackslashesCoded w) :
    BackslashesCoded (u ++ w) := by
  induction u with
  | nil => exact hw
  | cons b u ih =>
    refine ⟨fun hb => ?_, ih hu.2⟩
    obtain ⟨tail, rfl⟩ := List.head?_eq_some_iff.1 (hu.1 hb)
    rfl

theorem of_append {u w : Bytes} (h : BackslashesCoded (u ++ w)) : BackslashesCoded w := by
  induction u with
  | nil => exact h
  | cons b u ih => exact ih h.2

/-- Escaping doubles no backslash that opens an escape. -/
theorem not_pair_infix_escape {w : Bytes} (h : BackslashesCoded w) :
    ¬ [backslash, backslash] <:+: escape w := by
  induction w with
  | nil => simp [escape]
  | cons b rest ih =>
    intro hi
    refine ih h.2 ?_
    rcases escape_cons_cases b rest with ⟨tail, rfl, rfl⟩ | ⟨letter, hescape, hletter⟩ | ⟨hs, hescape⟩
    · have hcode : escape (byteCode :: tail) = [byteCode] ++ escape tail :=
        escape_cons_of_not_special (by decide) tail
      rw [escape_backslash_byteCode] at hi
      rw [hcode]
      exact (pair_infix_of_escape (u := [byteCode]) (by simp) (by decide) hi).trans
        (List.suffix_append _ _).isInfix
    · have hne : letter ≠ backslash := fun hl => (hletter hl).2 (h.1 (hletter hl).1)
      rw [hescape] at hi
      exact pair_infix_of_escape (u := [letter]) (by simp) (by simpa using hne.symm) hi
    · have hb : b ≠ backslash := fun hb => hs (.inl hb)
      rw [hescape] at hi
      exact pair_infix_of_append (u := [b]) (by simpa using hb.symm) hi

end BackslashesCoded

namespace Substitution

variable {s : Substitution}

def TakesPairs (s : Substitution) : Prop := ∃ rule ∈ s.rules, rule.pattern = [backslash, backslash]

theorem TakesPairs.head?_ne (h : s.TakesPairs) {rest : Bytes}
    (hf : s.find? (backslash :: rest) = none) : rest.head? ≠ some backslash := by
  obtain ⟨rule, hm, hpattern⟩ := h
  intro hhead
  obtain ⟨tail, rfl⟩ := List.head?_eq_some_iff.1 hhead
  refine find?_eq_none_iff.1 hf rule hm (by simp [hpattern]) ?_
  rw [hpattern]
  exact List.prefix_append [backslash, backslash] tail

section

variable (hback : ∀ rule ∈ s.rules, backslash ∈ rule.pattern → rule.pattern = [backslash, backslash])
include hback

theorem endsOdd_pattern_append {rule : Rule} (hm : rule ∈ s.rules) (w : Bytes) :
    endsOdd (rule.pattern ++ w) = endsOdd w := by
  by_cases hb : backslash ∈ rule.pattern
  · rw [hback rule hm hb, endsOdd_pair_append]
  · exact endsOdd_append_of_not_mem hb w

/-- A pattern that opens bytes with an even run ends in front of a backslash behind them. -/
theorem prefix_of_prefix_append_backslash {rule : Rule} (hm : rule ∈ s.rules) {v w : Bytes}
    (hne : v ≠ []) (hv : endsOdd v = false) (hp : rule.pattern <+: v ++ backslash :: w) :
    rule.pattern <+: v := by
  rcases prefix_append_cases hp with hpv | ⟨y, hy, hyw⟩
  · exact hpv
  · cases y with
    | nil =>
      have hpattern : rule.pattern = v := by rw [hy, List.append_nil]
      exact hpattern ▸ List.prefix_refl _
    | cons a y =>
      obtain ⟨rfl, -⟩ := List.cons_prefix_cons.1 hyw
      have hpattern := hback rule hm (by simp [hy])
      rw [hpattern] at hy
      match v, hne, hv, hy with
      | [b], _, hv, hy =>
        obtain ⟨rfl, -⟩ := List.cons.inj hy
        exact absurd hv (by decide)
      | b :: c :: v, _, _, hy =>
        have := congrArg List.length hy
        simp at this

theorem find?_append_backslash {v : Bytes} (hne : v ≠ []) (hv : endsOdd v = false) (w : Bytes) :
    s.find? (v ++ backslash :: w) = s.find? v :=
  find?_congr fun _ hm => ⟨prefix_of_prefix_append_backslash hback hm hne hv,
    fun hp => hp.trans (List.prefix_append _ _)⟩

theorem TakesPairs.apply_append_backslash (hpairs : s.TakesPairs) {u : Bytes}
    (hu : endsOdd u = false) (w : Bytes) :
    s.apply (u ++ backslash :: w) = s.apply u ++ s.apply (backslash :: w) := by
  induction u using scan_induction s with
  | nil => rfl
  | hit r rest hf ih =>
    obtain ⟨hm, hne, -⟩ := mem_rules_of_find? hf
    have hrest : endsOdd rest = false := by rwa [endsOdd_pattern_append hback hm] at hu
    have hf' : s.find? (r.1.pattern ++ (rest ++ backslash :: w)) = some r := by
      rw [← List.append_assoc, find?_append_backslash hback (by simp [hne]) hu, hf]
    rw [List.append_assoc, apply_hit hf', apply_hit hf, ih hrest, List.append_assoc]
  | miss b rest hf ih =>
    have hrest : endsOdd rest = false :=
      endsOdd_of_cons hu fun hb => hpairs.head?_ne (hb ▸ hf)
    have hf' : s.find? (b :: (rest ++ backslash :: w)) = none := by
      rw [← List.cons_append, find?_append_backslash hback (by simp) hu, hf]
    rw [List.cons_append, apply_miss hf', apply_miss hf, ih hrest]
    rfl

/-- A backslash behind an even run is read apart from what stands in front of it. -/
theorem apply_append_backslash {u : Bytes} (w : Bytes) (h : s.TakesPairs → endsOdd u = false) :
    s.apply (u ++ backslash :: w) = s.apply u ++ s.apply (backslash :: w) := by
  by_cases hpairs : s.TakesPairs
  · exact hpairs.apply_append_backslash hback (h hpairs) w
  · exact apply_append
      (cleanCut_of_not_mem (fun rule hm hb => hpairs ⟨rule, hm, hback rule hm hb⟩) u w)

end

end Substitution

end FontCodec
