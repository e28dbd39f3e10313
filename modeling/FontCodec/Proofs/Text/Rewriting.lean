import FontCodec.Proofs.FontBank.Tables
import FontCodec.Proofs.Text.CodePoint

/-!
# Rewriting texts character by character

A table made from texts looks for patterns at every byte and compares them by their bytes. Its result is
still that of the same scan over characters: no pattern matches inside of a character, and of two
patterns that open the same text the longer one has more characters.
-/

namespace FontCodec

theorem argmax_congr {α : Type} {f g : α → Nat} {items : List α}
    (h : ∀ a ∈ items, ∀ b ∈ items, f a < f b ↔ g a < g b) : items.argmax f = items.argmax g := by
  induction items using List.reverseRecOn with
  | nil => rfl
  | append_singleton items item ih =>
    have hitems : items.argmax f = items.argmax g :=
      ih fun a ha b hb => h a (by simp [ha]) b (by simp [hb])
    rw [List.argmax_concat, List.argmax_concat, hitems]
    cases hbest : items.argmax g with
    | none => rfl
    | some best =>
      have hstep := h best (by simp [List.argmax_mem hbest]) item (by simp)
      simp only [hstep]

/-- A replacement in terms of characters. -/
structure TextRule where
  pattern : String
  output : String
  deriving DecidableEq, Repr

namespace TextRule

variable {rules : List TextRule} {rule : TextRule} {chars : List Char}

def toBytes (rule : TextRule) : Rule := ⟨utf8 rule.pattern, utf8 rule.output⟩

theorem toBytes_pattern (rule : TextRule) : rule.toBytes.pattern = utf8Bytes rule.pattern.toList :=
  utf8_eq_utf8Bytes rule.pattern

theorem toBytes_output (rule : TextRule) : rule.toBytes.output = utf8Bytes rule.output.toList :=
  utf8_eq_utf8Bytes rule.output

def Opens (chars : List Char) (rule : TextRule) : Prop :=
  rule.pattern ≠ "" ∧ rule.pattern.toList <+: chars

instance : Decidable (rule.Opens chars) :=
  inferInstanceAs (Decidable (rule.pattern ≠ "" ∧ rule.pattern.toList <+: chars))

/-- The first of the rules that open the characters with the most characters of their own. -/
def choose? (rules : List TextRule) (chars : List Char) : Option TextRule :=
  (rules.filter fun rule => rule.Opens chars).argmax fun rule => rule.pattern.length

theorem of_choose? (h : choose? rules chars = some rule) : rule ∈ rules ∧ rule.Opens chars := by
  simpa using List.mem_filter.1 (List.argmax_mem h)

/-- Works through characters from left to right: the output of the rule that is chosen stands for its
pattern, of which one character is gone already, and where there is none one character is copied. -/
def rewrite (rules : List TextRule) : List Char → List Char
  | [] => []
  | c :: rest =>
    match choose? rules (c :: rest) with
    | some rule => rule.output.toList ++ rewrite rules (rest.drop (rule.pattern.length - 1))
    | none => c :: rewrite rules rest
termination_by chars => chars.length
decreasing_by
  · rw [List.length_drop, List.length_cons]
    omega
  · exact Nat.lt_add_one rest.length

theorem drop_of_opens {c : Char} {rest tail : List Char} (hne : rule.pattern ≠ "")
    (htail : rule.pattern.toList ++ tail = c :: rest) : rest.drop (rule.pattern.length - 1) = tail := by
  obtain ⟨d, pattern, hpattern⟩ :=
    List.exists_cons_of_ne_nil fun hnil => hne (String.toList_eq_nil_iff.1 hnil)
  rw [hpattern, List.cons_append] at htail
  have hrest : rest = pattern ++ tail := (List.cons.inj htail).2.symm
  rw [← String.length_toList, hpattern, hrest]
  exact List.drop_left

theorem ofTexts_toBytes (rules : List TextRule) : (Substitution.ofRules (rules.map toBytes)).OfTexts := by
  intro rule hm
  obtain ⟨r, -, rfl⟩ := List.mem_map.1 hm
  exact ⟨r.pattern.toList, r.toBytes_pattern⟩

theorem opens_iff : rule.Opens chars ↔
    rule.toBytes.pattern ≠ [] ∧ rule.toBytes.pattern <+: utf8Bytes chars := by
  rw [Opens, toBytes_pattern, utf8Bytes_prefix_iff, ne_eq, ne_eq, utf8Bytes_eq_nil_iff,
    String.toList_eq_nil_iff]

/-- In front of whole characters the bytes choose the same rule. -/
theorem map_fst_find?_utf8Bytes (rules : List TextRule) (chars : List Char) :
    ((Substitution.ofRules (rules.map toBytes)).find? (utf8Bytes chars)).map Prod.fst =
      (choose? rules chars).map toBytes := by
  rw [Substitution.map_fst_find?, Substitution.ofRules, longest?_map, longest?_eq_argmax, choose?]
  have hopens : (rules.filter fun rule => rule.toBytes.pattern ≠ [] ∧
      rule.toBytes.pattern <+: utf8Bytes chars) = rules.filter fun rule => rule.Opens chars :=
    List.filter_congr fun rule _ => decide_eq_decide.2 opens_iff.symm
  rw [hopens]
  congr 1
  refine argmax_congr fun a ha b hb => ?_
  have ha : a.Opens chars := by simpa using (List.mem_filter.1 ha).2
  have hb : b.Opens chars := by simpa using (List.mem_filter.1 hb).2
  rw [toBytes_pattern, toBytes_pattern, length_utf8Bytes_lt_iff ha.2 hb.2, String.length_toList,
    String.length_toList]

theorem apply_utf8Bytes (rules : List TextRule) (chars : List Char) :
    (Substitution.ofRules (rules.map toBytes)).apply (utf8Bytes chars) =
      utf8Bytes (rewrite rules chars) := by
  fun_induction rewrite rules chars with
  | case1 => rfl
  | case2 c rest rule hc ih =>
    have hchoice := map_fst_find?_utf8Bytes rules (c :: rest)
    rw [hc, Option.map_some, Option.map_eq_some_iff] at hchoice
    obtain ⟨r, hf, hr⟩ := hchoice
    obtain ⟨hne, tail, htail⟩ := (of_choose? hc).2
    rw [drop_of_opens hne htail] at ih ⊢
    have hsplit : utf8Bytes (c :: rest) = r.1.pattern ++ utf8Bytes tail := by
      rw [← htail, utf8Bytes_append, hr, toBytes_pattern]
    rw [hsplit] at hf ⊢
    rw [Substitution.apply_hit hf, ih, hr, toBytes_output, utf8Bytes_append]
  | case3 c rest hc ih =>
    have hmiss := map_fst_find?_utf8Bytes rules (c :: rest)
    rw [hc, Option.map_none, Option.map_eq_none_iff] at hmiss
    have hskip := Substitution.apply_char (ofTexts_toBytes rules) hmiss
    rw [utf8Bytes_cons c (rewrite rules rest), ← ih]
    exact hskip

/-- Made from the UTF-8 forms of texts, a table rewrites the UTF-8 form of a text into that of the same
scan over characters. -/
theorem apply_utf8 (rules : List TextRule) (text : String) :
    (Substitution.ofRules (rules.map toBytes)).apply (utf8 text) =
      utf8 (String.ofList (rewrite rules text.toList)) := by
  rw [utf8_eq_utf8Bytes, apply_utf8Bytes]
  exact (utf8_ofList _).symm

/-- Of patterns with as many characters the first one is taken, and an empty one never. -/
example : rewrite [⟨"é", "1"⟩, ⟨"", "2"⟩, ⟨"éa", "3"⟩, ⟨"éa", "4"⟩] ['é', 'é', 'a', 'b'] =
    ['1', '3', 'b'] := by cbv

end TextRule

namespace FontBank

/-- Composites are expanded in a text character by character. -/
theorem compositesToGame_utf8Bytes (bank : FontBank) (chars : List Char) :
    bank.compositesToGame.apply (utf8Bytes chars) =
      utf8Bytes (TextRule.rewrite (bank.composites.map fun c => ⟨c.readable, c.game⟩) chars) := by
  rw [← TextRule.apply_utf8Bytes, List.map_map, bank.compositesToGame_eq]
  rfl

theorem compositesToReadable_utf8Bytes (bank : FontBank) (chars : List Char) :
    bank.compositesToReadable.apply (utf8Bytes chars) =
      utf8Bytes (TextRule.rewrite (bank.composites.map fun c => ⟨c.game, c.readable⟩) chars) := by
  rw [← TextRule.apply_utf8Bytes, List.map_map, bank.compositesToReadable_eq]
  rfl

end FontBank

end FontCodec
