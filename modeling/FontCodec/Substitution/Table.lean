import FontCodec.Substitution.Match

/-!
# Substitutions

A substitution is a list of rules for one direction, indexed by the first byte of their patterns.
It works through a buffer from left to right: where a rule matches, its output is emitted and the pattern
skipped, and every other byte is handed to a copying function.

`find?_eq_longest?` says that the index never changes which rule is chosen.
-/

namespace FontCodec

def NumberedRule.opensWith (b : UInt8) (r : NumberedRule) : Bool := r.1.pattern.head? = some b

/-- Rules of one direction with an index by first byte. -/
structure Substitution where
  rules : List Rule
  index : Vector (List NumberedRule) 256
  index_eq : index = Vector.ofFn (fun b : Fin 256 =>
    rules.zipIdx.filter (NumberedRule.opensWith (UInt8.ofNat b.val)))

structure OutOfRange where
  offset : Int
  deriving DecidableEq, Repr

namespace Substitution

def ofRules (rules : List Rule) : Substitution := ⟨rules, _, rfl⟩

def size (s : Substitution) : Nat := s.rules.length

def bucket (s : Substitution) (b : UInt8) : List NumberedRule := s.index.get ⟨b.toNat, b.toNat_lt⟩

/-- The rule chosen at the front of a window. -/
def find? (s : Substitution) (window : Bytes) : Option NumberedRule :=
  match window with
  | [] => none
  | b :: _ => longest? (fun r => r.1.pattern) window (s.bucket b)

/-- The rule chosen at an offset of a buffer, which has to begin inside the buffer or behind it. -/
def findAt (s : Substitution) (buffer : Bytes) (offset : Int) :
    Except OutOfRange (Option NumberedRule) :=
  if offset < -buffer.length then .error ⟨offset⟩
  else .ok (s.find? (windowAt buffer offset))

/-- Replaces in a buffer whose first `skip` bytes are already consumed. -/
def replaceFrom (s : Substitution) (copy : UInt8 → Bytes) : Nat → Bytes → Bytes
  | _, [] => []
  | skip + 1, _ :: rest => replaceFrom s copy skip rest
  | 0, b :: rest =>
    match s.find? (b :: rest) with
    | some (rule, _) => rule.output ++ replaceFrom s copy (rule.pattern.length - 1) rest
    | none => copy b ++ replaceFrom s copy 0 rest

/-- Replaces in a buffer; `copy` spells the bytes that no rule consumes. -/
def replace (s : Substitution) (copy : UInt8 → Bytes) (buffer : Bytes) : Bytes :=
  replaceFrom s copy 0 buffer

/-- Replaces in a buffer and keeps the bytes that no rule consumes. -/
def apply (s : Substitution) (buffer : Bytes) : Bytes := s.replace (fun b => [b]) buffer

theorem bucket_eq (s : Substitution) (b : UInt8) :
    s.bucket b = s.rules.zipIdx.filter (NumberedRule.opensWith b) := by
  simp [bucket, s.index_eq, Vector.get]

theorem foldl_longer_filter (b : UInt8) (rest : Bytes) (items : List NumberedRule)
    (best : Option NumberedRule) :
    (items.filter (NumberedRule.opensWith b)).foldl
        (longer (fun r => r.1.pattern) (b :: rest)) best =
      items.foldl (longer (fun r => r.1.pattern) (b :: rest)) best := by
  induction items generalizing best with
  | nil => rfl
  | cons item items ih =>
    rw [List.filter_cons]
    split
    · rw [List.foldl_cons, List.foldl_cons, ih]
    · rename_i h
      have hstep : longer (fun r : NumberedRule => r.1.pattern) (b :: rest) best item = best := by
        rw [longer, if_neg]
        rintro ⟨hlen, hpre⟩
        cases hp : item.1.pattern with
        | nil => simp [hp] at hlen
        | cons a tail =>
          rw [hp] at hpre
          have : a = b := by simpa using (List.isPrefixOf_iff_prefix.1 hpre).head (by simp)
          exact h (by simp [NumberedRule.opensWith, hp, this])
      rw [List.foldl_cons, hstep, ih]

/-- The index gives the rule that going through all rules gives. -/
theorem find?_eq_longest? (s : Substitution) (window : Bytes) :
    s.find? window = longest? (fun r => r.1.pattern) window s.rules.zipIdx := by
  cases window with
  | nil =>
    rw [find?]
    rcases h : longest? (fun r : NumberedRule => r.1.pattern) [] s.rules.zipIdx with _ | r
    · rfl
    · have hr := longest?_some h
      have := List.prefix_nil.1 hr.2.2
      simp [this] at hr
  | cons b rest =>
    rw [find?, bucket_eq]
    exact foldl_longer_filter b rest _ none

theorem replaceFrom_eq_drop (s : Substitution) (copy : UInt8 → Bytes) (skip : Nat)
    (buffer : Bytes) :
    s.replaceFrom copy skip buffer = s.replace copy (buffer.drop skip) := by
  induction buffer generalizing skip with
  | nil => cases skip <;> simp [replace, replaceFrom]
  | cons b rest ih =>
    cases skip with
    | zero => rfl
    | succ skip => rw [replaceFrom, ih]; rfl

@[simp] theorem replace_nil (s : Substitution) (copy : UInt8 → Bytes) : s.replace copy [] = [] := rfl

theorem replace_of_find?_eq_some {s : Substitution} {copy : UInt8 → Bytes} {buffer : Bytes}
    {r : NumberedRule} (h : s.find? buffer = some r) :
    s.replace copy buffer = r.1.output ++ s.replace copy (buffer.drop r.1.pattern.length) := by
  cases buffer with
  | nil => simp [find?] at h
  | cons b rest =>
    have hr := longest?_some ((find?_eq_longest? s _).symm.trans h)
    obtain ⟨n, hn⟩ : ∃ n, r.1.pattern.length = n + 1 :=
      ⟨r.1.pattern.length - 1, by have := hr.2.1; omega⟩
    rw [replace, replaceFrom, h]
    simp only [hn, Nat.add_sub_cancel, replaceFrom_eq_drop, List.drop_succ_cons]

theorem replace_of_find?_eq_none {s : Substitution} {copy : UInt8 → Bytes} {b : UInt8}
    {rest : Bytes} (h : s.find? (b :: rest) = none) :
    s.replace copy (b :: rest) = copy b ++ s.replace copy rest := by
  rw [replace, replaceFrom, h]
  rfl

end Substitution

end FontCodec
