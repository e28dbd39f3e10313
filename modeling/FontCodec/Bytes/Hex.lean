import FontCodec.Bytes

/-!
# Hexadecimal spellings of bytes

A byte is written as two lower-case digits. The reader takes digits of either case and blanks
between bytes, and reports where the text stops being a list of bytes. `readDigits_dump` is the
law that ties the two together.
-/

namespace FontCodec.Hex

/-- The lower-case digit of a number below sixteen. -/
def digit (n : Nat) : Char := Nat.digitChar n

/-- The value of a hexadecimal digit of either case. -/
def value? (c : Char) : Option Nat :=
  if '0' ≤ c ∧ c ≤ '9' then some (c.toNat - 48)
  else if 'a' ≤ c ∧ c ≤ 'f' then some (c.toNat - 87)
  else if 'A' ≤ c ∧ c ≤ 'F' then some (c.toNat - 55)
  else none

/-- The value of a byte that spells a hexadecimal digit. -/
def byteValue? (b : UInt8) : Option Nat := value? (Char.ofNat b.toNat)

/-- The byte whose upper and lower halves are the given numbers below sixteen. -/
def join (high low : Nat) : UInt8 := UInt8.ofNat (16 * high + low)

def digits (b : UInt8) : List Char := [digit (b.toNat / 16), digit (b.toNat % 16)]

/-- The digits of all bytes, two by two, with `separator` between bytes. -/
def dump (separator : List Char) : Bytes → List Char
  | [] => []
  | [b] => digits b
  | b :: c :: rest => digits b ++ (separator ++ dump separator (c :: rest))

/-- The digits of all bytes with nothing between them. -/
def compact (bytes : Bytes) : String := String.ofList (dump [] bytes)

/-- The digits of all bytes with a space between bytes. -/
def spaced (bytes : Bytes) : String := String.ofList (dump [' '] bytes)

/-- Bytes for a person to read, with a word where there are none. -/
def shown (bytes : Bytes) : String := if bytes.isEmpty then "<empty>" else spaced bytes

/-- The blanks that may stand between bytes: space, tab, line feed, vertical tab, form feed and
carriage return. -/
def isBlank (c : Char) : Bool := c = ' ' || ('\t' ≤ c && c ≤ '\r')

/-- Reads pairs of digits with blanks between pairs. The error is the position of the first
character that is no digit where one has to stand; `position` is that of the first character. -/
def readDigits (position : Nat) : List Char → Except Nat Bytes
  | [] => .ok []
  | c :: rest =>
    if isBlank c then readDigits (position + 1) rest
    else match value? c with
      | none => .error position
      | some high => match rest with
        | [] => .error (position + 1)
        | d :: tail => match value? d with
          | none => .error (position + 1)
          | some low => (readDigits (position + 2) tail).map (join high low :: ·)

def nonAsciiIndex? (text : List Char) : Option Nat := text.findIdx? (fun c => c.toNat ≥ 128)

/-- Reads a list of bytes. A character outside ASCII is reported before any other fault. -/
def read (text : String) : Except Nat Bytes :=
  match nonAsciiIndex? text.toList with
  | some position => .error position
  | none => readDigits 0 text.toList

/-- The digits of a number, without leading zeros. -/
def ofNat (n : Nat) : String := String.ofList (Nat.toDigits 16 n)

/-- A number with the mark `0x`, and a minus sign in front of the mark when it is negative. -/
def ofInt (n : Int) : String :=
  (if n < 0 then "-0x" else "0x") ++ ofNat n.natAbs

theorem value?_digit {n : Nat} (h : n < 16) : value? (digit n) = some n := by
  have all : ∀ m : Fin 16, value? (digit m) = some m.val := by decide
  exact all ⟨n, h⟩

theorem join_halves (b : UInt8) : join (b.toNat / 16) (b.toNat % 16) = b := by
  simp [join, Nat.div_add_mod]

theorem isBlank_eq_false_of_digit {c : Char} {n : Nat} (h : value? c = some n) :
    isBlank c = false := by
  have key : isBlank c = true → value? c = none := by
    intro hb
    simp only [isBlank, Bool.or_eq_true, decide_eq_true_eq, Bool.and_eq_true] at hb
    rcases hb with rfl | ⟨h1, h2⟩
    · decide
    · have hn : c.toNat ≤ 13 := by simpa [Char.le_def, UInt32.le_iff_toNat_le] using h2
      simp only [value?, Char.le_def, UInt32.le_iff_toNat_le]
      have h0 : ('0' : Char).val.toNat = 48 := rfl
      have ha : ('a' : Char).val.toNat = 97 := rfl
      have hA : ('A' : Char).val.toNat = 65 := rfl
      have hc : c.val.toNat = c.toNat := rfl
      simp only [h0, ha, hA, hc]
      repeat rw [if_neg (by omega)]
  cases hb : isBlank c with
  | false => rfl
  | true => rw [key hb] at h; cases h

theorem readDigits_blanks {blanks : List Char} (h : ∀ c ∈ blanks, isBlank c = true)
    (position : Nat) (rest : List Char) :
    readDigits position (blanks ++ rest) = readDigits (position + blanks.length) rest := by
  induction blanks generalizing position with
  | nil => rfl
  | cons c blanks ih =>
    have hc : isBlank c = true := h c (by simp)
    rw [List.cons_append, readDigits.eq_def]
    simp only [hc, if_true]
    rw [ih (fun d hd => h d (by simp [hd]))]
    rw [List.length_cons, Nat.add_assoc, Nat.add_comm 1]

theorem readDigits_digits (b : UInt8) (position : Nat) (rest : List Char) :
    readDigits position (digits b ++ rest) =
      (readDigits (position + 2) rest).map (b :: ·) := by
  have hb := b.toNat_lt
  have h1 := value?_digit (show b.toNat / 16 < 16 by omega)
  have h2 := value?_digit (show b.toNat % 16 < 16 by omega)
  simp only [digits, List.cons_append, List.nil_append]
  rw [readDigits.eq_def]
  simp only [isBlank_eq_false_of_digit h1, h1, h2, join_halves]
  simp

/-- Reading a dump gives the bytes back, at any position and with any blanks between bytes. -/
theorem readDigits_dump {separator : List Char} (h : ∀ c ∈ separator, isBlank c = true)
    (position : Nat) (bytes : Bytes) :
    readDigits position (dump separator bytes) = .ok bytes := by
  induction bytes generalizing position with
  | nil => rfl
  | cons b bytes ih =>
    cases bytes with
    | nil =>
      have := readDigits_digits b position []
      simp only [List.append_nil] at this
      rw [dump, this]
      rfl
    | cons c bytes => rw [dump, readDigits_digits, readDigits_blanks h, ih]; rfl

end FontCodec.Hex
