import FontCodec.Bytes

/-!
# UTF-8

The UTF-8 form of a text, the strict reading of bytes as text, and the one character that a byte
window starts with.
-/

namespace FontCodec

def utf8 (text : String) : Bytes := text.toUTF8.data.toList

/-- The text with the given UTF-8 bytes, if they are well-formed. -/
def text? (bytes : Bytes) : Option String := String.fromUTF8? bytes.toByteArray

/-- The character whose UTF-8 form opens the bytes. Overlong forms, surrogates and values past the
last code point are no characters. -/
def firstChar? (bytes : Bytes) : Option Char := bytes.toByteArray.utf8DecodeChar? 0

/-- The character at the front of the bytes, or the replacement character where they are
malformed. A character takes four bytes at most, so no more are looked at. -/
def characterAt (bytes : Bytes) : Char := (firstChar? (bytes.take 4)).getD '\uFFFD'

theorem utf8_ofList (chars : List Char) :
    utf8 (String.ofList chars) = chars.flatMap String.utf8EncodeChar := by
  simp [utf8, List.utf8Encode]

theorem utf8_eq_flatMap (text : String) : utf8 text = text.toList.flatMap String.utf8EncodeChar := by
  rw [← utf8_ofList, String.ofList_toList]

theorem utf8_append (a b : String) : utf8 (a ++ b) = utf8 a ++ utf8 b := by
  simp [utf8_eq_flatMap]

end FontCodec
