import FontCodec.Bytes.Hex
import FontCodec.Glyph

/-!
# Glyphs and composites that the built-in fonts share

Glyphs of one page mostly have consecutive codes, so tables list their characters in order. Kana with
a voicing mark are composed in one way in every font.
-/

namespace FontCodec.BuiltIn

/-- Glyphs with consecutive codes on a page; a page is named by the byte in front of the code. -/
def named (page : Bytes) (start : Nat) (names : List String) : List Glyph :=
  names.zipIdx.map (fun (chars, i) => ⟨chars, page ++ [UInt8.ofNat (start + i)]⟩)

/-- Glyphs of single characters with consecutive codes. -/
def series (page : Bytes) (start : Nat) (chars : List Char) : List Glyph :=
  named page start (chars.map Char.toString)

/-- The name of a jamo glyph: the number of its page and its code, in hexadecimal. -/
def jamoName (page : Nat) (code : UInt8) : String :=
  String.ofList (['<', 'H', Hex.digit page] ++ Hex.digits code ++ ['>'])

def jamoSeries (page start count : Nat) : List Glyph :=
  (List.range count).map (fun i =>
    let code := UInt8.ofNat (start + i)
    ⟨jamoName page code, [UInt8.ofNat page, code]⟩)

/-- Kana and their marks, in the order of their codes. -/
def kana : List Char := [
    '・', '゛', '゜', 'ー', '『', '』', 'ぁ', 'あ', 'ぃ', 'い', 'ぅ', 'う',
    'ぇ', 'え', 'ぉ', 'お', 'か', 'き', 'く', 'け', 'こ', 'さ', 'し', 'す',
    'せ', 'そ', 'た', 'ち', 'っ', 'つ', 'て', 'と', 'な', 'に', 'ぬ', 'ね',
    'の', 'は', 'ひ', 'ふ', 'へ', 'ほ', 'ま', 'み', 'む', 'め', 'も', 'ゃ',
    'や', 'ゅ', 'ゆ', 'ょ', 'よ', 'ら', 'り', 'る', 'れ', 'ろ', 'ゎ', 'わ',
    'を', 'ん', 'ァ', 'ア', 'ィ', 'イ', 'ゥ', 'ウ', 'ェ', 'エ', 'ォ', 'オ',
    'カ', 'キ', 'ク', 'ケ', 'コ', 'サ', 'シ', 'ス', 'セ', 'ソ', 'タ', 'チ',
    'ッ', 'ツ', 'テ', 'ト', 'ナ', 'ニ', 'ヌ', 'ネ', 'ノ', 'ハ', 'ヒ', 'フ',
    'ヘ', 'ホ', 'マ', 'ミ', 'ム', 'メ', 'モ', 'ャ', 'ヤ', 'ュ', 'ユ', 'ョ',
    'ヨ', 'ラ', 'リ', 'ル']

/-- Composites that set a voicing mark on kana: the kana is drawn without moving on, and the mark
after it. -/
def marked (mark : Char) (kana : List (Char × Char)) : List Composite :=
  kana.map (fun (base, result) =>
    ⟨String.ofList ['~', 'Y', base, '~', 'Z', mark], result.toString⟩)

def kanaComposites : List Composite :=
    marked '゛' [
      ('ウ', 'ヴ'), ('カ', 'ガ'), ('キ', 'ギ'), ('ク', 'グ'), ('ケ', 'ゲ'), ('コ', 'ゴ'), ('サ', 'ザ'), ('シ', 'ジ'),
      ('ス', 'ズ'), ('セ', 'ゼ'), ('ソ', 'ゾ'), ('タ', 'ダ'), ('チ', 'ヂ'), ('ツ', 'ヅ'), ('テ', 'デ'), ('ト', 'ド'),
      ('ハ', 'バ'), ('ヒ', 'ビ'), ('フ', 'ブ'), ('ヘ', 'ベ'), ('ホ', 'ボ')] ++
    marked '゜' [
      ('ハ', 'パ'), ('ヒ', 'ピ'), ('フ', 'プ'), ('ヘ', 'ペ'), ('ホ', 'ポ')] ++
    marked '゛' [
      ('か', 'が'), ('き', 'ぎ'), ('く', 'ぐ'), ('け', 'げ'), ('こ', 'ご'), ('さ', 'ざ'), ('し', 'じ'), ('す', 'ず'),
      ('せ', 'ぜ'), ('そ', 'ぞ'), ('た', 'だ'), ('ち', 'ぢ'), ('つ', 'づ'), ('て', 'で'), ('と', 'ど'), ('は', 'ば'),
      ('ひ', 'び'), ('ふ', 'ぶ'), ('へ', 'べ'), ('ほ', 'ぼ')] ++
    marked '゜' [
      ('は', 'ぱ'), ('ひ', 'ぴ'), ('ふ', 'ぷ'), ('へ', 'ぺ'), ('ほ', 'ぽ')]

def punctuation : List Composite := [
    ⟨",~+8H", "、"⟩, ⟨"~+8H ", "　"⟩]

/-- The face buttons of the controller, drawn as coloured shapes on top of each other. -/
def faceButtons : List Composite := [
    ⟨"~Y~22L<~Z~Y~27L*~Z~Y~1L>~Z~Y~23L[~Z~+26H", "<PAD_X>"⟩,
    ⟨"~Y~22L<~Z~Y~26L;~Z~Y~1L>~Z~Y~23L[~Z~+26H", "<PAD_TRIANGLE>"⟩,
    ⟨"~Y~22L<~Z~Y~25L@~Z~Y~1L>~Z~Y~23L[~Z~+26H", "<PAD_CIRCLE>"⟩,
    ⟨"~Y~22L<~Z~Y~24L#~Z~Y~1L>~Z~Y~23L[~Z~+26H", "<PAD_SQUARE>"⟩]

end FontCodec.BuiltIn
