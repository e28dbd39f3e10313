import FontCodec.BuiltIn.Shared

/-!
# The fonts of the first game

Both versions have one table, but for the code `5f`: in the first version the underscore has it and
in the second a kanji, and there the underscore has a glyph of its own.
-/

namespace FontCodec.BuiltIn.Jak1

def passthrough : String := "~ ,.-+()!:?=%*/#;<>@[_"

/-- Accents, the punctuation next to them, and characters of the low codes. -/
def accents : List Glyph :=
    series [] 0x10 ['ˇ', '\x60', '\x27', '^'] ++
    named [] 0x14 ["<TIL>"] ++
    series [] 0x15 ['¨', 'º', '¡', '¿'] ++
    series [] 0x1a ['海', 'Æ', '界', 'Ç', '学', 'ß'] ++
    series [] 0x24 ['ワ'] ++
    series [] 0x26 ['ヲ', 'ン']

def firstKanji : List Glyph :=
    series [] 0x5c ['岩', '旧', '空']

def laterGlyphs : List Glyph :=
    series [] 0x60 [
      'ヮ', '撃', '賢', '湖', '口', '行', '合', '士', '寺', '山', '者', '所',
      '書', '小', '沼', '上', '城', '場', '出', '闇', '遺', '黄', '屋', '下',
      '家', '火', '花', 'レ', 'Œ', 'ロ'] ++
    series [] 0x7f ['青'] ++
    series [] 0x90 kana

def kanjiPage : List Glyph :=
    series [1] 0x01 ['宝'] ++
    series [1] 0x10 [
      '石', '赤', '跡', '川', '戦', '村', '隊', '台', '長', '鳥', '艇', '洞',
      '道', '発', '飛', '噴'] ++
    series [1] 0xa0 [
      '池', '中', '塔', '島', '部', '砲', '産', '眷', '力', '緑', '岸', '像',
      '谷', '心', '森', '水', '船', '™']

def glyphsV1 : List Glyph := accents ++ firstKanji ++ laterGlyphs ++ kanjiPage

def glyphsV2 : List Glyph :=
  series [] 0x03 ['_'] ++ accents ++ firstKanji ++ series [] 0x5f ['掘'] ++ laterGlyphs ++ kanjiPage

def accented : List Composite := [
    ⟨"A~Y~-21H~-5Vº~Z", "Å"⟩, ⟨"N~Y~-6Hº~Z~+10H", "Nº"⟩, ⟨"O~Y~-16H~-1V/~Z", "Ø"⟩,
    ⟨"A~Y~-6H~+3V,~Z", "Ą"⟩, ⟨"E~Y~-6H~+2V,~Z", "Ę"⟩, ⟨"L~Y~-16H~+0V/~Z", "Ł"⟩,
    ⟨"Z~Y~-21H~-5Vº~Z", "Ż"⟩, ⟨"N~Y~-22H~-4V<TIL>~Z", "Ñ"⟩, ⟨"A~Y~-21H~-5V<TIL>~Z", "Ã"⟩,
    ⟨"O~Y~-22H~-4V<TIL>~Z", "Õ"⟩, ⟨"A~Y~-21H~-5V'~Z", "Á"⟩, ⟨"E~Y~-22H~-5V'~Z", "É"⟩,
    ⟨"I~Y~-19H~-5V'~Z", "Í"⟩, ⟨"O~Y~-22H~-4V'~Z", "Ó"⟩, ⟨"U~Y~-24H~-3V'~Z", "Ú"⟩,
    ⟨"C~Y~-21H~-5V'~Z", "Ć"⟩, ⟨"N~Y~-21H~-5V'~Z", "Ń"⟩, ⟨"S~Y~-21H~-5V'~Z", "Ś"⟩,
    ⟨"Z~Y~-21H~-5V'~Z", "Ź"⟩, ⟨"O~Y~-28H~-4V'~-9H'~Z", "Ő"⟩, ⟨"U~Y~-27H~-4V'~-12H'~Z", "Ű"⟩,
    ⟨"A~Y~-20H~-4V^~Z", "Â"⟩, ⟨"E~Y~-20H~-5V^~Z", "Ê"⟩, ⟨"I~Y~-19H~-5V^~Z", "Î"⟩,
    ⟨"O~Y~-20H~-4V^~Z", "Ô"⟩, ⟨"U~Y~-24H~-3V^~Z", "Û"⟩, ⟨"A~Y~-21H~-5V`~Z", "À"⟩,
    ⟨"E~Y~-22H~-5V`~Z", "È"⟩, ⟨"I~Y~-19H~-5V`~Z", "Ì"⟩, ⟨"O~Y~-22H~-4V`~Z", "Ò"⟩,
    ⟨"U~Y~-24H~-3V`~Z", "Ù"⟩, ⟨"A~Y~-21H~-5V¨~Z", "Ä"⟩, ⟨"E~Y~-20H~-5V¨~Z", "Ë"⟩,
    ⟨"I~Y~-19H~-5V¨~Z", "Ï"⟩, ⟨"O~Y~-22H~-4V¨~Z", "Ö"⟩, ⟨"O~Y~-22H~-3V¨~Z", "ö"⟩,
    ⟨"U~Y~-22H~-3V¨~Z", "Ü"⟩]

def composites : List Composite :=
  accented ++ kanaComposites ++ punctuation ++ [⟨"~~", "世"⟩] ++ faceButtons

end FontCodec.BuiltIn.Jak1
