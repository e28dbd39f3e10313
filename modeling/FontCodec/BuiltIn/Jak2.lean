import FontCodec.BuiltIn.Shared

/-!
# The font of the second game

Beside the base page it has pages for kana, kanji and jamo. Names in angle brackets stand for parts of
flags and of the controller, and for jamo.
-/

namespace FontCodec.BuiltIn.Jak2

def passthrough : String := "~ ,.-+()!:?=%*/#;<>@[_]"

def accents : List Glyph :=
    series [] 0x10 ['ˇ', '\x60', '\x27', '^'] ++
    named [] 0x14 ["<TIL>"] ++
    series [] 0x15 ['¨', 'º', '¡', '¿'] ++
    named [] 0x19 ["<SOMETHING>"] ++
    series [] 0x1d ['ç', 'Ç', 'ß'] ++
    series [] 0x5e ['œ']

def parts : List Glyph :=
    named [] 0x7f [
      "<FLAG_PART_HORZ_STRIPE_MIDDLE>", "<FLAG_PART_HORZ_STRIPE_BOTTOM>",
      "<FLAG_PART_VERT_STRIPE_LARGE>", "<FLAG_PART_VERT_STRIPE_RIGHT>",
      "<FLAG_PART_VERT_STRIPE_LEFT>", "<FLAG_PART_VERT_STRIPE_MIDDLE>", "<FLAG_PART_FILL>",
      "<FLAG_PART_JAPAN_SUN>", "<FLAG_PART_KOREA_TRIGRAMS_LEFT>",
      "<FLAG_PART_KOREA_TRIGRAMS_RIGHT>", "<FLAG_PART_KOREA_CIRCLE_TOP>",
      "<FLAG_PART_KOREA_CIRCLE_FILL>", "<FLAG_PART_TOP_BOTTOM_STRIPE>",
      "<FLAG_PART_UK_CROSS_LEFT>", "<FLAG_PART_UK_CROSS_RIGHT>", "<FLAG_PART_UK_FILL_LEFT>",
      "<FLAG_PART_UK_FILL_RIGHT>", "<FLAG_PART_USA_STRIPES_RIGHT>", "<PAD_PART_STICK>",
      "<PAD_PART_SELECT>", "<PAD_PART_TRIGGER_BACK>", "<PAD_PART_R1_NAME>", "<PAD_PART_L1_NAME>",
      "<PAD_PART_R2_NAME>", "<PAD_PART_L2_NAME>", "<PAD_PART_STICK_UP>",
      "<PAD_PART_STICK_UP_RIGHT>", "<FLAG_PART_USA_STRIPES_LEFT>", "<FLAG_PART_USA_STARS>",
      "<PAD_PART_STICK_DOWN>", "<PAD_PART_STICK_DOWN_LEFT>", "<PAD_PART_STICK_LEFT>",
      "<PAD_PART_STICK_UP_LEFT>", "<PAD_PART_DPAD_D>", "<PAD_PART_DPAD_L>", "<PAD_PART_DPAD_U>",
      "<PAD_PART_DPAD_R>", "<PAD_PART_STICK_RIGHT>", "<PAD_PART_STICK_DOWN_RIGHT>",
      "<PAD_PART_SHOULDER_TOP_LEFT>", "<PAD_PART_SHOULDER_TOP_RIGHT>",
      "<PAD_PART_TRIGGER_TOP_LEFT>", "<PAD_PART_TRIGGER_TOP_RIGHT>", "<PAD_PART_TRIGGER_SHIM1>",
      "<PAD_PART_TRIGGER_SHIM2>", "<PAD_PART_SHOULDER_SHIM2>"] ++
    named [] 0xb0 [
      "<PAD_PART_SHOULDER_BOTTOM_LEFT>", "<PAD_PART_SHOULDER_BOTTOM_RIGHT>",
      "<PAD_PART_TRIGGER_BOTTOM_LEFT>", "<PAD_PART_TRIGGER_BOTTOM_RIGHT>"]

def kanjiPages : List Glyph :=
    series [1] 0x10 (kana ++ ['レ', 'ロ', 'ヮ', 'ワ', 'ヲ', 'ン']) ++
    series [1] 0x8c [
      '位', '遺', '院', '映', '衛', '応', '下', '画', '解', '開', '外', '害',
      '蓋', '完', '換', '監', '間', '器', '記', '逆', '救', '金', '空', '掘',
      '警', '迎', '撃', '建', '源', '現', '言', '限', '個', '庫', '後', '語',
      '護', '交', '功', '向', '工', '攻', '溝', '行', '鉱', '降', '合', '告',
      '獄', '彩', '作', '山', '使', '始', '試', '字', '寺', '時', '示', '自',
      '式', '矢', '射', '者', '守', '手', '終', '週', '出', '所', '書', '勝',
      '章', '上', '乗', '場', '森', '進', '人', '水', '数', '制', '性', '成',
      '聖', '石', '跡', '先', '戦', '船', '選', '走', '送', '像', '造', '続',
      '対', '袋', '台', '弾', '地', '中', '敵', '転', '電', '塔', '頭', '動',
      '内', '日', '入', '年', '能', '廃', '排', '敗'] ++
    series [2] 0x10 [
      '発', '反', '必', '表', '武', '壁', '墓', '放', '方', '砲', '妨', '北',
      '本', '幕', '無', '迷', '面', '戻', '紋', '薬', '輸', '勇', '友', '遊',
      '容', '要', '利', '了', '量', '力', '練', '連', '録', '話', '墟', '脱'] ++
    series [2] 0x35 [
      '旗', '破', '壊', '全', '滅', '機', '仲', '渓', '谷', '優', '探', '部',
      '索'] ++
    series [2] 0x43 [
      '前', '右', '左', '会', '高', '低', '押', '切', '替'] ++
    series [2] 0x4d ['秒', '箱', '泳', '～'] ++
    series [2] 0x56 [
      '闇', '以', '屋', '俺', '化', '界', '感', '気', '却', '曲', '継', '権',
      '見', '古', '好'] ++
    series [2] 0x66 [
      '才', '士', '子', '次', '主', '種', '讐', '女', '小', '焼', '証', '神',
      '身', '寸', '世', '想', '退', '第', '着', '天', '倒', '到', '突', '爆',
      '番', '負', '復', '物', '眠', '予', '用', '落', '緑'] ++
    series [2] 0x88 ['封', '印', '扉', '最', '刻', '足']

def jamo : List Glyph :=
    jamoSeries 1 0x86 5 ++
    jamoSeries 3 0x06 250

def glyphs : List Glyph := accents ++ parts ++ kanjiPages ++ jamo

def accented : List Composite := [
    ⟨"A~Y~-21H~-5Vº~Z", "Å"⟩, ⟨"N~Y~-6Hº~Z~+10H", "Nº"⟩, ⟨"~+4Vç~-4V", ",c"⟩,
    ⟨"N~Y~-22H~-4V<TIL>~Z", "Ñ"⟩, ⟨"n~Y~-24H~-4V<TIL>~Z", "ñ"⟩, ⟨"A~Y~-21H~-5V<TIL>~Z", "Ã"⟩,
    ⟨"O~Y~-22H~-4V<TIL>~Z", "Õ"⟩, ⟨"A~Y~-21H~-5V'~Z", "Á"⟩, ⟨"A~Y~-26H~-8V'~Z", "<Á_V2>"⟩,
    ⟨"a~Y~-25H~-5V'~Z", "á"⟩, ⟨"E~Y~-23H~-9V'~Z", "É"⟩, ⟨"e~Y~-26H~-5V'~Z", "é"⟩,
    ⟨"I~Y~-19H~-5V'~Z", "Í"⟩, ⟨"i~Y~-19H~-8V'~Z", "í"⟩, ⟨"O~Y~-22H~-4V'~Z", "Ó"⟩,
    ⟨"o~Y~-26H~-4V'~Z", "ó"⟩, ⟨"U~Y~-24H~-3V'~Z", "Ú"⟩, ⟨"u~Y~-24H~-3V'~Z", "ú"⟩,
    ⟨"A~Y~-20H~-4V^~Z", "Â"⟩, ⟨"a~Y~-24H~-5V^~Z", "â"⟩, ⟨"E~Y~-20H~-5V^~Z", "Ê"⟩,
    ⟨"e~Y~-25H~-4V^~Zt", "ê"⟩, ⟨"I~Y~-19H~-5V^~Z", "Î"⟩, ⟨"i~Y~-19H~-8V^~Z", "î"⟩,
    ⟨"O~Y~-20H~-4V^~Z", "Ô"⟩, ⟨"o~Y~-25H~-4V^~Z", "ô"⟩, ⟨"U~Y~-24H~-3V^~Z", "Û"⟩,
    ⟨"u~Y~-23H~-3V^~Z", "û"⟩, ⟨"A~Y~-26H~-8V`~Z", "À"⟩, ⟨"a~Y~-25H~-5V`~Z", "à"⟩,
    ⟨"E~Y~-23H~-9V`~Z", "È"⟩, ⟨"e~Y~-26H~-5V`~Z", "è"⟩, ⟨"I~Y~-19H~-5V`~Z", "Ì"⟩,
    ⟨"i~Y~-19H~-8V`~Z", "ì"⟩, ⟨"O~Y~-22H~-4V`~Z", "Ò"⟩, ⟨"o~Y~-26H~-4V`~Z", "ò"⟩,
    ⟨"U~Y~-24H~-3V`~Z", "Ù"⟩, ⟨"u~Y~-24H~-3V`~Z", "ù"⟩, ⟨"A~Y~-26H~-8V¨~Z", "Ä"⟩,
    ⟨"a~Y~-25H~-5V¨~Z", "ä"⟩, ⟨"E~Y~-20H~-5V¨~Z", "Ë"⟩, ⟨"I~Y~-19H~-5V¨~Z", "Ï"⟩,
    ⟨"O~Y~-26H~-8V¨~Z", "Ö"⟩, ⟨"o~Y~-26H~-4V¨~Z", "ö"⟩, ⟨"U~Y~-25H~-8V¨~Z", "Ü"⟩,
    ⟨"u~Y~-24H~-3V¨~Z", "ü"⟩]

/-- Buttons, sticks and icons of the controller. -/
def controller : List Composite := [
    ⟨"~Y~22L<PAD_PART_DPAD_L>~Z~3L~+17H~-13V<PAD_PART_DPAD_U>~Z" ++
      "~22L~+17H~+14V<PAD_PART_DPAD_D>~Z~22L~+32H<PAD_PART_DPAD_R>" ++
      "~Z~+56H",
      "<PAD_DPAD_UP>"⟩,
    ⟨"~Y~22L<PAD_PART_DPAD_L>~Z~3L~+17H~-13V<PAD_PART_DPAD_U>~Z~3L" ++
      "~+17H~+14V<PAD_PART_DPAD_D>~Z~22L~+32H<PAD_PART_DPAD_R>~Z" ++
      "~+56H",
      "<PAD_DPAD_DOWN>"⟩,
    ⟨"~Y~22L<PAD_PART_DPAD_L>~Z~22L~+17H~-13V<PAD_PART_DPAD_U>~Z" ++
      "~22L~+17H~+14V<PAD_PART_DPAD_D>~Z~22L~+32H<PAD_PART_DPAD_R>" ++
      "~Z~+56H",
      "<PAD_DPAD_ANY>"⟩,
    ⟨"~Y~22L~-2H" ++
      "~-12V<PAD_PART_SHOULDER_TOP_LEFT><PAD_PART_SHOULDER_TOP_RIGHT>" ++
      "~Z~22L~-2H" ++
      "~+17V<PAD_PART_SHOULDER_BOTTOM_LEFT><PAD_PART_SHOULDER_BOTTOM_RIGHT>" ++
      "~Z~1L~+4H~+3V<PAD_PART_L1_NAME>~Z~+38H",
      "<PAD_L1>"⟩,
    ⟨"~Y~22L~-2H" ++
      "~-12V<PAD_PART_SHOULDER_TOP_LEFT><PAD_PART_SHOULDER_TOP_RIGHT>" ++
      "~Z~22L~-2H" ++
      "~+17V<PAD_PART_SHOULDER_BOTTOM_LEFT><PAD_PART_SHOULDER_BOTTOM_RIGHT>" ++
      "~Z~1L~+6H~+3V<PAD_PART_R1_NAME>~Z~+38H",
      "<PAD_R1>"⟩,
    ⟨"~Y~22L~-2H" ++
      "~-6V<PAD_PART_TRIGGER_TOP_LEFT><PAD_PART_TRIGGER_TOP_RIGHT>" ++
      "~Z~22L~-2H" ++
      "~+16V<PAD_PART_TRIGGER_BOTTOM_LEFT><PAD_PART_TRIGGER_BOTTOM_RIGHT>" ++
      "~Z~1L~+5H~-2V<PAD_PART_R2_NAME>~Z~+38H",
      "<PAD_R2>"⟩,
    ⟨"~Y~22L~-2H" ++
      "~-6V<PAD_PART_TRIGGER_TOP_LEFT><PAD_PART_TRIGGER_TOP_RIGHT>" ++
      "~Z~22L~-2H" ++
      "~+16V<PAD_PART_TRIGGER_BOTTOM_LEFT><PAD_PART_TRIGGER_BOTTOM_RIGHT>" ++
      "~Z~1L~+5H~-2V<PAD_PART_L2_NAME>~Z~+38H",
      "<PAD_L2>"⟩,
    ⟨"~1L~+8H~Y<PAD_PART_STICK>~Z~6L~-16H<PAD_PART_STICK_LEFT>~Z" ++
      "~+16h~6L<PAD_PART_STICK_RIGHT>~Z~6L" ++
      "~-15V<PAD_PART_STICK_DOWN>~Z~+13V~6L<PAD_PART_STICK_UP>~Z" ++
      "~-10H~+9V~6L<PAD_PART_STICK_UP_LEFT>~Z~+10H~+9V" ++
      "~6L<PAD_PART_STICK_UP_RIGHT>~Z~-10H~-11V" ++
      "~6L<PAD_PART_STICK_DOWN_LEFT>~Z~+10H~-11V" ++
      "~6L<PAD_PART_STICK_DOWN_RIGHT>~Z~+32H",
      "<PAD_ANALOG_ANY>"⟩,
    ⟨"~Y~1L~+8H<PAD_PART_STICK>~Z~6L~-8H<PAD_PART_STICK_LEFT>~Z" ++
      "~+24H~6L<PAD_PART_STICK_RIGHT>~Z~+40H",
      "<PAD_ANALOG_LEFT_RIGHT>"⟩,
    ⟨"~Y~1L<PAD_PART_STICK>~Z~6L~-15V<PAD_PART_STICK_DOWN>~Z~+13V" ++
      "~6L<PAD_PART_STICK_UP>~Z~+26H",
      "<PAD_ANALOG_UP_DOWN>"⟩,
    ⟨"~Y~6L<~Z~Y~1L>~Z~Y~23L[~Z~+26H", "<ICON_MISSION_COMPLETE>"⟩,
    ⟨"~Y~3L<~Z~Y~1L>~Z~Y~23L[~Z~+26H", "<ICON_MISSION_TODO>"⟩]

def flags : List Composite := [
    ⟨"~Y~6L<FLAG_PART_VERT_STRIPE_LARGE>~Z~+15H" ++
      "~1L<FLAG_PART_VERT_STRIPE_LARGE>~Z~+30H" ++
      "~3L<FLAG_PART_VERT_STRIPE_LARGE>~Z~+45H",
      "<FLAG_ITALIAN>"⟩,
    ⟨"~Y~5L<FLAG_PART_FILL>~Z~3L<FLAG_PART_TOP_BOTTOM_STRIPE>~]" ++
      "~-1H~Y~5L<FLAG_PART_FILL>~Z~3L<FLAG_PART_TOP_BOTTOM_STRIPE>" ++
      "~Z~+26H",
      "<FLAG_SPAIN>"⟩,
    ⟨"~Y~39L~~~Z~3L<FLAG_PART_HORZ_STRIPE_MIDDLE>~Z" ++
      "~5L<FLAG_PART_HORZ_STRIPE_BOTTOM>~]~-1H~Y~39L~~~Z" ++
      "~3L<FLAG_PART_HORZ_STRIPE_MIDDLE>~Z" ++
      "~5L<FLAG_PART_HORZ_STRIPE_BOTTOM>~Z~+26H",
      "<FLAG_GERMAN>"⟩,
    ⟨"~Y~7L<FLAG_PART_VERT_STRIPE_LARGE>~Z~+15H" ++
      "~1L<FLAG_PART_VERT_STRIPE_LARGE>~Z~+30H" ++
      "~3L<FLAG_PART_VERT_STRIPE_LARGE>~Z~+47H",
      "<FLAG_FRANCE>"⟩,
    ⟨"~Y~1L<FLAG_PART_FILL>~Z~3L<FLAG_PART_UK_CROSS_LEFT>~Z" ++
      "~7L<FLAG_PART_UK_FILL_LEFT>~]~-1H~Y~1L<FLAG_PART_FILL>~Z" ++
      "~3L<FLAG_PART_UK_CROSS_RIGHT>~Z~7L<FLAG_PART_UK_FILL_RIGHT>" ++
      "~Z~+26H",
      "<FLAG_UK>"⟩,
    ⟨"~Y~1L<FLAG_PART_FILL>~Z~3L<FLAG_PART_USA_STRIPES_LEFT>~Z" ++
      "~7L<FLAG_PART_USA_STARS>~]~-1H~Y~1L<FLAG_PART_FILL>~Z" ++
      "~3L<FLAG_PART_USA_STRIPES_RIGHT>~Z~+26H",
      "<FLAG_USA>"⟩,
    ⟨"~Y~1L<FLAG_PART_FILL>~Z~39L<FLAG_PART_KOREA_TRIGRAMS_LEFT>~]" ++
      "~-1H~Y~1L<FLAG_PART_FILL>~Z" ++
      "~39L<FLAG_PART_KOREA_TRIGRAMS_RIGHT>~Z~-11H" ++
      "~7L<FLAG_PART_KOREA_CIRCLE_FILL>~Z~-11H" ++
      "~3L<FLAG_PART_KOREA_CIRCLE_TOP>~Z~+26H",
      "<FLAG_KOREA>"⟩,
    ⟨"~Y~1L<FLAG_PART_FILL>~]~-1H~Y~1L<FLAG_PART_FILL>~Z~-11H" ++
      "~3L<FLAG_PART_JAPAN_SUN>~Z~+26H",
      "<FLAG_JAPAN>"⟩]

/-- Letters with descenders, symbols and colours. The pair of backslashes is what a single one looks
like once it is escaped. -/
def symbols : List Composite := [
    ⟨"~+7Vp~-7V", "p"⟩, ⟨"~+7Vy~-7V", "y"⟩, ⟨"~+7Vg~-7V", "g"⟩, ⟨"~+7Vq~-7V", "q"⟩,
    ⟨"~+1Vj~-1V", "j"⟩, ⟨"\\\\", "~%"⟩, ⟨"~-4H~-3V<SOMETHING>~+3V~-4H", "<SUPERSCRIPT_QUOTE>"⟩,
    ⟨"~Y~-6Hº~Z~+10H", "°"⟩, ⟨"~[~1L", "<COLOR_WHITE>"⟩, ⟨"~[~32L", "<COLOR_DEFAULT>"⟩]

def composites : List Composite :=
  accented ++ kanaComposites ++ punctuation ++ faceButtons ++ controller ++ flags ++ symbols

end FontCodec.BuiltIn.Jak2
