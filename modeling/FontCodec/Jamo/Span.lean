import FontCodec.Bytes

/-!
# Spans of Korean game text

Korean text is a sequence of spans. A span that opens with `03` holds bytes to be kept. Any other
byte opens a span of components: a counter follows, and then one glyph after another, where `05`
marks the next glyph as one of the alternate page. Both kinds end at the next `03` or `04`, which
opens the following span. Only the last span can be cut short.
-/

namespace FontCodec.Jamo

def passthroughMark : UInt8 := 0x03
def componentMark : UInt8 := 0x04
def alternateMark : UInt8 := 0x05

/-- Whether a byte ends the span in front of it. -/
def isTerminator (b : UInt8) : Bool := b = passthroughMark || b = componentMark

/-- One component of a syllable. -/
inductive Component where
  | normal (glyph : UInt8)
  | alternate (glyph : UInt8)
  deriving DecidableEq, Repr

inductive Span where
  /-- Bytes that are kept. -/
  | passthrough (bytes : Bytes)
  /-- Components behind a header and a counter; `dangling` tells that the text ends with a mark
  whose glyph is missing. -/
  | components (header counter : UInt8) (items : List Component) (dangling : Bool)
  /-- A header at the very end. -/
  | bare (header : UInt8)
  deriving DecidableEq, Repr

namespace Component

def render : Component → Bytes
  | normal g => [g]
  | alternate g => [alternateMark, g]

def tagged : Component → Bytes
  | normal g => [0x03, g]
  | alternate g => [0x01, g]

end Component

namespace Span

def render : Span → Bytes
  | passthrough bytes => passthroughMark :: bytes
  | components h l items dangling =>
    h :: l :: (items.flatMap Component.render ++ if dangling then [alternateMark] else [])
  | bare h => [h]

/-- What remains of a span after tagging. -/
def tagged : Span → Bytes
  | passthrough bytes => bytes
  | components _ _ items _ => items.flatMap Component.tagged
  | bare _ => []

/-- The components of a span, if it is one of components. -/
def components? : Span → Option (List Component)
  | passthrough _ => none
  | components _ _ items _ => some items
  | bare _ => some []

end Span

/-- The components up to the next terminator, whether the last of them lacks its glyph, and the
bytes from that terminator on. -/
def splitComponents : Bytes → List Component × Bool × Bytes
  | [] => ([], false, [])
  | b :: rest =>
    if isTerminator b then ([], false, b :: rest)
    else if b = alternateMark then
      match rest with
      | [] => ([], true, [])
      | g :: tail =>
        let (items, dangling, remaining) := splitComponents tail
        (.alternate g :: items, dangling, remaining)
    else
      let (items, dangling, remaining) := splitComponents rest
      (.normal b :: items, dangling, remaining)

theorem length_splitComponents_le (bytes : Bytes) :
    (splitComponents bytes).2.2.length ≤ bytes.length := by
  fun_induction splitComponents bytes <;> simp_all <;> omega

def spans : Bytes → List Span
  | [] => []
  | h :: rest =>
    if h = passthroughMark then
      .passthrough (rest.takeWhile (fun b => !isTerminator b)) ::
        spans (rest.dropWhile (fun b => !isTerminator b))
    else
      match rest with
      | [] => [.bare h]
      | l :: tail =>
        .components h l (splitComponents tail).1 (splitComponents tail).2.1 ::
          spans (splitComponents tail).2.2
termination_by bytes => bytes.length
decreasing_by
  · have := (List.dropWhile_suffix (fun b => !isTerminator b) (l := rest)).length_le
    simp only [List.length_cons]
    omega
  · have := length_splitComponents_le tail
    simp only [List.length_cons]
    omega

end FontCodec.Jamo
