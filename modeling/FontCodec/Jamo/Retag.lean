import FontCodec.Jamo.Packed

/-!
# Tagging Korean game text

One pass over a payload puts the tag of its glyph page in front of every component, so that a font can
look it up. On the way it packs the first components of each span and notes the sequence where the
span ends.
-/

namespace FontCodec.Jamo

/-- Where in a payload the pass is. Inside a span of components it knows how many there were and what
they pack to. -/
inductive Stage where
  | start
  | passthrough
  | counter
  | components (count sequence : Nat)
  /-- Behind the mark of the alternate page. -/
  | alternate (count sequence : Nat)
  deriving DecidableEq, Repr

/-- What a byte leads to: the stage behind it, the bytes put out and the sequence noted. -/
structure Move where
  stage : Stage
  output : Bytes
  noted : Option Nat
  deriving DecidableEq, Repr

/-- The sequence with one more component, if there is a position for it. -/
def extend (count sequence : Nat) (c : Component) : Nat :=
  if count < positions then sequence ||| place c.key count else sequence

namespace Stage

/-- The stage behind a byte that opens a span. -/
def opened (b : UInt8) : Stage := if b = passthroughMark then passthrough else counter

def step : Stage → UInt8 → Move
  | start, b => ⟨opened b, [], none⟩
  | passthrough, b =>
    if isTerminator b then ⟨opened b, [], none⟩ else ⟨passthrough, [b], none⟩
  | counter, _ => ⟨components 0 0, [], none⟩
  | components count sequence, b =>
    if isTerminator b then ⟨opened b, [], some sequence⟩
    else if b = alternateMark then ⟨alternate count sequence, [], none⟩
    else
      let c := Component.normal b
      ⟨components (count + 1) (extend count sequence c), c.tagged, none⟩
  | alternate count sequence, b =>
    let c := Component.alternate b
    ⟨components (count + 1) (extend count sequence c), c.tagged, none⟩

def atEnd : Stage → Option Nat
  | start | passthrough => none
  | counter => some 0
  | components _ sequence | alternate _ sequence => some sequence

end Stage

/-- What the pass puts out and notes from a stage on. -/
def retagFrom : Stage → Bytes → Bytes × List Nat
  | stage, [] => ([], stage.atEnd.toList)
  | stage, b :: rest =>
    let move := stage.step b
    let (output, noted) := retagFrom move.stage rest
    (move.output ++ output, move.noted.toList ++ noted)

def retag (payload : Bytes) : Bytes := (retagFrom .start payload).1

/-- The packed sequences noted in a payload, in the order of its spans. -/
def sequences (payload : Bytes) : List Int := (retagFrom .start payload).2.map Int.ofNat

end FontCodec.Jamo
