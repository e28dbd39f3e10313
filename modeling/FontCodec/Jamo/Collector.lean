import FontCodec.Bytes.Hex
import FontCodec.IntSet
import FontCodec.Jamo.Retag

/-!
# Reports on packed sequences

A collector holds the packed sequences seen so far. Its reports list the keys by position and every
key with the first position at which it occurs.
-/

namespace FontCodec.Jamo

structure Collector where
  sequences : IntSet
  deriving DecidableEq

namespace Collector

def empty : Collector := ⟨.empty⟩

def record (c : Collector) (sequence : Int) : Collector := ⟨c.sequences.insert sequence⟩

/-- Records the sequence of every span of components in a payload. -/
def recordPayload (c : Collector) (payload : Bytes) : Collector :=
  ⟨c.sequences.insertAll (Jamo.sequences payload)⟩

def keysAt (c : Collector) (position : Nat) : IntSet :=
  .ofList (c.sequences.elements.filterMap (fun s => (unpack s)[position]?))

def byPosition (c : Collector) : List IntSet := (List.range positions).map c.keysAt

/-- Every key with the number of the first position at which it was seen. -/
def allJamo (c : Collector) : List (Int × Nat) :=
  let sets := c.byPosition
  (IntSet.ofList (sets.flatMap IntSet.elements)).elements.map (fun k =>
    (k, sets.findIdx (fun set => k ∈ set) + 1))

def ordinals : List String := ["first", "second", "third", "fourth"]

/-- The lines of the report; none when nothing was recorded. -/
def report (c : Collector) : List String :=
  if c.sequences.isEmpty then []
  else
    "all seqs:" ::
      (ordinals.zip c.byPosition).flatMap (fun (ordinal, keys) =>
        "" :: ("all " ++ ordinal ++ " jamo:") :: keys.elements.map Hex.ofInt) ++
    ["", "all jamo:"] ++
    c.allJamo.map (fun (k, position) => Hex.ofNat k.toNat ++ " pos " ++ toString position)

def flush (c : Collector) : List String × Collector := (c.report, empty)

end Collector

end FontCodec.Jamo
