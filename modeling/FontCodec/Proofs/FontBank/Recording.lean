import FontCodec.Proofs.FontBank.Totality
import FontCodec.Proofs.Jamo.Retag

/-!
# Decoding with a collector

A collector takes in the packed sequences of a payload while it is decoded. It has no part in the text, and
it only grows.
-/

namespace FontCodec

namespace Jamo

/-- The number is packed from a span of components of the payload. -/
def Notes (payload : Bytes) (n : Int) : Prop :=
  ∃ list, WellFormed list ∧ list.flatMap Span.render = payload ∧
    ∃ items ∈ list.filterMap Span.components?, n = pack items

theorem mem_sequences_iff {payload : Bytes} {n : Int} : n ∈ sequences payload ↔ Notes payload n := by
  rw [sequences_eq_map_pack, List.mem_map]
  constructor
  · rintro ⟨items, hitems, rfl⟩
    obtain ⟨hlist, hrender⟩ := wellFormed_spans payload
    exact ⟨spans payload, hlist, hrender, items, hitems, rfl⟩
  · rintro ⟨list, hlist, rfl, items, hitems, rfl⟩
    rw [spans_flatMap_render hlist]
    exact ⟨items, hitems, rfl⟩

theorem Collector.mem_recordPayload {c : Collector} {payload : Bytes} {n : Int} :
    n ∈ (c.recordPayload payload).sequences ↔ n ∈ c.sequences ∨ Notes payload n := by
  rw [recordPayload, IntSet.mem_insertAll, mem_sequences_iff]

/-- The tagging pass with a collector at hand, which takes in each sequence where its span ends. -/
def retagInto : Collector → Stage → Bytes → Bytes × Collector
  | c, stage, [] => ([], stage.atEnd.elim c fun sequence => c.record sequence)
  | c, stage, b :: rest =>
    let move := stage.step b
    let (output, c) := retagInto (move.noted.elim c fun sequence => c.record sequence) move.stage rest
    (move.output ++ output, c)

/-- The collector has no part in the pass, and takes in what the pass notes. -/
theorem retagInto_eq (c : Collector) (stage : Stage) (bytes : Bytes) :
    retagInto c stage bytes = ((retagFrom stage bytes).1,
      ⟨c.sequences.insertAll ((retagFrom stage bytes).2.map Int.ofNat)⟩) := by
  induction bytes generalizing c stage with
  | nil =>
    rw [retagInto, retagFrom]
    cases stage.atEnd <;> rfl
  | cons b rest ih =>
    rw [retagInto, ih, retagFrom_cons]
    cases (stage.step b).noted <;> rfl

theorem retagInto_start (c : Collector) (payload : Bytes) :
    retagInto c .start payload = (retag payload, c.recordPayload payload) := retagInto_eq c .start payload

end Jamo

namespace FontBank

variable {bank : FontBank}

/-- Decodes Korean payloads one after the other with one collector. -/
def decodeInTurn (bank : FontBank) (collector : Option Jamo.Collector) :
    List Bytes → List (Except DecodeError String) × Option Jamo.Collector
  | [] => ([], collector)
  | payload :: rest =>
    let (answer, collector) :=
      bank.decodeRecording (payload.map fun b => (b.toNat : Int)) true collector
    let (answers, collector) := bank.decodeInTurn collector rest
    (answer :: answers, collector)

theorem decodeRecording_korean (payload : Bytes) (collector : Option Jamo.Collector) :
    bank.decodeRecording (payload.map fun b => (b.toNat : Int)) true collector =
      (bank.decode payload true, collector.map (·.recordPayload payload)) := by
  simp [decodeRecording, bytesOfInts_toNat]

/-- Decoding one payload after the other gives the text of each, and the collector ends with what it held
and the sequences of all of them. -/
theorem decodeInTurn_eq (c : Jamo.Collector) (payloads : List Bytes) :
    ∃ c', bank.decodeInTurn (some c) payloads = (payloads.map (bank.decode · true), some c') ∧
      ∀ n, n ∈ c'.sequences ↔ n ∈ c.sequences ∨ ∃ payload ∈ payloads, Jamo.Notes payload n := by
  induction payloads generalizing c with
  | nil => exact ⟨c, rfl, by simp⟩
  | cons payload payloads ih =>
    obtain ⟨c', hrun, hc'⟩ := ih (c.recordPayload payload)
    refine ⟨c', ?_, fun n => ?_⟩
    · rw [decodeInTurn, decodeRecording_korean, Option.map_some]
      simp only [hrun, List.map_cons]
    · rw [hc', Jamo.Collector.mem_recordPayload, List.exists_mem_cons_iff, or_assoc]

/-- A Korean payload has one text with any collector and with none. The collector then holds what it held
before and the sequences of the payload, as it does if the pass hands over each of them where its span
ends, and after many payloads the sequences of all of them. Without Korean a collector is refused and
stays as it is. -/
theorem decodeRecording_collects (bank : FontBank) (hascii : bank.AsciiPassthrough) :
    (∀ payload : Bytes, ∃ text,
      bank.decodeRecording (payload.map fun b => (b.toNat : Int)) true none = (.ok text, none) ∧
      ∀ c, ∃ c', bank.decodeRecording (payload.map fun b => (b.toNat : Int)) true (some c) =
          (.ok text, some c') ∧
        Jamo.retagInto c .start payload = (Jamo.retag payload, c') ∧
        ∀ n, n ∈ c'.sequences ↔ n ∈ c.sequences ∨ Jamo.Notes payload n) ∧
    (∀ (payloads : List Bytes) (c : Jamo.Collector), ∃ c',
      bank.decodeInTurn (some c) payloads = (payloads.map (bank.decode · true), some c') ∧
        ∀ n, n ∈ c'.sequences ↔ n ∈ c.sequences ∨ ∃ payload ∈ payloads, Jamo.Notes payload n) ∧
    ∀ (numbers : List Int) (c : Jamo.Collector),
      bank.decodeRecording numbers false (some c) = (.error .collectorWithoutKorean, some c) := by
  refine ⟨fun payload => ?_, fun payloads c => decodeInTurn_eq c payloads, fun _ _ => rfl⟩
  obtain ⟨text, htext, -⟩ := exists_decode_tagged hascii payload true
  refine ⟨text, ?_, fun c => ⟨c.recordPayload payload, ?_, Jamo.retagInto_start c payload,
    fun _ => Jamo.Collector.mem_recordPayload⟩⟩
  · rw [decodeRecording_korean, htext]
    rfl
  · rw [decodeRecording_korean, htext]
    rfl

/-- A span of two components and a header at the end of the next payload. -/
theorem decodeRecording_collects_overlapping : overlapping.AsciiPassthrough ∧ ∃ c',
    overlapping.decodeInTurn (some .empty) [[0x10, 0x02, 0x06, 0x05, 0xc3], [0x10]] =
        ([[0x10, 0x02, 0x06, 0x05, 0xc3], [0x10]].map (overlapping.decode · true), some c') ∧
      0x1c30306 ∈ c'.sequences ∧ 0 ∈ c'.sequences := by
  have hascii : overlapping.AsciiPassthrough := by decide +kernel
  obtain ⟨c', hrun, hc'⟩ := (decodeRecording_collects overlapping hascii).2.1
    [[0x10, 0x02, 0x06, 0x05, 0xc3], [0x10]] .empty
  have hspan : Jamo.Notes [0x10, 0x02, 0x06, 0x05, 0xc3] 0x1c30306 :=
    Jamo.mem_sequences_iff.1 (by decide)
  have hheader : Jamo.Notes [0x10] 0 := Jamo.mem_sequences_iff.1 (by decide)
  exact ⟨hascii, c', hrun, (hc' _).2 (.inr ⟨_, by simp, hspan⟩), (hc' _).2 (.inr ⟨_, by simp, hheader⟩)⟩

end FontBank

end FontCodec
