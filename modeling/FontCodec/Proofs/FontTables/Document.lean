import FontCodec.FontTables.Document
import FontCodec.Proofs.StableSort
import FontCodec.Proofs.Text.CodePoint
import Mathlib.Data.List.Forall2

/-!
# The documents that declare font tables

A document is accepted exactly if it declares tables, and then these are the ones read. A document that
is refused has a fault, whose message can be written unless it would show a byte value past a limit.
-/

namespace FontCodec

section Results

variable {α β ε ε' : Type}

theorem bind_eq_ok_iff {x : Except ε α} {f : α → Except ε β} {b : β} :
    x >>= f = .ok b ↔ ∃ a, x = .ok a ∧ f a = .ok b := by
  cases x <;> simp [bind, Except.bind]

theorem bind_eq_error_iff {x : Except ε α} {f : α → Except ε β} {e : ε} :
    x >>= f = .error e ↔ x = .error e ∨ ∃ a, x = .ok a ∧ f a = .error e := by
  cases x <;> simp [bind, Except.bind]

theorem mapError_eq_ok_iff {x : Except ε α} {f : ε → ε'} {a : α} :
    x.mapError f = .ok a ↔ x = .ok a := by
  cases x <;> simp [Except.mapError]

theorem mapError_eq_error_iff {x : Except ε α} {f : ε → ε'} {e : ε'} :
    x.mapError f = .error e ↔ ∃ cause, x = .error cause ∧ f cause = e := by
  cases x <;> simp [Except.mapError]

end Results

namespace FontTables

/-- The values that a document lists under a key; none if the key is not there. -/
def Lists (document : Table) (key : String) (items : List Value) : Prop :=
  document.get? key = none ∧ items = [] ∨ document.get? key = some (.array items)

/-- The text under a key; empty if the key is not there. -/
def Holds (document : Table) (key text : String) : Prop :=
  document.get? key = none ∧ text = "" ∨ document.get? key = some (.string text)

def byteValue (b : UInt8) : Value := .int b.toNat

/-- A table with characters and one or two bytes. -/
@[mk_iff]
structure DeclaresGlyph (value : Value) (g : Glyph) : Prop where
  fields : ∃ fields : Table, value = .table fields ∧ fields.get? "chars" = some (.string g.chars) ∧
    fields.get? "bytes" = some (.array (g.raw.map byteValue))
  chars : g.chars ≠ ""
  raw : g.raw.length = 1 ∨ g.raw.length = 2

/-- A table with two texts. -/
@[mk_iff]
structure DeclaresComposite (value : Value) (c : Composite) : Prop where
  fields : ∃ fields : Table, value = .table fields ∧ fields.get? "from" = some (.string c.game) ∧
    fields.get? "to" = some (.string c.readable)
  game : c.game ≠ ""
  readable : c.readable ≠ ""

/-- The document declares the version, the codes that pass, and every entry in its place. -/
structure Declares (document : Table) (tables : FontTables) : Prop where
  version : document.get? "version" = some (.string tables.version.name)
  passthrough : ∃ text, Holds document "passthrough" text ∧
    (∀ c ∈ text.toList, c.toNat < 128 ∧ c ≠ '\\') ∧
    ∀ n, n ∈ tables.passthrough ↔ ∃ b ∈ utf8 text, (b.toNat : Int) = n
  glyphs : ∃ items, Lists document "encode" items ∧ List.Forall₂ DeclaresGlyph items tables.glyphs
  distinct : (tables.glyphs.map Glyph.raw).Nodup
  composites : ∃ items, Lists document "replace" items ∧
    List.Forall₂ DeclaresComposite items tables.composites

section Reading

variable {document : Table}

theorem getOrNull_eq_string_iff {key text : String} :
    document.getOrNull key = .string text ↔ document.get? key = some (.string text) := by
  cases h : document.get? key <;> simp [Table.getOrNull, h]

theorem getOrNull_eq_array_iff {key : String} {items : List Value} :
    document.getOrNull key = .array items ↔ document.get? key = some (.array items) := by
  cases h : document.get? key <;> simp [Table.getOrNull, h]

theorem getD_eq_string_iff {key text : String} :
    (document.get? key).getD (.string "") = .string text ↔ Holds document key text := by
  cases h : document.get? key <;> simp [Holds, h, eq_comm]

theorem getD_eq_array_iff {key : String} {items : List Value} :
    (document.get? key).getD (.array []) = .array items ↔ Lists document key items := by
  cases h : document.get? key <;> simp [Lists, h, eq_comm]

theorem readVersion_eq_ok_iff {v : Version} :
    readVersion document = .ok v ↔ document.get? "version" = some (.string v.name) := by
  rw [← getOrNull_eq_string_iff]
  cases h : document.getOrNull "version" with
  | string name =>
    rw [Value.string.injEq, @eq_comm _ name, ← Version.ofName?_eq_some_iff]
    cases hname : Version.ofName? name <;> simp [readVersion, h, hname]
  | _ => simp [readVersion, h]

theorem mem_asciiCodes_iff {text : String} (h : isAscii text) (n : Int) :
    n ∈ asciiCodes text ↔ ∃ b ∈ utf8 text, (b.toNat : Int) = n := by
  have hcode : ∀ c ∈ text.toList, String.utf8EncodeChar c = [UInt8.ofNat c.toNat] ∧
      (UInt8.ofNat c.toNat).toNat = c.toNat := by
    intro c hc
    have hlt : c.toNat < 128 := by simpa using List.all_eq_true.1 h c hc
    exact ⟨utf8EncodeChar_of_lt hlt, by rw [UInt8.toNat_ofNat']; omega⟩
  rw [mem_asciiCodes, utf8_eq_flatMap]
  simp only [List.mem_flatMap]
  constructor
  · rintro ⟨c, hc, rfl⟩
    obtain ⟨hencode, hvalue⟩ := hcode c hc
    exact ⟨_, ⟨c, hc, hencode ▸ List.mem_singleton_self _⟩, by rw [hvalue]⟩
  · rintro ⟨b, ⟨c, hc, hb⟩, rfl⟩
    obtain ⟨hencode, hvalue⟩ := hcode c hc
    rw [hencode, List.mem_singleton] at hb
    exact ⟨c, hc, by rw [hb, hvalue]⟩

theorem readPassthrough_eq_ok_iff {codes : IntSet} :
    readPassthrough document = .ok codes ↔ ∃ text, Holds document "passthrough" text ∧
      (∀ c ∈ text.toList, c.toNat < 128 ∧ c ≠ '\\') ∧
      ∀ n, n ∈ codes ↔ ∃ b ∈ utf8 text, (b.toNat : Int) = n := by
  simp only [← getD_eq_string_iff]
  cases h : (document.get? "passthrough").getD (.string "") with
  | string text =>
    have hallowed : (∀ c ∈ text.toList, c.toNat < 128 ∧ c ≠ '\\') ↔
        isAscii text ∧ '\\' ∉ text.toList := by
      simp only [isAscii, List.all_eq_true, decide_eq_true_eq]
      grind
    simp only [Value.string.injEq, exists_eq_left', hallowed]
    by_cases hascii : isAscii text
    · by_cases hback : '\\' ∈ text.toList
      · simp [readPassthrough, h, hascii, hback]
      · have hread : readPassthrough document = .ok (asciiCodes text) := by
          simp [readPassthrough, h, hascii, hback]
        rw [hread, Except.ok.injEq]
        refine ⟨fun heq => ⟨⟨hascii, hback⟩, heq ▸ mem_asciiCodes_iff hascii⟩, fun hcodes => ?_⟩
        exact IntSet.ext fun n => (mem_asciiCodes_iff hascii n).trans (hcodes.2 n).symm
    · simp [readPassthrough, h, hascii]
  | _ => simp [readPassthrough, h]

theorem listed_eq_ok_iff {listing : Listing} {items : List Value} :
    listed listing document = .ok items ↔ Lists document listing.key items := by
  rw [← getD_eq_array_iff]
  cases h : (document.get? listing.key).getD (.array []) <;> simp [listed, h]

end Reading

section Entries

theorem readByte_eq_ok_iff {v : Value} {b : UInt8} : readByte v = .ok b ↔ v = byteValue b := by
  cases v with
  | int n =>
    have hb := b.toNat_lt
    simp only [readByte, byteValue, Value.int.injEq]
    split
    · rename_i hn
      rw [Except.ok.injEq, ← UInt8.toNat_inj, lowByte, UInt8.toNat_ofNat']
      omega
    · simp only [reduceCtorEq, false_iff]
      omega
  | _ => simp [readByte, byteValue]

theorem mapM_readByte_eq_ok_iff {values : List Value} {raw : Bytes} :
    values.mapM readByte = .ok raw ↔ values = raw.map byteValue := by
  induction values generalizing raw with
  | nil => cases raw <;> simp [pure, Except.pure]
  | cons v values ih =>
    rw [List.mapM_cons, bind_eq_ok_iff]
    simp only [bind_eq_ok_iff, readByte_eq_ok_iff, ih]
    cases raw with
    | nil => simp [pure, Except.pure]
    | cons b raw => simp [pure, Except.pure]

theorem readRaw_array {items : List Value} : readRaw (.array items) =
    if items = [] then .error .missingBytes
    else if 2 < items.length then .error (.tooManyBytes items.length)
    else items.mapM readByte := by
  cases items <;> simp [readRaw, maxGlyphBytes]

theorem readRaw_eq_ok_iff {v : Value} {raw : Bytes} : readRaw v = .ok raw ↔
    v = .array (raw.map byteValue) ∧ (raw.length = 1 ∨ raw.length = 2) := by
  cases v with
  | array items =>
    have hlength : items = raw.map byteValue → items.length = raw.length := by
      rintro rfl
      exact List.length_map _
    rw [readRaw_array, Value.array.injEq]
    by_cases hempty : items = []
    · rw [if_pos hempty]
      grind
    · have hpos := List.length_pos_iff.2 hempty
      rw [if_neg hempty]
      by_cases hmany : 2 < items.length
      · rw [if_pos hmany]
        grind
      · rw [if_neg hmany, mapM_readByte_eq_ok_iff]
        grind
  | _ => simp [readRaw]

theorem declaresGlyph_table_iff {fields : Table} {g : Glyph} :
    DeclaresGlyph (.table fields) g ↔ (fields.getOrNull "chars").nonEmptyText? = some g.chars ∧
      readRaw (fields.getOrNull "bytes") = .ok g.raw := by
  rw [Value.nonEmptyText?_eq_some_iff, readRaw_eq_ok_iff, getOrNull_eq_string_iff,
    getOrNull_eq_array_iff, declaresGlyph_iff]
  simp only [Value.table.injEq, exists_eq_left']
  tauto

theorem readGlyph_eq_ok_iff {earlier : List Glyph} {v : Value} {g : Glyph} :
    readGlyph earlier v = .ok g ↔ DeclaresGlyph v g ∧ ∀ e ∈ earlier, e.raw ≠ g.raw := by
  cases v with
  | table fields =>
    rw [declaresGlyph_table_iff]
    cases hchars : (Table.getOrNull fields "chars").nonEmptyText? with
    | none => simp [readGlyph, hchars]
    | some chars =>
      cases hraw : readRaw (Table.getOrNull fields "bytes") with
      | error fault => simp [readGlyph, hchars, hraw, bind, Except.bind]
      | ok raw =>
        cases howner : earlier.find? (fun e => e.raw = raw) with
        | none =>
          have hnew : ∀ e ∈ earlier, e.raw ≠ raw := by simpa using howner
          have hread : readGlyph earlier (.table fields) = .ok ⟨chars, raw⟩ := by
            simp [readGlyph, hchars, hraw, howner, bind, Except.bind, pure, Except.pure]
          rw [hread]
          cases g
          grind
        | some owner =>
          have howned : owner.raw = raw := by simpa using List.find?_some howner
          have hread : ∃ fault, readGlyph earlier (.table fields) = .error fault := by
            simp [readGlyph, hchars, hraw, howner, bind, Except.bind]
          obtain ⟨fault, hread⟩ := hread
          have hmem := List.mem_of_find?_eq_some howner
          rw [hread]
          grind
  | _ =>
    simp only [readGlyph, reduceCtorEq, false_iff]
    rintro ⟨⟨⟨fields, hfields, -⟩, -⟩, -⟩
    cases hfields

theorem declaresComposite_table_iff {fields : Table} {c : Composite} :
    DeclaresComposite (.table fields) c ↔
      (fields.getOrNull "from").nonEmptyText? = some c.game ∧
        (fields.getOrNull "to").nonEmptyText? = some c.readable := by
  rw [Value.nonEmptyText?_eq_some_iff, Value.nonEmptyText?_eq_some_iff, getOrNull_eq_string_iff,
    getOrNull_eq_string_iff, declaresComposite_iff]
  simp only [Value.table.injEq, exists_eq_left']
  tauto

theorem readComposite_eq_ok_iff {v : Value} {c : Composite} :
    readComposite v = .ok c ↔ DeclaresComposite v c := by
  cases v with
  | table fields =>
    rw [declaresComposite_table_iff]
    cases hgame : (Table.getOrNull fields "from").nonEmptyText? <;>
      cases hreadable : (Table.getOrNull fields "to").nonEmptyText? <;>
        cases c <;> simp [readComposite, hgame, hreadable]
  | _ =>
    simp only [readComposite, reduceCtorEq, false_iff]
    rintro ⟨⟨fields, hfields, -⟩, -⟩
    cases hfields

/-- The glyphs read are those declared, with bytes that are new to each of them. -/
theorem readGlyphs_eq_ok_iff {earlier : List Glyph} {number : Nat} {items : List Value}
    {glyphs : List Glyph} :
    readGlyphs earlier number items = .ok glyphs ↔ List.Forall₂ DeclaresGlyph items glyphs ∧
      (glyphs.map Glyph.raw).Nodup ∧ ∀ g ∈ glyphs, ∀ e ∈ earlier, e.raw ≠ g.raw := by
  -- the reader carries the earlier glyphs along, so no bytes of theirs may come back in the rest
  induction items generalizing earlier number glyphs with
  | nil => cases glyphs <;> simp [readGlyphs]
  | cons v items ih =>
    rw [readGlyphs, bind_eq_ok_iff]
    simp only [bind_eq_ok_iff, mapError_eq_ok_iff, readGlyph_eq_ok_iff, ih]
    cases glyphs with
    | nil => simp [pure, Except.pure]
    | cons g glyphs =>
      simp only [pure, Except.pure, Except.ok.injEq, List.cons.injEq, List.forall₂_cons,
        List.map_cons, List.nodup_cons, List.mem_map, List.forall_mem_cons]
      grind

theorem readComposites_eq_ok_iff {number : Nat} {items : List Value} {composites : List Composite} :
    readComposites number items = .ok composites ↔
      List.Forall₂ DeclaresComposite items composites := by
  induction items generalizing number composites with
  | nil => cases composites <;> simp [readComposites]
  | cons v items ih =>
    rw [readComposites, bind_eq_ok_iff]
    simp only [bind_eq_ok_iff, mapError_eq_ok_iff, readComposite_eq_ok_iff, ih]
    cases composites <;> simp [pure, Except.pure]

end Entries

theorem ofDocument_eq_ok_iff {document : Table} {tables : FontTables} :
    ofDocument document = .ok tables ↔ Declares document tables := by
  simp only [ofDocument, bind_eq_ok_iff, readVersion_eq_ok_iff, readPassthrough_eq_ok_iff,
    listed_eq_ok_iff, readGlyphs_eq_ok_iff, readComposites_eq_ok_iff]
  constructor
  · rintro ⟨version, hversion, codes, hcodes, items, hitems, glyphs, ⟨hglyphs, hdistinct, -⟩, entries,
      hentries, composites, hcomposites, hout⟩
    cases hout
    exact ⟨hversion, hcodes, ⟨items, hitems, hglyphs⟩, hdistinct, entries, hentries, hcomposites⟩
  · rintro ⟨hversion, hcodes, ⟨items, hitems, hglyphs⟩, hdistinct, entries, hentries, hcomposites⟩
    exact ⟨_, hversion, _, hcodes, items, hitems, _, ⟨hglyphs, hdistinct, by simp⟩, entries, hentries,
      _, hcomposites, rfl⟩

section Faults

variable {document : Table}

theorem shownValue?_eq_some_iff {fault : BankFault} {v : Value} : fault.shownValue? = some v ↔
    ∃ listing number, fault = .entry listing number (.invalidByte v) := by
  cases fault with
  | entry listing number cause => cases cause <;> simp [BankFault.shownValue?]
  | _ => simp [BankFault.shownValue?]

theorem mapM_readByte_error {values : List Value} {fault : EntryFault}
    (h : values.mapM readByte = .error fault) : ∃ v ∈ values, fault = .invalidByte v := by
  induction values with
  | nil => cases h
  | cons v values ih =>
    rw [List.mapM_cons, bind_eq_error_iff] at h
    rcases h with hv | ⟨b, -, h⟩
    · refine ⟨v, by simp, ?_⟩
      unfold readByte at hv
      grind
    · rw [bind_eq_error_iff] at h
      rcases h with h | ⟨raw, -, h⟩
      · obtain ⟨w, hw, hfault⟩ := ih h
        exact ⟨w, by simp [hw], hfault⟩
      · cases h

theorem readRaw_error {v b : Value} (h : readRaw v = .error (.invalidByte b)) :
    ∃ values, v = .array values ∧ b ∈ values := by
  cases v with
  | array values =>
    rw [readRaw_array] at h
    split at h
    · cases h
    · split at h
      · cases h
      · obtain ⟨w, hw, hfault⟩ := mapM_readByte_error h
        cases hfault
        exact ⟨values, rfl, hw⟩
  | _ => cases h

/-- The value stands among the bytes of one of the entries. -/
def EntersByte (items : List Value) (b : Value) : Prop :=
  ∃ fields : Table, .table fields ∈ items ∧
    ∃ values, fields.get? "bytes" = some (.array values) ∧ b ∈ values

theorem readGlyph_error {earlier : List Glyph} {v b : Value}
    (h : readGlyph earlier v = .error (.invalidByte b)) : EntersByte [v] b := by
  cases v with
  | table fields =>
    simp only [readGlyph] at h
    split at h
    · cases h
    · rw [bind_eq_error_iff] at h
      rcases h with h | ⟨raw, -, h⟩
      · obtain ⟨values, hvalues, hb⟩ := readRaw_error h
        exact ⟨fields, by simp, values, getOrNull_eq_array_iff.1 hvalues, hb⟩
      · split at h <;> cases h
  | _ => cases h

theorem readGlyphs_error {earlier : List Glyph} {number : Nat} {items : List Value} {fault : BankFault}
    {b : Value} (h : readGlyphs earlier number items = .error fault) (hb : fault.shownValue? = some b) :
    EntersByte items b := by
  induction items generalizing earlier number with
  | nil => cases h
  | cons v items ih =>
    rw [readGlyphs, bind_eq_error_iff] at h
    rcases h with h | ⟨g, -, h⟩
    · obtain ⟨cause, hcause, rfl⟩ := mapError_eq_error_iff.1 h
      obtain ⟨listing, n, heq⟩ := shownValue?_eq_some_iff.1 hb
      cases heq
      obtain ⟨fields, hfields, hvalues⟩ := readGlyph_error hcause
      exact ⟨fields, by simpa using .inl (List.mem_singleton.1 hfields), hvalues⟩
    · rw [bind_eq_error_iff] at h
      rcases h with h | ⟨glyphs, -, h⟩
      · obtain ⟨fields, hfields, hvalues⟩ := ih h
        exact ⟨fields, by simp [hfields], hvalues⟩
      · cases h

theorem readComposite_error {v : Value} {cause : EntryFault} (h : readComposite v = .error cause)
    (listing : Listing) (number : Nat) : (BankFault.entry listing number cause).shownValue? = none := by
  cases v with
  | table fields =>
    simp only [readComposite] at h
    split at h <;> cases h <;> rfl
  | _ => cases h; rfl

theorem readComposites_error {number : Nat} {items : List Value} {fault : BankFault}
    (h : readComposites number items = .error fault) : fault.shownValue? = none := by
  induction items generalizing number with
  | nil => cases h
  | cons v items ih =>
    rw [readComposites, bind_eq_error_iff] at h
    rcases h with h | ⟨c, -, h⟩
    · obtain ⟨cause, hcause, rfl⟩ := mapError_eq_error_iff.1 h
      exact readComposite_error hcause .composites number
    · rw [bind_eq_error_iff] at h
      rcases h with h | ⟨composites, -, h⟩
      · exact ih h
      · cases h

theorem readVersion_error {fault : BankFault} (h : readVersion document = .error fault) :
    fault.shownValue? = none := by
  unfold readVersion at h
  grind [BankFault.shownValue?]

theorem readPassthrough_error {fault : BankFault} (h : readPassthrough document = .error fault) :
    fault.shownValue? = none := by
  unfold readPassthrough at h
  grind [BankFault.shownValue?]

theorem listed_error {listing : Listing} {fault : BankFault}
    (h : listed listing document = .error fault) : fault.shownValue? = none := by
  unfold listed at h
  grind [BankFault.shownValue?]

/-- A value that a fault shows stands among the bytes of an entry. -/
theorem ofDocument_error {fault : BankFault} {b : Value} (h : ofDocument document = .error fault)
    (hb : fault.shownValue? = some b) :
    ∃ items, Lists document "encode" items ∧ EntersByte items b := by
  simp only [ofDocument, bind_eq_error_iff] at h
  rcases h with h | ⟨version, -, h | ⟨codes, -, h | ⟨items, hitems, h | ⟨glyphs, -, h | ⟨entries, -, h⟩⟩⟩⟩⟩
  · simp [readVersion_error h] at hb
  · simp [readPassthrough_error h] at hb
  · simp [listed_error h] at hb
  · exact ⟨items, listed_eq_ok_iff.1 hitems, readGlyphs_error h hb⟩
  · simp [listed_error h] at hb
  · rcases h with h | ⟨composites, -, h⟩
    · simp [readComposites_error h] at hb
    · cases h

/-- The message of a refusal is written, unless it would show a byte value past a limit. -/
theorem message_of_ofDocument_error {fault : BankFault} (h : ofDocument document = .error fault)
    (source : String) :
    (BankError.mk source fault).message = .ok (source ++ ": " ++ fault.message) ∨
      ∃ items b limit, Lists document "encode" items ∧ EntersByte items b ∧
        b.limit? maxShownDepth = some limit ∧
        (BankError.mk source fault).message = .error limit := by
  simp only [BankError.message]
  cases hshown : fault.shownValue? with
  | none => exact .inl rfl
  | some b =>
    cases hlimit : b.limit? maxShownDepth with
    | none => exact .inl (by simp [hlimit])
    | some limit =>
      obtain ⟨items, hitems, hb⟩ := ofDocument_error h hshown
      exact .inr ⟨items, b, limit, hitems, hb, hlimit, by simp [hlimit]⟩

end Faults

/-- The bank has the contents of the tables, the entries in the order in which they are tried. -/
structure Keeps (tables : FontTables) (bank : FontBank) : Prop where
  version : bank.version = tables.version
  passthrough : bank.passthrough = tables.passthrough
  glyphs : StablySorted (fun g => g.raw.length) tables.glyphs bank.glyphs
  composites : StablySorted (fun c => (utf8 c.game).length) tables.composites bank.composites

theorem keeps_bank (tables : FontTables) : Keeps tables tables.bank where
  version := version_bank tables
  passthrough := passthrough_bank tables
  glyphs := stablySorted_sortDescending
  composites := stablySorted_sortDescending

/-- A document is accepted exactly if it declares tables; the bank keeps all of them. Any other document
is refused with a message, unless that would show a byte value past a limit. -/
theorem ofDocument_iff_declares (document : Table) (source : String) :
    (∀ tables, ofDocument document = .ok tables ↔ Declares document tables) ∧
      (∀ tables, ofDocument document = .ok tables → Keeps tables tables.bank) ∧
      ∀ fault, ofDocument document = .error fault →
        (BankError.mk source fault).message = .ok (source ++ ": " ++ fault.message) ∨
          ∃ items b limit, Lists document "encode" items ∧ EntersByte items b ∧
            b.limit? maxShownDepth = some limit ∧
            (BankError.mk source fault).message = .error limit :=
  ⟨fun _ => ofDocument_eq_ok_iff, fun tables _ => keeps_bank tables,
    fun _ h => message_of_ofDocument_error h source⟩

def oneGlyph (n : Int) : Table := [("version", .string "jak2"),
  ("encode", .array [.table [("chars", .string "A"), ("bytes", .array [.int n])]])]

theorem declares_oneGlyph : Declares (oneGlyph 0x41) ⟨.jak2, [⟨"A", [0x41]⟩], [], .empty⟩ where
  version := rfl
  passthrough := ⟨"", .inl ⟨rfl, rfl⟩, by simp, by simp [utf8]⟩
  glyphs := ⟨_, .inr rfl, .cons ⟨⟨_, rfl, rfl, rfl⟩, by decide, by decide⟩ .nil⟩
  distinct := by decide
  composites := ⟨[], .inl ⟨rfl, rfl⟩, .nil⟩

theorem ofDocument_oneGlyph :
    ofDocument (oneGlyph 0x41) = .ok ⟨.jak2, [⟨"A", [0x41]⟩], [], .empty⟩ :=
  ((ofDocument_iff_declares (oneGlyph 0x41) "<config>").1 _).2 declares_oneGlyph

theorem ofDocument_oneGlyph_error {n : Int} (h : ¬ (0 ≤ n ∧ n ≤ 0xff)) :
    ofDocument (oneGlyph n) = .error (.entry .glyphs 1 (.invalidByte (.int n))) := by
  have hbyte : readByte (.int n) = .error (.invalidByte (.int n)) := if_neg h
  have hraw : readRaw (.array [.int n]) = .error (.invalidByte (.int n)) := by
    rw [readRaw_array, if_neg (by simp), if_neg (by simp), List.mapM_cons, hbyte]
    rfl
  have hglyph : readGlyph [] (.table [("chars", .string "A"), ("bytes", .array [.int n])]) =
      .error (.invalidByte (.int n)) := by
    change (readRaw (.array [.int n]) >>= _) = _
    rw [hraw]
    rfl
  have hglyphs : readGlyphs [] 1 [.table [("chars", .string "A"), ("bytes", .array [.int n])]] =
      .error (.entry .glyphs 1 (.invalidByte (.int n))) := by
    rw [readGlyphs, hglyph]
    rfl
  change (readGlyphs [] 1 [.table [("chars", .string "A"), ("bytes", .array [.int n])]] >>= _) = _
  rw [hglyphs]
  rfl

/-- A number of too many digits is refused, but the message that shows it cannot be written. -/
theorem ofDocument_oneGlyph_huge :
    ∃ fault, ofDocument (oneGlyph (Nat.pow 16 3572)) = .error fault ∧
      (BankError.mk "bank.toml" fault).message = .error .digitsWritten := by
  have hrange : ¬ (0 ≤ ((Nat.pow 16 3572 : Nat) : Int) ∧ ((Nat.pow 16 3572 : Nat) : Int) ≤ 0xff) := by
    decide +kernel
  have hdigits : isWritable (Nat.pow 16 3572) = false := by decide +kernel
  refine ⟨_, ofDocument_oneGlyph_error hrange, ?_⟩
  simp only [BankError.message, BankFault.shownValue?, Option.bind_some, Value.limit?, hdigits]
  rfl

end FontTables

end FontCodec
