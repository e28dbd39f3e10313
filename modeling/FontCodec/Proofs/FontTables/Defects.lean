import FontCodec.Proofs.FontTables.Document

/-!
# The defects of a document

All that is wrong with a document, in the order in which it is checked. Reading the document reports the
first of its defects.
-/

namespace FontCodec

section Reports

variable {α β ε ε' : Type} {x : Except ε α} {f : α → Except ε β} {faults more : List ε}

/-- The result is the first of the faults, and there is one unless there is no fault. -/
def Reports (x : Except ε α) (faults : List ε) : Prop := ∀ e, x = .error e ↔ faults.head? = some e

theorem reports_ok (a : α) : Reports (.ok a : Except ε α) [] := by simp [Reports]

theorem reports_error (e : ε) (faults : List ε) : Reports (.error e : Except ε α) (e :: faults) := by
  simp [Reports]

theorem Reports.bind (hx : Reports x faults) (hf : ∀ a, x = .ok a → Reports (f a) more) :
    Reports (x >>= f) (faults ++ more) := by
  cases x with
  | error e =>
    have hfirst : faults.head? = some e := (hx e).1 rfl
    intro e'
    rw [List.head?_append, hfirst]
    simp [Bind.bind, Except.bind]
  | ok a =>
    have hnone : faults = [] := by
      cases faults with
      | nil => rfl
      | cons e faults => exact absurd ((hx e).2 rfl) (by simp)
    rw [hnone, List.nil_append]
    exact hf a rfl

/-- Putting a result together from what was read adds no fault. -/
theorem Reports.bind_pure (hx : Reports x faults) (g : α → β) :
    Reports (x >>= fun a => pure (g a)) faults := by
  rw [← List.append_nil faults]
  exact hx.bind fun a _ => reports_ok (g a)

theorem Reports.mapError (hx : Reports x faults) (g : ε → ε') :
    Reports (x.mapError g) (faults.map g) := by
  intro e
  rw [mapError_eq_error_iff, List.head?_map, Option.map_eq_some_iff]
  exact exists_congr fun cause => and_congr_left' (hx cause)

end Reports

def Value.byte? : Value → Option UInt8
  | .int n => if 0 ≤ n ∧ n ≤ 0xff then some (lowByte n) else none
  | _ => none

namespace FontTables

/-- The bytes that a value lists, which are some but not too many. -/
def raw? : Value → Option Bytes
  | .array items =>
    if 0 < items.length ∧ items.length ≤ maxGlyphBytes then items.mapM Value.byte? else none
  | _ => none

def glyph? : Value → Option Glyph
  | .table fields => do
    let chars ← (Table.getOrNull fields "chars").nonEmptyText?
    let raw ← raw? (Table.getOrNull fields "bytes")
    return ⟨chars, raw⟩
  | _ => none

section Defects

def versionDefects (document : Table) : List BankFault :=
  match document.getOrNull "version" with
  | .null => [.missingVersion]
  | .string name => if name ∈ Version.names then [] else [.unknownVersion name]
  | _ => [.versionNotText]

def passthroughDefects (document : Table) : List BankFault :=
  match document.get? "passthrough" with
  | none => []
  | some (.string text) =>
    (if isAscii text then [] else [.passthroughNotAscii]) ++
      (if '\\' ∈ text.toList then [.passthroughBackslash] else [])
  | some _ => [.passthroughNotText]

/-- The bytes have to be some, but not too many, and each of them a byte. -/
def bytesDefects : Value → List EntryFault
  | .array (v :: rest) =>
    (if maxGlyphBytes < (v :: rest).length then [.tooManyBytes (v :: rest).length] else []) ++
      ((v :: rest).filter fun b => b.byte?.isNone).map .invalidByte
  | _ => [.missingBytes]

/-- A glyph must not have the bytes of one in front of it. -/
def reuseDefects (before : List Value) (v : Value) : List EntryFault :=
  match glyph? v with
  | none => []
  | some g =>
    ((before.filterMap glyph?).filter fun owner => owner.raw = g.raw).map fun owner =>
      .reusedBytes g.chars g.raw owner.chars

def textDefects (fields : Table) (key : String) (fault : EntryFault) : List EntryFault :=
  if (fields.getOrNull key).nonEmptyText?.isSome then [] else [fault]

/-- All that is wrong with an entry behind those of a list in front of it. -/
def entryDefects (listing : Listing) (before : List Value) : Value → List EntryFault
  | .table fields =>
    match listing with
    | .glyphs =>
      textDefects fields "chars" .missingChars ++ (bytesDefects (Table.getOrNull fields "bytes") ++
        reuseDefects before (.table fields))
    | .composites =>
      textDefects fields "from" (.missingText "from") ++ textDefects fields "to" (.missingText "to")
  | v => [.notATable v]

def entriesDefects (listing : Listing) (before : List Value) : List Value → List BankFault
  | [] => []
  | v :: rest =>
    (entryDefects listing before v).map (.entry listing (before.length + 1)) ++
      entriesDefects listing (before ++ [v]) rest

/-- The values that a document lists. -/
def items (document : Table) (listing : Listing) : List Value :=
  match document.get? listing.key with
  | some (.array items) => items
  | _ => []

def listDefects (document : Table) (listing : Listing) : List BankFault :=
  match document.get? listing.key with
  | none => []
  | some (.array _) => []
  | some _ => [.notAnArray listing]

def listingDefects (document : Table) (listing : Listing) : List BankFault :=
  listDefects document listing ++ entriesDefects listing [] (items document listing)

/-- All that is wrong with a document, in the order in which it is checked. -/
def defects (document : Table) : List BankFault :=
  versionDefects document ++ (passthroughDefects document ++
    (listingDefects document .glyphs ++ listingDefects document .composites))

end Defects

section Checks

variable {document : Table}

theorem reports_readVersion (document : Table) :
    Reports (readVersion document) (versionDefects document) := by
  cases h : document.getOrNull "version" with
  | null => simpa [readVersion, versionDefects, h] using reports_error _ []
  | string name =>
    cases hname : Version.ofName? name with
    | none =>
      have hmem : name ∉ Version.names := by
        intro hmem
        obtain ⟨v, -, rfl⟩ := List.mem_map.1 hmem
        rw [Version.ofName?_name] at hname
        cases hname
      simpa [readVersion, versionDefects, h, hname, hmem] using reports_error _ []
    | some v =>
      have hmem : name ∈ Version.names :=
        List.mem_map.2 ⟨v, Version.mem_all v, Version.ofName?_eq_some_iff.1 hname⟩
      simpa [readVersion, versionDefects, h, hname, hmem] using reports_ok v
  | _ => simpa [readVersion, versionDefects, h] using reports_error _ []

theorem reports_readPassthrough (document : Table) :
    Reports (readPassthrough document) (passthroughDefects document) := by
  cases h : document.get? "passthrough" with
  | none =>
    have hempty : readPassthrough document = .ok (asciiCodes "") := by
      simp [readPassthrough, h, isAscii]
    rw [hempty]
    simpa [passthroughDefects, h] using reports_ok _
  | some v =>
    cases v with
    | string text =>
      by_cases hascii : isAscii text = true
      · by_cases hback : '\\' ∈ text.toList
        · simpa [readPassthrough, passthroughDefects, h, hascii, hback] using reports_error _ []
        · simpa [readPassthrough, passthroughDefects, h, hascii, hback] using reports_ok _
      · simpa [readPassthrough, passthroughDefects, h, hascii] using reports_error _ _
    | _ => simpa [readPassthrough, passthroughDefects, h] using reports_error _ []

theorem reports_listed (document : Table) (listing : Listing) :
    Reports (listed listing document) (listDefects document listing) := by
  cases h : document.get? listing.key with
  | none => simpa [listed, listDefects, h] using reports_ok _
  | some v =>
    cases v with
    | array items => simpa [listed, listDefects, h] using reports_ok _
    | _ => simpa [listed, listDefects, h] using reports_error _ []

theorem items_of_lists {listing : Listing} {values : List Value}
    (h : Lists document listing.key values) : items document listing = values := by
  rcases h with ⟨hnone, rfl⟩ | hsome
  · simp [items, hnone]
  · simp [items, hsome]

theorem eq_items_of_listed {listing : Listing} {values : List Value}
    (h : listed listing document = .ok values) : values = items document listing :=
  (items_of_lists (listed_eq_ok_iff.1 h)).symm

end Checks

section Entries

theorem readByte_eq (v : Value) : readByte v = match v.byte? with
    | some b => .ok b
    | none => .error (.invalidByte v) := by
  cases v with
  | int n => by_cases h : 0 ≤ n ∧ n ≤ 0xff <;> simp [readByte, Value.byte?, h]
  | _ => rfl

/-- The bytes are read from left to right. -/
theorem reports_bytes (values : List Value) : Reports (values.mapM readByte)
    ((values.filter fun b => b.byte?.isNone).map .invalidByte) := by
  induction values with
  | nil => exact reports_ok []
  | cons v values ih =>
    rw [List.mapM_cons, readByte_eq]
    cases h : v.byte? with
    | none =>
      rw [List.filter_cons_of_pos (by simp [h]), List.map_cons]
      exact reports_error _ _
    | some b =>
      rw [List.filter_cons_of_neg (by simp [h])]
      exact ih.bind_pure (b :: ·)

theorem reports_readRaw (v : Value) : Reports (readRaw v) (bytesDefects v) := by
  cases v with
  | array items =>
    rw [readRaw_array]
    cases items with
    | nil => exact reports_error _ _
    | cons v rest =>
      rw [if_neg (List.cons_ne_nil v rest), bytesDefects, maxGlyphBytes]
      by_cases hmany : 2 < (v :: rest).length
      · rw [if_pos hmany, if_pos hmany]
        exact reports_error _ _
      · rw [if_neg hmany, if_neg hmany]
        exact reports_bytes (v :: rest)
  | _ => exact reports_error _ _

theorem mapM_byte?_eq_some_iff {values : List Value} {raw : Bytes} :
    values.mapM Value.byte? = some raw ↔ values.mapM readByte = .ok raw := by
  induction values generalizing raw with
  | nil => simp [pure, Except.pure]
  | cons v values ih =>
    rw [List.mapM_cons, List.mapM_cons, readByte_eq]
    cases v.byte? with
    | none => simp [bind, Except.bind]
    | some b =>
      simp only [bind_eq_ok_iff, ← ih]
      simp [pure, Except.pure, Option.bind_eq_some_iff]

theorem raw?_eq_some_iff {v : Value} {raw : Bytes} : raw? v = some raw ↔ readRaw v = .ok raw := by
  cases v with
  | array items =>
    rw [readRaw_array, raw?, maxGlyphBytes]
    by_cases hempty : items = []
    · simp [hempty]
    · have hpos := List.length_pos_iff.2 hempty
      by_cases hmany : 2 < items.length
      · simp [hempty, hmany]
      · rw [if_pos ⟨hpos, by omega⟩, if_neg hempty, if_neg hmany, mapM_byte?_eq_some_iff]
  | _ => simp [raw?, readRaw]

theorem glyph?_eq_some_iff {v : Value} {g : Glyph} : glyph? v = some g ↔ DeclaresGlyph v g := by
  cases v with
  | table fields =>
    rw [declaresGlyph_table_iff, ← raw?_eq_some_iff]
    cases g
    simp [glyph?, Option.bind_eq_some_iff]
  | _ =>
    simp only [glyph?, reduceCtorEq, false_iff]
    rintro ⟨⟨fields, hfields, -⟩, -⟩
    cases hfields

/-- The glyph that already has the bytes stands for the only entry in front with them. -/
theorem reports_reuse {before : List Value} {earlier : List Glyph}
    (hearlier : before.filterMap glyph? = earlier.reverse) (hdistinct : (earlier.map Glyph.raw).Nodup)
    {v : Value} {chars : String} {raw : Bytes} (hv : glyph? v = some ⟨chars, raw⟩) :
    Reports (match earlier.find? (fun g => g.raw = raw) with
      | some owner => .error (.reusedBytes chars raw owner.chars)
      | none => .ok (Glyph.mk chars raw)) (reuseDefects before v) := by
  have hreuse : reuseDefects before v = ((earlier.filter fun owner => owner.raw = raw).reverse).map
      fun owner => .reusedBytes chars raw owner.chars := by
    simp [reuseDefects, hv, hearlier, List.filter_reverse]
  cases howner : earlier.find? (fun g => g.raw = raw) with
  | none =>
    have hnone : earlier.filter (fun owner => owner.raw = raw) = [] :=
      List.filter_eq_nil_iff.2 (List.find?_eq_none.1 howner)
    rw [hreuse, hnone]
    exact reports_ok _
  | some owner =>
    obtain ⟨howned, front, rest, rfl, hfront⟩ := List.find?_eq_some_iff_append.1 howner
    have hrest : ∀ g ∈ rest, g.raw ≠ raw := by
      rintro g hg rfl
      rw [List.map_append, List.map_cons] at hdistinct
      have hfresh := (List.nodup_cons.1 hdistinct.of_append_right).1
      exact hfresh (List.mem_map.2 ⟨g, hg, (of_decide_eq_true howned).symm⟩)
    have hfilter : (front ++ owner :: rest).filter (fun g => g.raw = raw) = [owner] := by
      rw [List.filter_append, List.filter_cons, if_pos howned,
        List.filter_eq_nil_iff.2 (by simpa using hfront),
        List.filter_eq_nil_iff.2 (by simpa using hrest), List.nil_append]
    rw [hreuse, hfilter]
    exact reports_error _ _

theorem reports_readGlyph {before : List Value} {earlier : List Glyph}
    (hearlier : before.filterMap glyph? = earlier.reverse) (hdistinct : (earlier.map Glyph.raw).Nodup)
    (v : Value) : Reports (readGlyph earlier v) (entryDefects .glyphs before v) := by
  cases v with
  | table fields =>
    cases hchars : (Table.getOrNull fields "chars").nonEmptyText? with
    | none => simpa [readGlyph, entryDefects, textDefects, hchars] using reports_error _ _
    | some chars =>
      simp only [readGlyph, entryDefects, textDefects, hchars, Option.isSome_some, if_true,
        List.nil_append]
      refine (reports_readRaw _).bind fun raw hraw => reports_reuse hearlier hdistinct ?_
      rw [glyph?_eq_some_iff, declaresGlyph_table_iff]
      exact ⟨hchars, hraw⟩
  | _ => exact reports_error _ _

theorem reports_readComposite (before : List Value) (v : Value) :
    Reports (readComposite v) (entryDefects .composites before v) := by
  cases v with
  | table fields =>
    cases hgame : (Table.getOrNull fields "from").nonEmptyText? with
    | none => simpa [readComposite, entryDefects, textDefects, hgame] using reports_error _ _
    | some game =>
      cases hreadable : (Table.getOrNull fields "to").nonEmptyText? with
      | none => simpa [readComposite, entryDefects, textDefects, hgame, hreadable] using reports_error _ _
      | some readable =>
        simpa [readComposite, entryDefects, textDefects, hgame, hreadable] using reports_ok _
  | _ => exact reports_error _ _

end Entries

section Runs

/-- The glyphs in front of an entry are those that the reader carries along. -/
theorem reports_readGlyphs {before : List Value} {earlier : List Glyph}
    (hearlier : before.filterMap glyph? = earlier.reverse) (hdistinct : (earlier.map Glyph.raw).Nodup)
    (values : List Value) :
    Reports (readGlyphs earlier (before.length + 1) values) (entriesDefects .glyphs before values) := by
  induction values generalizing before earlier with
  | nil => exact reports_ok []
  | cons v rest ih =>
    refine ((reports_readGlyph hearlier hdistinct v).mapError _).bind fun g hg => ?_
    obtain ⟨hv, hfresh⟩ := readGlyph_eq_ok_iff.1 (mapError_eq_ok_iff.1 hg)
    have hearlier' : (before ++ [v]).filterMap glyph? = (g :: earlier).reverse := by
      simp [hearlier, glyph?_eq_some_iff.2 hv]
    have hdistinct' : ((g :: earlier).map Glyph.raw).Nodup := by
      rw [List.map_cons, List.nodup_cons]
      refine ⟨?_, hdistinct⟩
      rw [List.mem_map]
      rintro ⟨e, he, hraw⟩
      exact hfresh e he hraw
    have hrest := ih hearlier' hdistinct'
    rw [List.length_append, List.length_singleton] at hrest
    exact hrest.bind_pure (g :: ·)

theorem reports_readComposites (before values : List Value) :
    Reports (readComposites (before.length + 1) values) (entriesDefects .composites before values) := by
  induction values generalizing before with
  | nil => exact reports_ok []
  | cons v rest ih =>
    refine ((reports_readComposite before v).mapError _).bind fun c _ => ?_
    have hrest := ih (before ++ [v])
    rw [List.length_append, List.length_singleton] at hrest
    exact hrest.bind_pure (c :: ·)

theorem reports_ofDocument (document : Table) : Reports (ofDocument document) (defects document) := by
  have hglyphs : Reports (readGlyphs [] 1 (items document .glyphs))
      (entriesDefects .glyphs [] (items document .glyphs)) :=
    @reports_readGlyphs [] [] rfl List.nodup_nil _
  simp only [defects, listingDefects, List.append_assoc]
  refine (reports_readVersion document).bind fun version _ => ?_
  refine (reports_readPassthrough document).bind fun passthrough _ => ?_
  refine (reports_listed document .glyphs).bind fun values hvalues => ?_
  rw [eq_items_of_listed hvalues]
  refine hglyphs.bind fun glyphs _ => ?_
  refine (reports_listed document .composites).bind fun values hvalues => ?_
  rw [eq_items_of_listed hvalues]
  exact (reports_readComposites [] _).bind_pure _

end Runs

end FontTables

end FontCodec
