import FontCodec.Proofs.FontTables.Defects

/-!
# The first defect of a document

Nothing behind the part that the first defect of a document is about has a say in what is reported, and
the defect of an entry is reported with the number of this entry.
-/

namespace FontCodec

namespace FontTables

section Agreement

variable {document other : Table} {listing : Listing} {fault : BankFault}

/-- The first fault of a list is that of its first entry with a fault. -/
theorem head?_entriesDefects {before values : List Value} :
    (entriesDefects listing before values).head? = some fault ↔
      ∃ front v rest cause, values = front ++ v :: rest ∧ entriesDefects listing before front = [] ∧
        (entryDefects listing (before ++ front) v).head? = some cause ∧
        fault = .entry listing (before.length + front.length + 1) cause := by
  induction values generalizing before with
  | nil => simp [entriesDefects]
  | cons v rest ih =>
    have hnumber (front : List Value) : (before ++ [v]).length + front.length + 1 =
        before.length + (v :: front).length + 1 := by
      simp only [List.length_append, List.length_cons, List.length_nil]
      omega
    rw [entriesDefects, List.head?_append, Option.or_eq_some_iff, List.head?_map, ih]
    constructor
    · rintro (h | ⟨hv, front, w, rest, cause, rfl, hfront, hw, rfl⟩)
      · obtain ⟨cause, hcause, rfl⟩ := Option.map_eq_some_iff.1 h
        exact ⟨[], v, rest, cause, rfl, rfl, by simpa using hcause, rfl⟩
      · have hnone : entryDefects listing before v = [] := by simpa using hv
        refine ⟨v :: front, w, rest, cause, rfl, ?_, by simpa using hw, by rw [hnumber]⟩
        rw [entriesDefects, hnone, hfront]
        rfl
    · rintro ⟨front, w, more, cause, hvalues, hfront, hw, rfl⟩
      cases front with
      | nil =>
        cases hvalues
        rw [List.append_nil] at hw
        exact .inl (by simp [hw])
      | cons u front =>
        cases hvalues
        obtain ⟨hu, hfront⟩ := List.append_eq_nil_iff.1 hfront
        exact .inr ⟨by simpa using hu, front, w, more, cause, rfl, hfront, by simpa using hw,
          by rw [hnumber]⟩

/-- The keys of what is read in front of a list. -/
def keysBefore : Listing → List String
  | .glyphs => ["version", "passthrough"]
  | .composites => ["version", "passthrough", "encode"]

def AgreeOn (document other : Table) (keys : List String) : Prop :=
  ∀ key ∈ keys, other.get? key = document.get? key

/-- Two documents agree on all that is checked up to what a fault is about, that included. -/
def AgreeThrough (document other : Table) : BankFault → Prop
  | .syntaxError => other = document
  | .missingVersion | .versionNotText | .unknownVersion _ => AgreeOn document other ["version"]
  | .passthroughNotText | .passthroughNotAscii | .passthroughBackslash =>
    AgreeOn document other ["version", "passthrough"]
  | .notAnArray listing => AgreeOn document other (keysBefore listing ++ [listing.key])
  | .entry listing number _ => AgreeOn document other (keysBefore listing) ∧
    ∃ front rest rest', front.length = number ∧ Lists document listing.key (front ++ rest) ∧
      Lists other listing.key (front ++ rest')

theorem listDefects_of_lists {values : List Value} (h : Lists document listing.key values) :
    listDefects document listing = [] := by
  rcases h with ⟨hnone, rfl⟩ | hsome
  · simp [listDefects, hnone]
  · simp [listDefects, hsome]

theorem listingDefects_of_lists {values : List Value} (h : Lists document listing.key values) :
    listingDefects document listing = entriesDefects listing [] values := by
  rw [listingDefects, listDefects_of_lists h, items_of_lists h, List.nil_append]

theorem lists_or_notAnArray (document : Table) (listing : Listing) :
    (∃ values, Lists document listing.key values) ∨
      listDefects document listing = [.notAnArray listing] := by
  cases h : document.get? listing.key with
  | none => exact .inl ⟨[], .inl ⟨h, rfl⟩⟩
  | some v =>
    cases v with
    | array values => exact .inl ⟨values, .inr h⟩
    | _ => exact .inr (by simp [listDefects, h])

/-- What is reported of a list is that it is not one, or the fault of an entry. -/
theorem head?_listingDefects (h : (listingDefects document listing).head? = some fault) :
    (listDefects document listing = [.notAnArray listing] ∧ fault = .notAnArray listing) ∨
      ∃ front v rest cause, Lists document listing.key (front ++ v :: rest) ∧
        entriesDefects listing [] front = [] ∧ (entryDefects listing front v).head? = some cause ∧
        fault = .entry listing (front.length + 1) cause := by
  rcases lists_or_notAnArray document listing with ⟨values, hvalues⟩ | hnot
  · rw [listingDefects_of_lists hvalues, head?_entriesDefects] at h
    obtain ⟨front, v, rest, cause, rfl, hfront, hv, rfl⟩ := h
    exact .inr ⟨front, v, rest, cause, hvalues, hfront, hv, by simp⟩
  · rw [listingDefects, hnot] at h
    exact .inl ⟨hnot, (Option.some.inj h).symm⟩

/-- The entries behind the one that is reported have no say. -/
theorem head?_listingDefects_of_agreeThrough
    (h : (listingDefects document listing).head? = some fault)
    (hagree : AgreeThrough document other fault) :
    AgreeOn document other (keysBefore listing) ∧
      (listingDefects other listing).head? = some fault := by
  rcases head?_listingDefects h with ⟨hnot, rfl⟩ | ⟨front, v, rest, cause, hlists, hfront, hv, rfl⟩
  · have hkey : other.get? listing.key = document.get? listing.key := hagree _ (by simp)
    refine ⟨fun key hk => hagree key (List.mem_append_left _ hk), ?_⟩
    rwa [listingDefects, listDefects, items, hkey]
  · obtain ⟨hkeys, common, rest', more, hlength, hthis, hother⟩ := hagree
    have hcommon : common = front ++ [v] := by
      have heq := (items_of_lists hthis).symm.trans (items_of_lists hlists)
      rw [← List.singleton_append, ← List.append_assoc] at heq
      exact (List.append_inj heq (by simp [hlength])).1
    rw [hcommon, List.append_assoc] at hother
    refine ⟨hkeys, ?_⟩
    rw [listingDefects_of_lists hother, head?_entriesDefects]
    exact ⟨front, v, more, cause, rfl, hfront, hv, by simp⟩

theorem versionDefects_congr (h : other.get? "version" = document.get? "version") :
    versionDefects other = versionDefects document := by
  rw [versionDefects, versionDefects, Table.getOrNull, Table.getOrNull, h]

theorem passthroughDefects_congr (h : other.get? "passthrough" = document.get? "passthrough") :
    passthroughDefects other = passthroughDefects document := by
  rw [passthroughDefects, passthroughDefects, h]

theorem listingDefects_congr (h : other.get? listing.key = document.get? listing.key) :
    listingDefects other listing = listingDefects document listing := by
  rw [listingDefects, listingDefects, listDefects, listDefects, items, items, h]

theorem mem_versionDefects (h : fault ∈ versionDefects document) :
    fault = .missingVersion ∨ fault = .versionNotText ∨ ∃ name, fault = .unknownVersion name := by
  unfold versionDefects at h
  split at h
  · exact .inl (List.mem_singleton.1 h)
  · rename_i name _
    split at h
    · cases h
    · exact .inr (.inr ⟨name, List.mem_singleton.1 h⟩)
  · exact .inr (.inl (List.mem_singleton.1 h))

theorem mem_passthroughDefects (h : fault ∈ passthroughDefects document) :
    fault = .passthroughNotText ∨ fault = .passthroughNotAscii ∨ fault = .passthroughBackslash := by
  unfold passthroughDefects at h
  split at h
  · cases h
  · rcases List.mem_append.1 h with h | h
    · split at h
      · cases h
      · exact .inr (.inl (List.mem_singleton.1 h))
    · split at h
      · exact .inr (.inr (List.mem_singleton.1 h))
      · cases h
  · exact .inl (List.mem_singleton.1 h)

/-- What stands behind the part that the first fault is about has no say in it. -/
theorem head?_defects_of_agreeThrough (h : (defects document).head? = some fault)
    (hagree : AgreeThrough document other fault) : (defects other).head? = some fault := by
  simp only [defects, List.head?_append, Option.or_eq_some_iff] at h ⊢
  rcases h with h | ⟨hversion, h | ⟨hpass, h | ⟨hglyphs, h⟩⟩⟩
  · have hkeys : AgreeOn document other ["version"] := by
      rcases mem_versionDefects (List.mem_of_head? h) with rfl | rfl | ⟨name, rfl⟩ <;> exact hagree
    exact .inl (by rwa [versionDefects_congr (hkeys "version" (by simp))])
  · have hkeys : AgreeOn document other ["version", "passthrough"] := by
      rcases mem_passthroughDefects (List.mem_of_head? h) with rfl | rfl | rfl <;> exact hagree
    rw [versionDefects_congr (hkeys "version" (by simp)),
      passthroughDefects_congr (hkeys "passthrough" (by simp))]
    exact .inr ⟨hversion, .inl h⟩
  · obtain ⟨hkeys, hother⟩ := head?_listingDefects_of_agreeThrough h hagree
    rw [versionDefects_congr (hkeys "version" (by simp [keysBefore])),
      passthroughDefects_congr (hkeys "passthrough" (by simp [keysBefore]))]
    exact .inr ⟨hversion, .inr ⟨hpass, .inl hother⟩⟩
  · obtain ⟨hkeys, hother⟩ := head?_listingDefects_of_agreeThrough h hagree
    have hencode : other.get? (Listing.key .glyphs) = document.get? (Listing.key .glyphs) :=
      hkeys "encode" (by simp [keysBefore])
    rw [versionDefects_congr (hkeys "version" (by simp [keysBefore])),
      passthroughDefects_congr (hkeys "passthrough" (by simp [keysBefore])),
      listingDefects_congr hencode]
    exact .inr ⟨hversion, .inr ⟨hpass, .inr ⟨hglyphs, hother⟩⟩⟩

/-- The number of a fault is that of the entry it is about. -/
theorem exists_entry_of_head?_defects {number : Nat} {cause : EntryFault}
    (h : (defects document).head? = some (.entry listing number cause)) :
    ∃ front v rest, Lists document listing.key (front ++ v :: rest) ∧ number = front.length + 1 ∧
      (entryDefects listing front v).head? = some cause := by
  have hlisting {l : Listing} (h : (listingDefects document l).head? = some (.entry listing number cause)) :
      ∃ front v rest, Lists document listing.key (front ++ v :: rest) ∧ number = front.length + 1 ∧
        (entryDefects listing front v).head? = some cause := by
    rcases head?_listingDefects h with ⟨-, hfault⟩ | ⟨front, v, rest, _, hlists, -, hv, hfault⟩
    · cases hfault
    · cases hfault
      exact ⟨front, v, rest, hlists, rfl, hv⟩
  simp only [defects, List.head?_append, Option.or_eq_some_iff] at h
  rcases h with h | ⟨-, h | ⟨-, h | ⟨-, h⟩⟩⟩
  · simpa using mem_versionDefects (List.mem_of_head? h)
  · simpa using mem_passthroughDefects (List.mem_of_head? h)
  · exact hlisting h
  · exact hlisting h

end Agreement

/-- A refusal reports the first of the defects of a document, and any other document that agrees with it
up to this defect is refused alike. A defect of an entry is reported with the number of the entry. The
message is written, unless it would show a byte value past a limit. -/
theorem ofDocument_reports_first_defect (document : Table) (source : String) :
    (∀ fault, ofDocument document = .error fault ↔ (defects document).head? = some fault) ∧
      (∀ fault other, ofDocument document = .error fault → AgreeThrough document other fault →
        ofDocument other = .error fault) ∧
      (∀ listing number cause, ofDocument document = .error (.entry listing number cause) →
        ∃ front v rest, Lists document listing.key (front ++ v :: rest) ∧ number = front.length + 1 ∧
          (entryDefects listing front v).head? = some cause ∧
          (BankFault.entry listing number cause).message =
            listing.key ++ " entry #" ++ toString (front.length + 1) ++ cause.message) ∧
      ∀ fault, ofDocument document = .error fault →
        (BankError.mk source fault).message = .ok (source ++ ": " ++ fault.message) ∨
          ∃ items b limit, Lists document "encode" items ∧ EntersByte items b ∧
            b.limit? maxShownDepth = some limit ∧
            (BankError.mk source fault).message = .error limit := by
  have hreports := reports_ofDocument document
  refine ⟨hreports, fun fault other h hagree => ?_, fun listing number cause h => ?_,
    fun fault h => message_of_ofDocument_error h source⟩
  · rw [reports_ofDocument other fault]
    exact head?_defects_of_agreeThrough ((hreports fault).1 h) hagree
  · obtain ⟨front, v, rest, hlists, rfl, hv⟩ := exists_entry_of_head?_defects ((hreports _).1 h)
    exact ⟨front, v, rest, hlists, rfl, hv, rfl⟩

def glyphEntry (chars : String) (n : Int) : Value :=
  .table [("chars", .string chars), ("bytes", .array [.int n])]

def twoGlyphs (n : Int) : Table := [("version", .string "jak2"),
  ("encode", .array [glyphEntry "A" 0x41, glyphEntry "B" n])]

/-- A document whose second glyph has the bytes of the first, with more that is wrong behind it. -/
def manyDefects : Table := [("version", .string "jak2"),
  ("encode", .array [glyphEntry "A" 0x41, glyphEntry "B" 0x41, .null, glyphEntry "" 0x141]),
  ("replace", .bool true)]

theorem ofDocument_manyDefects :
    ofDocument manyDefects = .error (.entry .glyphs 2 (.reusedBytes "B" [0x41] "A")) ∧
      ofDocument (twoGlyphs 0x41) = .error (.entry .glyphs 2 (.reusedBytes "B" [0x41] "A")) := by
  obtain ⟨hfirst, hagree, -⟩ := ofDocument_reports_first_defect manyDefects "bank.toml"
  have herror := (hfirst (.entry .glyphs 2 (.reusedBytes "B" [0x41] "A"))).2 rfl
  have hkeys : AgreeOn manyDefects (twoGlyphs 0x41) (keysBefore .glyphs) := by
    simp only [AgreeOn, keysBefore, List.forall_mem_cons]
    exact ⟨rfl, rfl, by simp⟩
  exact ⟨herror, hagree _ _ herror ⟨hkeys, [glyphEntry "A" 0x41, glyphEntry "B" 0x41],
    [.null, glyphEntry "" 0x141], [], rfl, .inr rfl, .inr rfl⟩⟩

theorem ofDocument_twoGlyphs_error {n : Int} (h : ¬ (0 ≤ n ∧ n ≤ 0xff)) :
    ofDocument (twoGlyphs n) = .error (.entry .glyphs 2 (.invalidByte (.int n))) := by
  have hbyte : (Value.int n).byte? = none := if_neg h
  have hbytes : bytesDefects (.array [.int n]) = [.invalidByte (.int n)] := by
    simp [bytesDefects, maxGlyphBytes, hbyte]
  have hentry : (entryDefects .glyphs [glyphEntry "A" 0x41] (glyphEntry "B" n)).head? =
      some (.invalidByte (.int n)) := by
    change (bytesDefects (.array [.int n]) ++ _).head? = _
    rw [hbytes]
    rfl
  have hfirst : (entriesDefects .glyphs [] [glyphEntry "A" 0x41, glyphEntry "B" n]).head? =
      some (.entry .glyphs 2 (.invalidByte (.int n))) :=
    head?_entriesDefects.2 ⟨[glyphEntry "A" 0x41], glyphEntry "B" n, [], _, rfl, rfl, hentry, rfl⟩
  rw [reports_ofDocument]
  change (entriesDefects .glyphs [] [glyphEntry "A" 0x41, glyphEntry "B" n] ++ _).head? = _
  rw [List.head?_append, hfirst]
  rfl

/-- The message that a number of too many digits at the second glyph calls for cannot be written. -/
theorem ofDocument_twoGlyphs_huge :
    ofDocument (twoGlyphs (Nat.pow 16 3572)) =
        .error (.entry .glyphs 2 (.invalidByte (.int (Nat.pow 16 3572)))) ∧
      (BankError.mk "bank.toml" (.entry .glyphs 2 (.invalidByte (.int (Nat.pow 16 3572))))).message =
        .error .digitsWritten := by
  have hrange : ¬ (0 ≤ ((Nat.pow 16 3572 : Nat) : Int) ∧ ((Nat.pow 16 3572 : Nat) : Int) ≤ 0xff) := by
    decide +kernel
  have hdigits : isWritable (Nat.pow 16 3572) = false := by decide +kernel
  refine ⟨ofDocument_twoGlyphs_error hrange, ?_⟩
  simp only [BankError.message, BankFault.shownValue?, Option.bind_some, Value.limit?, hdigits]
  rfl

end FontTables

end FontCodec
