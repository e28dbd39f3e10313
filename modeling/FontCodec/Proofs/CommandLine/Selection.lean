import FontCodec.CommandLine.Conversion
import FontCodec.Proofs.FontBank.Totality
import FontCodec.Proofs.FontTables.Document

/-!
# The selected bank

The bank that the settings of a command line select. Only ASCII codes pass in it, be it built in or
declared by a file.
-/

namespace FontCodec

namespace FontTables

theorem Declares.ascii {document : Table} {tables : FontTables} (h : Declares document tables) :
    tables.bank.AsciiPassthrough := by
  obtain ⟨text, -, hallowed, hcodes⟩ := h.passthrough
  intro code hcode
  obtain ⟨b, hb, rfl⟩ := (hcodes code).1 hcode
  rw [utf8_eq_flatMap, List.mem_flatMap] at hb
  obtain ⟨c, hc, hb⟩ := hb
  rw [utf8EncodeChar_of_lt (hallowed c hc).1, List.mem_singleton] at hb
  have hlt := (hallowed c hc).1
  rw [hb, UInt8.toNat_ofNat']
  omega

theorem ofFile_ascii {source : String} {contents : Bytes} {tables : FontTables}
    (h : ofFile source contents = .ok tables) : tables.bank.AsciiPassthrough := by
  unfold ofFile at h
  split at h
  · cases h
  · split at h
    · cases h
    · cases h
    · exact (ofDocument_eq_ok_iff.1 (mapError_eq_ok_iff.1 h)).ascii

end FontTables

namespace BuiltIn

theorem bank_ascii (v : Version) : (bank v).AsciiPassthrough := by
  cases v <;> decide +kernel

end BuiltIn

namespace CommandLine

/-- The bank of the settings: the one that the file declares, or else the built-in one of the name. -/
inductive Selects (files : Files) (settings : Settings) : FontBank → Prop
  | builtIn (v : Version) (hconfig : settings.config = none) (hname : v.name = settings.textVersion) :
    Selects files settings (BuiltIn.bank v)
  | file (path : String) (contents : Bytes) (tables : FontTables)
    (hconfig : settings.config = some path)
    (hfile : files (normalized path) = .file contents)
    (htables : FontTables.ofFile (normalized path) contents = .ok tables) :
    Selects files settings tables.bank

section Selecting

variable {files : Files} {settings : Settings} {bank : FontBank}

theorem Selects.ascii (h : Selects files settings bank) : bank.AsciiPassthrough := by
  cases h with
  | builtIn v => exact BuiltIn.bank_ascii v
  | file path contents tables hconfig hfile htables => exact FontTables.ofFile_ascii htables

theorem selects_of_select {selection : Selection} (h : settings.select files = .ok selection)
    (hbank : selection.bank = .ok bank) : Selects files settings bank := by
  cases hconfig : settings.config with
  | none =>
    simp only [Settings.select, hconfig] at h
    obtain rfl := Except.ok.inj h
    rw [mapError_eq_ok_iff] at hbank
    simp only [BuiltIn.find, Selector.resolve, Version.ofNameValue] at hbank
    cases hname : Version.ofName? settings.textVersion with
    | none => simp [hname, Except.map] at hbank
    | some v =>
      obtain rfl : BuiltIn.bank v = bank := by simpa [hname, Except.map] using hbank
      exact .builtIn v hconfig (Version.ofName?_eq_some_iff.1 hname)
  | some path =>
    simp only [Settings.select, hconfig] at h
    split at h
    · obtain rfl := Except.ok.inj h
      cases hbank
    · cases h
    · cases h
    · rename_i contents hfile
      split at h
      · cases h
      · cases h
      · split at h
        · cases h
        · obtain rfl := Except.ok.inj h
          cases hbank
      · rename_i tables htables
        obtain rfl := Except.ok.inj h
        obtain rfl := Except.ok.inj hbank
        exact .file path contents tables hconfig hfile htables

end Selecting

end CommandLine

end FontCodec
