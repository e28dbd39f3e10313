import FontCodec.Proofs.CommandLine.Request
import FontCodec.Proofs.CommandLine.Run

/-!
# The log level of a run

The log level decides which records are shown and nothing else. No run leaves a record above those for
information, so all the levels above show the same.
-/

namespace FontCodec

theorem FontTables.level_of_mem_loadRecords {source : String} {tables : FontTables} {r : LogRecord}
    (h : r ∈ tables.loadRecords source) : r.level = .debug := by
  simp only [loadRecords, List.mem_cons, List.not_mem_nil, or_false] at h
  rcases h with rfl | rfl <;> rfl

theorem BuiltIn.level_of_mem_loadRecords {r : LogRecord} (h : r ∈ loadRecords) : r.level = .debug := by
  obtain ⟨v, -, hr⟩ := List.mem_flatMap.1 h
  exact FontTables.level_of_mem_loadRecords hr

namespace CommandLine

def Settings.atLevel (settings : Settings) (level : LogLevel) : Settings :=
  { settings with logLevel := level }

section Options

variable (settings : Settings) (level : LogLevel)

theorem Settings.setAll?_append (options options' : List (Setting × String)) :
    settings.setAll? (options ++ options') =
      (settings.setAll? options).bind fun settings => settings.setAll? options' := by
  induction options generalizing settings with
  | nil => rfl
  | cons option options ih =>
    rw [List.cons_append, setAll?, setAll?]
    split
    · cases settings.set option.1 option.2 with
      | none => rfl
      | some settings => exact ih settings
    · rfl

/-- An option for something else sets the same at any log level. -/
theorem Settings.set_atLevel {s : Setting} (h : s ≠ .logLevel) (value : String) :
    (settings.atLevel level).set s value = (settings.set s value).map (·.atLevel level) := by
  cases s with
  | logLevel => exact absurd rfl h
  | _ => rfl

theorem Settings.setAll?_atLevel {options : List (Setting × String)}
    (h : ∀ option ∈ options, option.1 ≠ .logLevel) :
    (settings.atLevel level).setAll? options = (settings.setAll? options).map (·.atLevel level) := by
  induction options generalizing settings with
  | nil => rfl
  | cons option options ih =>
    rw [List.forall_mem_cons] at h
    rw [setAll?, setAll?, set_atLevel settings level h.1]
    split
    · cases settings.set option.1 option.2 with
      | none => rfl
      | some settings => exact ih settings h.2
    · rfl

/-- An option for the log level, with none for it behind, has no part in the other settings. -/
theorem Settings.setAll?_logLevel (before : List (Setting × String))
    {after : List (Setting × String)} (hafter : ∀ option ∈ after, option.1 ≠ .logLevel) :
    settings.setAll? (before ++ (.logLevel, level.name) :: after) =
      (settings.setAll? (before ++ after)).map (·.atLevel level) := by
  have hrole : roleOf mainOptions level.name = some .operand := by cases level <;> decide +kernel
  rw [setAll?_append, setAll?_append]
  cases settings.setAll? before with
  | none => rfl
  | some settings =>
    rw [Option.bind_some, Option.bind_some, ← setAll?_atLevel settings level hafter, setAll?, if_pos hrole,
      set, LogLevel.ofName?_name]
    rfl

end Options

/-- No record of the transcript is above those for information. -/
def Transcript.IsQuiet (t : Transcript) : Prop :=
  ∀ r, Note.record r ∈ t.notes → r.level ∈ [LogLevel.debug, .info]

section Levels

variable {files : Files} {t : Transcript} {level level' : LogLevel}

theorem isShown_eq_false {r : LogRecord} (hr : r.level ∈ [LogLevel.debug, .info])
    (h : level ∉ [LogLevel.debug, .info]) : r.isShown level = false := by
  unfold LogRecord.isShown
  cases hl : r.level <;> cases level <;> simp_all [LogLevel.severity]

/-- The levels above all records show the same. -/
theorem Transcript.IsQuiet.stderr_eq (ht : t.IsQuiet) (h : level ∉ [LogLevel.debug, .info])
    (h' : level' ∉ [LogLevel.debug, .info]) : t.stderr level = t.stderr level' := by
  rw [stderr, stderr]
  congr 1
  refine List.filterMap_congr fun n hn => ?_
  cases n with
  | record r => rw [Note.line?, Note.line?, isShown_eq_false (ht r hn) h, isShown_eq_false (ht r hn) h']
  | text line => rfl

theorem Transcript.isQuiet_refused (reason : Refusal) : (refused reason).IsQuiet := by
  simp [IsQuiet, refused]

theorem Transcript.IsQuiet.after {records : List LogRecord}
    (hrecords : ∀ r ∈ records, r.level ∈ [LogLevel.debug, .info]) (ht : t.IsQuiet) :
    (t.after records).IsQuiet := by
  intro r hr
  rcases List.mem_append.1 hr with hr | hr
  · obtain ⟨r', hr', heq⟩ := List.mem_map.1 hr
    obtain rfl := Note.record.inj heq
    exact hrecords r' hr'
  · exact ht r hr

theorem Settings.level_of_select {settings : Settings} {selection : Selection}
    (h : settings.select files = .ok selection) : ∀ r ∈ selection.records, r.level = .debug := by
  intro r hr
  unfold select at h
  split at h
  · obtain rfl := Except.ok.inj h
    exact BuiltIn.level_of_mem_loadRecords hr
  · simp only at h
    split at h
    · obtain rfl := Except.ok.inj h
      cases hr
    · cases h
    · cases h
    · split at h
      · cases h
      · cases h
      · split at h
        · cases h
        · obtain rfl := Except.ok.inj h
          cases hr
      · obtain rfl := Except.ok.inj h
        exact FontTables.level_of_mem_loadRecords hr

theorem Command.isQuiet_of_run {bank : FontBank} {command : Command} (h : command.run bank = .ok t) :
    t.IsQuiet := by
  cases command with
  | versions =>
    obtain rfl := Except.ok.inj h
    simp [Transcript.IsQuiet]
  | encode text raw =>
    obtain rfl := Except.ok.inj h
    rw [encodeRun]
    split
    · exact Transcript.isQuiet_refused _
    · simp [Transcript.IsQuiet]
  | decode hex korean jamoReport =>
    rw [run, decodeRun] at h
    split at h
    · obtain rfl := Except.ok.inj h
      exact Transcript.isQuiet_refused _
    · simp only at h
      split at h
      · cases h
      · obtain rfl := Except.ok.inj h
        simp [Transcript.IsQuiet, note]

/-- No run of the converter leaves a record above those for information. -/
theorem Request.isQuiet_of_run {r : Request} (h : r.run files = .ok t) : t.IsQuiet := by
  obtain ⟨settings, command⟩ := r
  by_cases hcommand : command = .versions
  · subst hcommand
    obtain rfl := Except.ok.inj h
    simp [Transcript.IsQuiet]
  · rw [run_eq_bind hcommand, bind_eq_ok_iff] at h
    obtain ⟨selection, hselect, hrun⟩ := h
    have hrecords := Settings.level_of_select hselect
    obtain ⟨e, rfl⟩ | ⟨bank, transcript, -, hbank, rfl⟩ := selection.run_cases hrun
    · exact (Transcript.isQuiet_refused e).after fun r hr => by simp [hrecords r hr]
    · refine (Command.isQuiet_of_run hbank).after fun r hr => ?_
      rcases List.mem_append.1 hr with hr | hr
      · simp [hrecords r hr]
      · simp [List.mem_singleton.1 hr, note]

end Levels

theorem Request.run_atLevel (files : Files) (settings : Settings) (level : LogLevel)
    (command : Command) :
    Request.run files ⟨settings.atLevel level, command⟩ = Request.run files ⟨settings, command⟩ := by
  cases command <;> rfl

/-- The outcome with nothing on the error stream. -/
def Outcome.unlogged : Outcome → Outcome
  | finished status stdout _ => finished status stdout ""
  | outcome => outcome

theorem Outcome.unlogged_ofResult (result : Except Abort Transcript) (level level' : LogLevel) :
    (ofResult level result).unlogged = (ofResult level' result).unlogged := by
  cases result <;> rfl

end CommandLine

end FontCodec
