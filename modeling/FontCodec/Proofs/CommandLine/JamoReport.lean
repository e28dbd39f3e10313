import FontCodec.Proofs.CommandLine.Logging
import FontCodec.Proofs.CommandLine.ReadBack
import FontCodec.Proofs.FontBank.Recording

/-!
# Reports beside the answer

A run that reports on the packed sequences of its payload gives the answer of a run that decodes Korean
without a report. The report stands behind everything else on the error stream, where the log level shows
records for information.
-/

namespace FontCodec.CommandLine

/-- The lines of a report on the payload that an operand spells, if it spells one. -/
def reportOn (hex : String) : List String :=
  match Hex.read hex with
  | .ok payload => (Jamo.Collector.empty.recordPayload payload).report
  | .error _ => []

/-- The transcript with the lines of a report behind its notes, if the run succeeded. -/
def Transcript.reporting (lines : List String) (t : Transcript) : Transcript :=
  if t.status = 0 then { t with notes := t.notes ++ lines.map fun line => .record (note line) } else t

section Transcripts

variable {t : Transcript} {lines : List String} {level level' : LogLevel}

theorem unlines_append (lines lines' : List String) :
    unlines (lines ++ lines') = unlines lines ++ unlines lines' := by
  simp [unlines]

theorem line_note (line : String) : (note line).line = "INFO:gametext.cli:" ++ line := by
  have hfront : "INFO" ++ ":" ++ "gametext.cli" ++ ":" = "INFO:gametext.cli:" := by decide
  rw [← hfront]
  rfl

theorem isShown_note (line : String) :
    (note line).isShown level = decide (level ∈ [LogLevel.debug, .info]) := by
  cases level <;> rfl

/-- The lines of a report are shown for information, and none of them above. -/
theorem filterMap_line?_note (lines : List String) (level : LogLevel) :
    (lines.map fun line => Note.record (note line)).filterMap (Note.line? level) =
      if level ∈ [LogLevel.debug, .info] then lines.map ("INFO:gametext.cli:" ++ ·) else [] := by
  rw [List.filterMap_map]
  split
  · rename_i h
    rw [← List.filterMap_eq_map]
    refine List.filterMap_congr fun line _ => ?_
    simp [Note.line?, isShown_note, h, line_note]
  · rename_i h
    simp [Note.line?, isShown_note, h]

theorem Transcript.status_reporting : (t.reporting lines).status = t.status := by
  rw [reporting]
  split <;> rfl

theorem Transcript.stdout_reporting : (t.reporting lines).stdout = t.stdout := by
  rw [reporting]
  split <;> rfl

theorem Transcript.reporting_of_status_ne (h : t.status ≠ 0) : t.reporting lines = t := if_neg h

theorem Transcript.stderr_reporting (h : t.status = 0) :
    (t.reporting lines).stderr level = t.stderr level ++
      unlines (if level ∈ [LogLevel.debug, .info] then lines.map ("INFO:gametext.cli:" ++ ·) else []) := by
  rw [reporting, if_pos h, stderr, List.filterMap_append, filterMap_line?_note, unlines_append]
  rfl

theorem Transcript.stderr_reporting_of_notMem (h : level ∉ [LogLevel.debug, .info]) :
    (t.reporting lines).stderr level = t.stderr level := by
  by_cases hstatus : t.status = 0
  · rw [stderr_reporting hstatus, if_neg h]
    simp [unlines]
  · rw [reporting_of_status_ne hstatus]

theorem Transcript.reporting_after (records : List LogRecord) :
    (t.after records).reporting lines = (t.reporting lines).after records := by
  by_cases hstatus : t.status = 0 <;> simp [reporting, after, hstatus]

end Transcripts

section Outcomes

variable {result : Except Abort Transcript} {lines : List String} {level level' : LogLevel}
  {stdout stderr : String}

theorem Outcome.unlogged_reporting :
    (ofResult level (result.map (·.reporting lines))).unlogged = (ofResult level result).unlogged := by
  cases result with
  | error reason => rfl
  | ok t =>
    simp only [Except.map, ofResult, unlogged, Transcript.status_reporting, Transcript.stdout_reporting]

/-- Behind a success the report is shown. -/
theorem Outcome.reporting_of_finished (h : ofResult level result = .finished 0 stdout stderr)
    (hlevel : level ∈ [LogLevel.debug, .info]) :
    ofResult level (result.map (·.reporting lines)) =
      .finished 0 stdout (stderr ++ unlines (lines.map ("INFO:gametext.cli:" ++ ·))) := by
  obtain ⟨t, rfl, hstatus, rfl, rfl⟩ := exists_of_ofResult h
  simp only [Except.map, ofResult, Transcript.status_reporting, Transcript.stdout_reporting,
    Transcript.stderr_reporting hstatus, hstatus, if_pos hlevel]

theorem Outcome.reporting_of_ne
    (h : ∀ stdout stderr, ofResult level result ≠ .finished 0 stdout stderr) :
    ofResult level (result.map (·.reporting lines)) = ofResult level result := by
  cases result with
  | error reason => rfl
  | ok t =>
    have hstatus : t.status ≠ 0 := fun hstatus => h t.stdout (t.stderr level) (by rw [ofResult, hstatus])
    simp only [Except.map, Transcript.reporting_of_status_ne hstatus]

theorem Outcome.reporting_of_notMem (hquiet : ∀ t, result = .ok t → t.IsQuiet)
    (h : level ∉ [LogLevel.debug, .info]) (h' : level' ∉ [LogLevel.debug, .info]) :
    ofResult level (result.map (·.reporting lines)) = ofResult level' result := by
  cases result with
  | error reason => rfl
  | ok t =>
    simp only [Except.map, ofResult, Transcript.status_reporting, Transcript.stdout_reporting,
      Transcript.stderr_reporting_of_notMem h, (hquiet t rfl).stderr_eq h h']

end Outcomes

section Running

variable {files : Files} {settings : Settings} {hex : String}

/-- Decoding with a report decodes as Korean, and the report follows an answer. -/
theorem decodeRun_jamoReport (bank : FontBank) (hex : String) (korean : Bool) :
    decodeRun bank hex korean true =
      (decodeRun bank hex true false).map (·.reporting (reportOn hex)) := by
  rw [decodeRun, decodeRun, reportOn]
  cases Hex.read hex with
  | error position => rfl
  | ok payload =>
    simp only [Bool.or_true, Bool.or_false, if_true, Bool.false_eq_true, if_false,
      FontBank.decodeRecording_korean]
    cases bank.decode payload true <;> rfl

theorem Selection.run_jamoReport (selection : Selection) (hex : String) (korean : Bool) :
    selection.run (.decode hex korean true) =
      (selection.run (.decode hex true false)).map (·.reporting (reportOn hex)) := by
  rw [run, run]
  cases selection.bank with
  | error e => rfl
  | ok bank =>
    simp only [Command.run, decodeRun_jamoReport]
    cases decodeRun bank hex true false with
    | error reason => rfl
    | ok t => exact congrArg Except.ok (Transcript.reporting_after _).symm

theorem Request.run_jamoReport (files : Files) (settings : Settings) (hex : String) (korean : Bool) :
    Request.run files ⟨settings, .decode hex korean true⟩ =
      (Request.run files ⟨settings, .decode hex true false⟩).map (·.reporting (reportOn hex)) := by
  rw [run_eq_bind (by simp), run_eq_bind (by simp)]
  cases settings.select files with
  | error reason => rfl
  | ok selection => exact Selection.run_jamoReport selection hex korean

/-- A run that decodes and succeeds has read a payload. -/
theorem Request.exists_payload {korean jamoReport : Bool} {t : Transcript}
    (h : Request.run files ⟨settings, .decode hex korean jamoReport⟩ = .ok t) (hstatus : t.status = 0) :
    ∃ payload, Hex.read hex = .ok payload := by
  obtain ⟨-, bank, transcript, -, -, hrun, hstatus, -⟩ := exists_of_run (by simp) h hstatus
  cases hread : Hex.read hex with
  | error position =>
    simp only [Command.run, decodeRun, hread] at hrun
    obtain rfl := Except.ok.inj hrun
    exact absurd hstatus Nat.one_ne_zero
  | ok payload => exact ⟨payload, rfl⟩

/-- A run whose options hold one for the log level, with none for it behind. -/
def runAt (files : Files) (before after : List (Setting × String)) (command : List String)
    (level : LogLevel) : Outcome :=
  run files (settingArguments (before ++ (.logLevel, level.name) :: after) ++ command)

theorem runAt_decode (files : Files) (before : List (Setting × String))
    {after : List (Setting × String)} (hafter : ∀ option ∈ after, option.1 ≠ .logLevel)
    (hhex : hex.toList.head? ≠ some '-') {korean jamoReport : Bool} {command : List String}
    (h : AsksToDecode hex korean jamoReport command) (level : LogLevel) :
    runAt files before after command level =
      (Settings.initial.setAll? (before ++ after)).elim .misuse fun settings =>
        .ofResult level (Request.run files ⟨settings, .decode hex korean jamoReport⟩) := by
  have hread := h.ofArguments hhex (before ++ (.logLevel, level.name) :: after)
  rw [Settings.setAll?_logLevel _ level before hafter] at hread
  cases hset : Settings.initial.setAll? (before ++ after) with
  | none =>
    rw [hset] at hread
    simp only [runAt, run, hread, Option.map_none, Option.elim_none]
  | some settings =>
    rw [hset] at hread
    rw [runAt, run_eq_ofResult hread, Request.run_atLevel]
    rfl

end Running

/-- Whatever the log levels are, a run that decodes with a report ends as one that decodes Korean does and
prints the same. Where the level shows records for information, a successful run writes the report of a
collector that has taken in just the payload behind everything else. Other than that both runs write the
same, and so they do at any two levels above. -/
theorem run_decode_jamoReport (files : Files) (before after : List (Setting × String))
    (hafter : ∀ option ∈ after, option.1 ≠ .logLevel) (hex : String)
    (hhex : hex.toList.head? ≠ some '-') (korean : Bool) (plain reporting : List String)
    (hplain : AsksToDecode hex true false plain)
    (hreporting : AsksToDecode hex korean true reporting) :
    (∀ level level', (runAt files before after reporting level).unlogged =
      (runAt files before after plain level').unlogged) ∧
    (∀ level ∈ [LogLevel.debug, .info], ∀ stdout stderr,
      runAt files before after plain level = .finished 0 stdout stderr →
      ∃ payload collector, Hex.read hex = .ok payload ∧
        Jamo.retagInto .empty .start payload = (Jamo.retag payload, collector) ∧
        runAt files before after reporting level = .finished 0 stdout
          (stderr ++ unlines (collector.report.map ("INFO:gametext.cli:" ++ ·)))) ∧
    (∀ level, (∀ stdout stderr, runAt files before after plain level ≠ .finished 0 stdout stderr) →
      runAt files before after reporting level = runAt files before after plain level) ∧
    ∀ level level', level ∉ [LogLevel.debug, .info] → level' ∉ [LogLevel.debug, .info] →
      runAt files before after reporting level = runAt files before after plain level' := by
  simp only [runAt_decode files before hafter hhex hplain, runAt_decode files before hafter hhex hreporting,
    Request.run_jamoReport files _ hex korean]
  cases Settings.initial.setAll? (before ++ after) with
  | none => simp
  | some settings =>
    -- Both runs now show one result, the second one with the report behind its notes.
    simp only [Option.elim_some]
    refine ⟨fun level level' => ?_, fun level hlevel stdout stderr hfinished => ?_,
      fun level => Outcome.reporting_of_ne,
      fun level level' => Outcome.reporting_of_notMem fun t => Request.isQuiet_of_run⟩
    · exact Outcome.unlogged_reporting.trans (Outcome.unlogged_ofResult _ level level')
    · obtain ⟨t, hresult, hstatus, -⟩ := Outcome.exists_of_ofResult hfinished
      obtain ⟨payload, hread⟩ := Request.exists_payload hresult hstatus
      refine ⟨payload, _, hread, Jamo.retagInto_start _ payload, ?_⟩
      rw [Outcome.reporting_of_finished hfinished hlevel, reportOn, hread]

/-- A span of one component, with a bank from a file that has no glyph for it. -/
theorem run_decode_jamoReport_oneBank :
    run oneBank ["--log-level", "INFO", "--config", "bank.toml", "decode", "040106", "--korean"] =
        .finished 0 "\\c03\\c06\n" "INFO:gametext.cli:Using jak1-v1 font bank\n" ∧
      ∃ report : List String, "0x306" ∈ report ∧
        run oneBank ["--log-level", "INFO", "--config", "bank.toml", "decode", "--jamo-report", "040106"] =
          .finished 0 "\\c03\\c06\n" ("INFO:gametext.cli:Using jak1-v1 font bank\n" ++
            unlines (report.map ("INFO:gametext.cli:" ++ ·))) := by
  have hplain : run oneBank
      ["--log-level", "INFO", "--config", "bank.toml", "decode", "040106", "--korean"] =
        .finished 0 "\\c03\\c06\n" "INFO:gametext.cli:Using jak1-v1 font bank\n" := by decide +kernel
  obtain ⟨payload, collector, hread, hretag, hreporting⟩ :=
    (run_decode_jamoReport oneBank [] [(.config, "bank.toml")] (by simp) "040106" (by decide) false
      ["decode", "040106", "--korean"] ["decode", "--jamo-report", "040106"]
      (.around [] [.korean] (by simp) rfl rfl)
      (.around [.jamoReport] [] (by simp) rfl rfl)).2.1 .info (by simp) _ _ hplain
  have hpayload : Hex.read "040106" = .ok [0x04, 0x01, 0x06] := by decide +kernel
  obtain rfl : [0x04, 0x01, 0x06] = payload := Except.ok.inj (hpayload.symm.trans hread)
  obtain rfl : (Jamo.retagInto .empty .start [0x04, 0x01, 0x06]).2 = collector :=
    congrArg Prod.snd hretag
  refine ⟨hplain, _, ?_, hreporting⟩
  decide +kernel

end FontCodec.CommandLine
