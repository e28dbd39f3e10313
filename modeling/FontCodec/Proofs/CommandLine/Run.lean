import FontCodec.Proofs.CommandLine.Selection

/-!
# The stages of a run

A run selects a bank, runs its command with the bank, and shows what that leaves from its log level on.
-/

namespace FontCodec.CommandLine

variable {files : Files} {settings : Settings} {selection : Selection} {command : Command}
  {t : Transcript}

/-- The run of a command behind the selection of a bank. -/
def Selection.run (selection : Selection) (command : Command) : Except Abort Transcript :=
  match selection.bank with
  | .error e => .ok ((Transcript.refused e).after selection.records)
  | .ok bank => do
    let transcript ← command.run bank
    return transcript.after (selection.records ++ [note ("Using " ++ bank.name ++ " font bank")])

theorem Request.run_eq_bind (h : command ≠ .versions) :
    Request.run files ⟨settings, command⟩ = settings.select files >>= (·.run command) := by
  cases command with
  | versions => exact absurd rfl h
  | _ => rfl

/-- What a run leaves is a refusal of the bank or what the command leaves, behind the records of the
selection. -/
theorem Selection.run_cases (h : selection.run command = .ok t) :
    (∃ e, t = (Transcript.refused e).after selection.records) ∨
      ∃ bank transcript, selection.bank = .ok bank ∧ command.run bank = .ok transcript ∧
        t = transcript.after
          (selection.records ++ [note ("Using " ++ bank.name ++ " font bank")]) := by
  rw [run] at h
  split at h
  · rename_i e hbank
    exact .inl ⟨e, (Except.ok.inj h).symm⟩
  · rename_i bank hbank
    obtain ⟨transcript, hcommand, htranscript⟩ := bind_eq_ok_iff.1 h
    exact .inr ⟨bank, transcript, hbank, hcommand, (Except.ok.inj htranscript).symm⟩

/-- A run that succeeds has selected a bank, with which its command succeeds. -/
theorem Request.exists_of_run (hcommand : command ≠ .versions)
    (h : Request.run files ⟨settings, command⟩ = .ok t) (hstatus : t.status = 0) :
    ∃ selection bank transcript, settings.select files = .ok selection ∧ selection.bank = .ok bank ∧
      command.run bank = .ok transcript ∧ transcript.status = 0 ∧ transcript.stdout = t.stdout := by
  rw [run_eq_bind hcommand] at h
  obtain ⟨selection, hselect, hrun⟩ := bind_eq_ok_iff.1 h
  obtain ⟨e, rfl⟩ | ⟨bank, transcript, hbank, hcommand, rfl⟩ := selection.run_cases hrun
  · exact absurd hstatus Nat.one_ne_zero
  · exact ⟨selection, bank, transcript, hselect, hbank, hcommand, hstatus, rfl⟩

/-- How a run ends that leaves the transcript, or that is stopped without one. -/
def Outcome.ofResult (threshold : LogLevel) : Except Abort Transcript → Outcome
  | .ok t => .finished t.status t.stdout (t.stderr threshold)
  | .error reason => .aborted reason

theorem run_eq_ofResult {arguments : List String} {r : Request}
    (h : Invocation.ofArguments arguments = .request r) :
    run files arguments = .ofResult r.settings.logLevel (r.run files) := by
  simp only [run, h]
  cases r.run files <;> rfl

theorem Outcome.exists_of_ofResult {level : LogLevel} {result : Except Abort Transcript}
    {stdout stderr : String} (h : ofResult level result = .finished 0 stdout stderr) :
    ∃ t, result = .ok t ∧ t.status = 0 ∧ t.stdout = stdout ∧ t.stderr level = stderr := by
  cases result with
  | error reason => cases h
  | ok t =>
    obtain ⟨hstatus, hstdout, hstderr⟩ := Outcome.finished.inj h
    exact ⟨t, rfl, hstatus, hstdout, hstderr⟩

end FontCodec.CommandLine
