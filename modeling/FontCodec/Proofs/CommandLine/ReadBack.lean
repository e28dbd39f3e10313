import FontCodec.Proofs.CommandLine.Request
import FontCodec.Proofs.CommandLine.Run

/-!
# Reading back what was printed

The hexadecimal line that one run prints is an operand for the next one, which reads the same bytes from
it and decodes them with the same bank.
-/

namespace FontCodec

namespace Hex

theorem digit_spec {n : Nat} (h : n < 16) : (digit n).toNat < 128 ∧ digit n ≠ '-' := by
  have all : ∀ m : Fin 16, (digit m).toNat < 128 ∧ digit m ≠ '-' := by decide
  exact all ⟨n, h⟩

theorem mem_digits {c : Char} {b : UInt8} (hc : c ∈ digits b) : ∃ n < 16, c = digit n := by
  have hb := b.toNat_lt
  simp only [digits, List.mem_cons, List.not_mem_nil, or_false] at hc
  rcases hc with rfl | rfl
  · exact ⟨_, by omega, rfl⟩
  · exact ⟨_, by omega, rfl⟩

theorem mem_dump {separator : List Char} {c : Char} {bytes : Bytes} (hc : c ∈ dump separator bytes) :
    c ∈ separator ∨ ∃ n < 16, c = digit n := by
  induction bytes with
  | nil => cases hc
  | cons b bytes ih =>
    cases bytes with
    | nil => exact .inr (mem_digits hc)
    | cons b' bytes =>
      rw [dump, List.mem_append, List.mem_append] at hc
      rcases hc with hc | hc | hc
      · exact .inr (mem_digits hc)
      · exact .inl hc
      · exact ih hc

theorem shown_of_ne_nil {bytes : Bytes} (h : bytes ≠ []) :
    shown bytes = String.ofList (dump [' '] bytes) := by
  rw [shown, if_neg (by simpa using h)]
  rfl

theorem read_eq_ok {bytes : Bytes} (h : bytes ≠ []) : read (shown bytes) = .ok bytes := by
  have hascii : nonAsciiIndex? (dump [' '] bytes) = none := by
    rw [nonAsciiIndex?, List.findIdx?_eq_none_iff]
    intro c hc
    rcases mem_dump hc with hc | ⟨n, hn, rfl⟩
    · rw [List.mem_singleton.1 hc]
      decide
    · simpa using (digit_spec hn).1
  rw [shown_of_ne_nil h, read, String.toList_ofList, hascii]
  exact readDigits_dump (List.forall_mem_singleton.2 rfl) 0 bytes

theorem head?_shown_ne {bytes : Bytes} (h : bytes ≠ []) : (shown bytes).toList.head? ≠ some '-' := by
  rw [shown_of_ne_nil h, String.toList_ofList]
  cases bytes with
  | nil => exact absurd rfl h
  | cons b bytes =>
    have hb := b.toNat_lt
    have hhead : (dump [' '] (b :: bytes)).head? = some (digit (b.toNat / 16)) := by
      cases bytes <;> rfl
    rw [hhead]
    exact fun heq => (digit_spec (by omega)).2 (Option.some.inj heq)

end Hex

namespace CommandLine

/-- The arguments ask for encoding the text, with its escapes taken literally or not. -/
inductive AsksToEncode (text : String) : Bool → List String → Prop
  | resolved : AsksToEncode text false ["encode", text]
  | rawFirst : AsksToEncode text true ["encode", "--raw", text]
  | rawLast : AsksToEncode text true ["encode", text, "--raw"]

section Reading

variable {text : String} {raw : Bool} {command : List String}

/-- Behind the name of the command stand the text and the flag, which the command alone knows. -/
theorem AsksToEncode.exists_texts (h : AsksToEncode text raw command)
    (htext : text.toList.head? ≠ some '-') :
    ∃ texts, command = "encode" :: texts ∧ (classify mainOptions texts).isSome ∧
      ∀ settings, readCommand settings "encode" texts = .request ⟨settings, .encode text raw⟩ := by
  obtain ⟨options, hoptions, hraw⟩ : ∃ options, flagsOf "encode" = some options ∧
      roleOf options "--raw" = some (.known .raw none) := ⟨_, rfl, by decide +kernel⟩
  have hunknown : roleOf mainOptions "--raw" = some .unknown := by decide +kernel
  have hne : "--raw" ≠ "--" := by decide
  have htexts {α : Type} (options : Options α) :
      classify options [text] = some [⟨text, .operand⟩] := classify_cons_of_head?_ne htext []
  cases h with
  | resolved =>
    exact ⟨[text], rfl, by rw [htexts]; rfl, fun settings =>
      readCommand_eq_request settings hoptions (htexts options) rfl rfl rfl⟩
  | rawFirst =>
    have hread : classify options ["--raw", text] =
        some [⟨"--raw", .known .raw none⟩, ⟨text, .operand⟩] := by
      rw [classify_cons_of_role hraw hne, htexts, Option.map_some]
    exact ⟨["--raw", text], rfl, by rw [classify_cons_of_role hunknown hne, htexts]; rfl, fun settings =>
      readCommand_eq_request settings hoptions hread rfl rfl rfl⟩
  | rawLast =>
    have hread : classify options [text, "--raw"] =
        some [⟨text, .operand⟩, ⟨"--raw", .known .raw none⟩] := by
      rw [classify_cons_of_head?_ne htext, classify_cons_of_role hraw hne, classify_nil]
      rfl
    exact ⟨[text, "--raw"], rfl,
      by rw [classify_cons_of_head?_ne htext, classify_cons_of_role hunknown hne]; rfl, fun settings =>
      readCommand_eq_request settings hoptions hread rfl rfl rfl⟩

theorem AsksToEncode.ofArguments (h : AsksToEncode text raw command)
    (htext : text.toList.head? ≠ some '-') (options : List (Setting × String)) :
    Invocation.ofArguments (settingArguments options ++ command) =
      (Settings.initial.setAll? options).elim .misuse fun settings =>
        .request ⟨settings, .encode text raw⟩ := by
  obtain ⟨texts, rfl, htexts, hread⟩ := h.exists_texts htext
  rw [ofArguments_command options (by decide) htexts]
  simp only [hread]

theorem ofArguments_decode {hex : String} (hhex : hex.toList.head? ≠ some '-')
    (options : List (Setting × String)) :
    Invocation.ofArguments (settingArguments options ++ ["decode", hex]) =
      (Settings.initial.setAll? options).elim .misuse fun settings =>
        .request ⟨settings, .decode hex false false⟩ :=
  (AsksToDecode.around [] [] (by simp) rfl rfl).ofArguments hhex options

end Reading

section Running

variable {files : Files} {settings : Settings} {arguments : List String}

theorem unlines_singleton (line : String) : unlines [line] = line ++ "\n" := by
  simp [unlines, String.join]

/-- A run that encodes and succeeds has selected a bank and prints what that makes of the text. -/
theorem exists_of_run_encode {text stdout stderr : String} {raw : Bool}
    (hread : Invocation.ofArguments arguments = .request ⟨settings, .encode text raw⟩)
    (h : run files arguments = .finished 0 stdout stderr) :
    ∃ selection bank payload, settings.select files = .ok selection ∧ selection.bank = .ok bank ∧
      bank.encode text (!raw) = .ok payload ∧ stdout = Hex.shown payload ++ "\n" := by
  rw [run_eq_ofResult hread] at h
  obtain ⟨t, hrun, hstatus, rfl, -⟩ := Outcome.exists_of_ofResult h
  obtain ⟨selection, bank, transcript, hselect, hbank, hrun, hstatus, hstdout⟩ :=
    Request.exists_of_run (by simp) hrun hstatus
  simp only [Command.run, encodeRun] at hrun
  cases hencode : bank.encode text (!raw) with
  | error e =>
    rw [hencode] at hrun
    obtain rfl := Except.ok.inj hrun
    exact absurd hstatus Nat.one_ne_zero
  | ok payload =>
    rw [hencode] at hrun
    obtain rfl := Except.ok.inj hrun
    refine ⟨selection, bank, payload, hselect, hbank, hencode, ?_⟩
    rw [← hstdout, Transcript.stdout, unlines_singleton]

/-- A run that decodes what a dump shows prints what the selected bank makes of the bytes. -/
theorem run_decode_shown {selection : Selection} {bank : FontBank} {payload : Bytes}
    {readable : String} (hne : payload ≠ [])
    (hread : Invocation.ofArguments arguments =
      .request ⟨settings, .decode (Hex.shown payload) false false⟩)
    (hselect : settings.select files = .ok selection) (hbank : selection.bank = .ok bank)
    (hdecode : bank.decode payload false = .ok readable) :
    ∃ stderr, run files arguments = .finished 0 (readable ++ "\n") stderr := by
  have hanswer : decodeRun bank (Hex.shown payload) false false = .ok ⟨0, [readable], []⟩ := by
    simp [decodeRun, Hex.read_eq_ok hne, FontBank.decodeRecording, bytesOfInts_toNat, hdecode]
  simp [run, hread, Request.run, hselect, hbank, bind, Except.bind, pure, Except.pure, Command.run,
    hanswer, Transcript.after, Transcript.stdout, unlines_singleton]

end Running

/-- What is shown of bytes is read as these bytes. So wherever a run encodes a text, decoding the line
that it prints, with the same options, prints the readable text of the same payload. -/
theorem run_decode_of_encode :
    (∀ payload : Bytes, payload ≠ [] → Hex.read (Hex.shown payload) = .ok payload) ∧
    ∀ (files : Files) (options : List (Setting × String)) (text : String) (raw : Bool)
      (command : List String) (stdout stderr : String),
      text.toList.head? ≠ some '-' → AsksToEncode text raw command →
      run files (settingArguments options ++ command) = .finished 0 stdout stderr →
      ∃ settings bank payload line, Settings.initial.setAll? options = some settings ∧
        Selects files settings bank ∧ bank.encode text (!raw) = .ok payload ∧
        stdout = line ++ "\n" ∧ line = Hex.shown payload ∧
        (payload ≠ [] → ∃ readable stderr, bank.decode payload false = .ok readable ∧
          run files (settingArguments options ++ ["decode", line]) =
            .finished 0 (readable ++ "\n") stderr) := by
  refine ⟨fun payload hne => Hex.read_eq_ok hne, ?_⟩
  intro files options text raw command stdout stderr htext hcommand hrun
  have hread := hcommand.ofArguments htext options
  cases hset : Settings.initial.setAll? options with
  | none =>
    rw [hset] at hread
    simp [run, hread] at hrun
  | some settings =>
    rw [hset] at hread
    obtain ⟨selection, bank, payload, hselect, hbank, hencode, hout⟩ := exists_of_run_encode hread hrun
    have hselects := selects_of_select hselect hbank
    refine ⟨settings, bank, payload, _, rfl, hselects, hencode, hout, rfl, fun hne => ?_⟩
    obtain ⟨readable, hdecode, -⟩ := FontBank.exists_decode hselects.ascii payload
    have hagain := ofArguments_decode (Hex.head?_shown_ne hne) options
    rw [hset] at hagain
    obtain ⟨errors, hdecoded⟩ := run_decode_shown hne hagain hselect hbank hdecode
    exact ⟨readable, errors, hdecode, hdecoded⟩

def oneBank : Files := fun path =>
  if path = "bank.toml" then
    .file (utf8 "version = \"jak1-v1\"\n[[encode]]\nchars = \"é\"\nbytes = [0x61, 0x62]\n")
  else .absent

/-- A glyph and a byte without one, with the bank of a file. -/
theorem run_decode_of_encode_oneBank :
    run oneBank (settingArguments [(.config, "./bank.toml")] ++ ["encode", "é\\c00"]) =
        .finished 0 "61 62 00\n" "" ∧
      ∃ readable stderr,
        run oneBank (settingArguments [(.config, "./bank.toml")] ++ ["decode", "61 62 00"]) =
          .finished 0 (readable ++ "\n") stderr := by
  have hrun : run oneBank (settingArguments [(.config, "./bank.toml")] ++ ["encode", "é\\c00"]) =
      .finished 0 "61 62 00\n" "" := by decide +kernel
  obtain ⟨settings, bank, payload, line, -, -, -, hout, hline, hagain⟩ :=
    run_decode_of_encode.2 oneBank _ "é\\c00" false _ _ _ (by decide) .resolved hrun
  obtain rfl : line = "61 62 00" := by
    have hlists := congrArg String.toList hout
    rw [String.toList_append] at hlists
    have hlines : line.toList ++ "\n".toList = "61 62 00".toList ++ "\n".toList := hlists.symm
    exact String.toList_inj.1 (List.append_cancel_right hlines)
  have hne : payload ≠ [] := by
    rintro rfl
    exact absurd hline (by decide)
  obtain ⟨readable, stderr, -, hdecoded⟩ := hagain hne
  exact ⟨hrun, readable, stderr, hdecoded⟩

end CommandLine

end FontCodec
