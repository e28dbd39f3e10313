import FontCodec.BuiltIn
import FontCodec.CommandLine.Files
import FontCodec.CommandLine.Request
import FontCodec.CommandLine.Transcript

/-!
# Runs of the converter

A run selects its bank first and converts a single text or payload with it. Selecting a built-in bank
loads all of them.
-/

namespace FontCodec

/-- The records that loading tables leaves. -/
def FontTables.loadRecords (source : String) (tables : FontTables) : List LogRecord :=
  let name := tables.version.name
  let glyphs := toString tables.glyphs.length
  let composites := toString tables.composites.length
  [⟨.debug, "gametext.bank_config",
      "Loaded " ++ name ++ " tables from " ++ source ++ " (" ++ glyphs ++ " encode, " ++
        composites ++ " replace, " ++ toString tables.passthrough.elements.length ++
        " passthrough)"⟩,
    ⟨.debug, "gametext.font_bank",
      "Built " ++ name ++ " font bank: " ++ glyphs ++ " encode entries, " ++ composites ++
        " replace entries"⟩]

def BuiltIn.loadRecords : List LogRecord :=
  Version.all.flatMap (fun v => (tables v).loadRecords (source v))

namespace CommandLine

/-- What stops a run without a transcript. -/
inductive Abort where
  /-- A folder is given as the file of a bank. -/
  | folder (path : String)
  /-- A segment of the path of a bank is too long, or the whole path. -/
  | pathTooLong (path : String)
  | notUtf8
  | limit (l : Limit)
  | decode (e : DecodeError)
  deriving DecidableEq, Repr

/-- The bank that a run uses or what refuses it, with the records of loading. -/
structure Selection where
  records : List LogRecord
  bank : Except Refusal FontBank

def Settings.select (files : Files) (settings : Settings) : Except Abort Selection :=
  match settings.config with
  | none =>
    .ok ⟨BuiltIn.loadRecords,
      (BuiltIn.find (.value (.string settings.textVersion))).mapError .unknownVersion⟩
  | some path =>
    let path := normalized path
    match files path with
    | .absent => .ok ⟨[], .error (.fileNotFound path)⟩
    | .folder => .error (.folder path)
    | .tooLong => .error (.pathTooLong path)
    | .file contents =>
      match FontTables.ofFile path contents with
      | .error .notUtf8 => .error .notUtf8
      | .error (.limit l) => .error (.limit l)
      | .error (.invalid e) =>
        match e.message with
        | .error l => .error (.limit l)
        | .ok text => .ok ⟨[], .error (.document text)⟩
      | .ok tables => .ok ⟨tables.loadRecords path, .ok tables.bank⟩

/-- A record of the converter itself. -/
def note (message : String) : LogRecord := ⟨.info, "gametext.cli", message⟩

def encodeRun (bank : FontBank) (text : String) (raw : Bool) : Transcript :=
  match bank.encode text (!raw) with
  | .error e => .refused (.escape e)
  | .ok bytes => ⟨0, [Hex.shown bytes], []⟩

/-- A report on packed sequences follows the text as records, and needs decoding as Korean. -/
def decodeRun (bank : FontBank) (hex : String) (korean jamoReport : Bool) :
    Except Abort Transcript :=
  match Hex.read hex with
  | .error position => .ok (.refused (.hex position))
  | .ok payload =>
    let (answer, collector) := bank.decodeRecording (payload.map (fun b => (b.toNat : Int)))
      (korean || jamoReport) (if jamoReport then some .empty else none)
    match answer with
    | .error e => .error (.decode e)
    | .ok text =>
      let report := collector.elim [] (fun c => c.flush.1)
      .ok ⟨0, [text], report.map (fun line => .record (note line))⟩

def Command.run (bank : FontBank) : Command → Except Abort Transcript
  | versions => .ok ⟨0, Version.names, []⟩
  | encode text raw => .ok (encodeRun bank text raw)
  | decode hex korean jamoReport => decodeRun bank hex korean jamoReport

/-- Listing the versions needs no bank, and selects none. -/
def Request.run (files : Files) (r : Request) : Except Abort Transcript :=
  match r.command with
  | .versions => .ok ⟨0, Version.names, []⟩
  | command => do
    let selection ← r.settings.select files
    match selection.bank with
    | .error e => return (Transcript.refused e).after selection.records
    | .ok bank =>
      let transcript ← command.run bank
      return transcript.after (selection.records ++ [note ("Using " ++ bank.name ++ " font bank")])

/-- How a program ends. -/
inductive Outcome where
  | misuse
  | finished (status : Nat) (stdout stderr : String)
  | aborted (reason : Abort)
  deriving DecidableEq, Repr

def programVersion : String := "0.1.0"

def usage : String :=
  "usage: gametext [--version] [-t VERSION] [--config FILE] [--log-level LEVEL] COMMAND"

def run (files : Files) (arguments : List String) : Outcome :=
  match Invocation.ofArguments arguments with
  | .misuse => .misuse
  | .help => .finished 0 (unlines [usage]) ""
  | .version => .finished 0 (unlines ["gametext " ++ programVersion]) ""
  | .request r =>
    match r.run files with
    | .error reason => .aborted reason
    | .ok t => .finished t.status t.stdout (t.stderr r.settings.logLevel)

end CommandLine

end FontCodec
