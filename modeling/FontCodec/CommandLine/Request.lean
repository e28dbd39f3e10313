import FontCodec.CommandLine.Argument
import FontCodec.Log

/-!
# Requests to the converter

The arguments hold options first, then a command with the options and the operand of its own. An
option that does not exist is refused only after the options behind it were read, so that a request
for the program's version still counts.
-/

namespace FontCodec.CommandLine

/-- The choice of a bank and of what is logged. -/
structure Settings where
  textVersion : String
  /-- The path of a file that declares the bank in place of a built-in one. -/
  config : Option String
  logLevel : LogLevel
  deriving DecidableEq, Repr

def Settings.initial : Settings := ⟨"jak1-v2", none, .warning⟩

inductive Command where
  /-- Lists the names of the built-in banks. -/
  | versions
  | encode (text : String) (raw : Bool)
  | decode (hex : String) (korean : Bool) (jamoReport : Bool)
  deriving DecidableEq, Repr

structure Request where
  settings : Settings
  command : Command
  deriving DecidableEq, Repr

inductive Invocation where
  | misuse
  | help
  | version
  | request (r : Request)
  deriving DecidableEq, Repr

/-- The options that have a value. -/
inductive Setting where
  | textVersion
  | config
  | logLevel
  deriving DecidableEq, Repr

inductive MainOption where
  | help
  | version
  | setting (s : Setting)
  deriving DecidableEq, Repr

def mainOptions : Options MainOption :=
  [("-h", .help), ("--help", .help), ("--version", .version), ("-t", .setting .textVersion),
    ("--text-version", .setting .textVersion), ("--config", .setting .config),
    ("--log-level", .setting .logLevel)]

/-- Takes the value of an option, if it is allowed. -/
def Settings.set (settings : Settings) (s : Setting) (value : String) : Option Settings :=
  match s with
  | .textVersion => some { settings with textVersion := value }
  | .config => some { settings with config := some value }
  | .logLevel => (LogLevel.ofName? value).map (fun l => { settings with logLevel := l })

/-- The options of the commands, which have no values. -/
inductive Flag where
  | help
  | raw
  | korean
  | jamoReport
  deriving DecidableEq, Repr

/-- The flags of a command and its operand. The separator may stand in front of the operand, or
directly behind it at the end. -/
def readOperand (flags : List Flag) (operand : Option String) :
    List (Argument Flag) → Option (List Flag × Option String)
  | [] => some (flags, operand)
  | ⟨_, .known flag none⟩ :: rest => readOperand (flag :: flags) operand rest
  | ⟨_, .known _ (some _)⟩ :: _ => none
  | ⟨_, .unknown⟩ :: _ => none
  | ⟨_, .separator⟩ :: rest =>
    match operand, rest with
    | none, [⟨text, .operand⟩] => some (flags, some text)
    | _, _ => none
  | ⟨text, .operand⟩ :: rest =>
    if operand.isSome then none
    else
      match rest with
      | [⟨_, .separator⟩] => some (flags, some text)
      | rest => readOperand flags (some text) rest

def flagsOf : String → Option (Options Flag)
  | "versions" => some [("-h", .help), ("--help", .help)]
  | "encode" => some [("-h", .help), ("--help", .help), ("--raw", .raw)]
  | "decode" =>
    some [("-h", .help), ("--help", .help), ("--korean", .korean), ("--jamo-report", .jamoReport)]
  | _ => none

def commandOf (name : String) (flags : List Flag) (operand : Option String) : Option Command :=
  match name, operand with
  | "versions", none => some .versions
  | "encode", some text => some (.encode text (flags.contains .raw))
  | "decode", some hex => some (.decode hex (flags.contains .korean) (flags.contains .jamoReport))
  | _, _ => none

def readCommand (settings : Settings) (name : String) (texts : List String) : Invocation :=
  let read := do readOperand [] none (← classify (← flagsOf name) texts)
  match read with
  | none => .misuse
  | some (flags, operand) =>
    if flags.contains .help then .help
    else
      match commandOf name flags operand with
      | some command => .request ⟨settings, command⟩
      | none => .misuse

/-- Reads the options in front of the command. `surplus` tells that one of them does not exist. -/
def readMain (settings : Settings) (surplus : Bool) : List (Argument MainOption) → Invocation
  | [] => .misuse
  | ⟨_, .separator⟩ :: _ => .misuse
  | ⟨_, .unknown⟩ :: rest => readMain settings true rest
  | ⟨name, .operand⟩ :: rest =>
    match readCommand settings name (rest.map Argument.text) with
    | .request r => if surplus then .misuse else .request r
    | other => other
  | ⟨_, .known (.setting s) (some value)⟩ :: rest =>
    match settings.set s value with
    | some settings => readMain settings surplus rest
    | none => .misuse
  | ⟨_, .known (.setting s) none⟩ :: ⟨value, .operand⟩ :: rest =>
    match settings.set s value with
    | some settings => readMain settings surplus rest
    | none => .misuse
  | ⟨_, .known .help none⟩ :: _ => .help
  | ⟨_, .known .version none⟩ :: _ => .version
  | ⟨_, .known _ _⟩ :: _ => .misuse

def Invocation.ofArguments (texts : List String) : Invocation :=
  match classify mainOptions texts with
  | some arguments => readMain .initial false arguments
  | none => .misuse

end FontCodec.CommandLine
