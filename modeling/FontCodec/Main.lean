import FontCodec.CommandLine.AuditTool

/-!
# The programs

The converter is the main program. The audit is run in the same way under its own name.
-/

namespace FontCodec.CommandLine

def readEntry (path : String) : IO Entry := do
  try
    let contents ← IO.FS.readBinFile path
    return .file contents.data.toList
  catch
    | .noFileOrDirectory .. => return .absent
    | .inappropriateType .. => return .folder
    | e => throw e

/-- The entry under the path of the bank file, if the arguments name one. -/
def filesFor (arguments : List String) : IO Files := do
  match Invocation.ofArguments arguments with
  | .request ⟨⟨_, some path, _⟩, _⟩ =>
    let entry ← readEntry (normalized path)
    return fun _ => entry
  | _ => return fun _ => .absent

def Abort.message : Abort → String
  | folder path => path ++ " is a folder"
  | pathTooLong path => path ++ " is too long"
  | notUtf8 => "the font bank file is not valid UTF-8"
  | limit l => l.message
  | decode e => e.message

def Outcome.write : Outcome → IO UInt32
  | misuse => do
    IO.eprintln usage
    return 2
  | finished status stdout stderr => do
    IO.print stdout
    IO.eprint stderr
    return UInt32.ofNat status
  | aborted reason => do
    IO.eprintln reason.message
    return 1

def auditMain (arguments : List String) : IO UInt32 := (runAudit arguments).write

end FontCodec.CommandLine

open FontCodec.CommandLine in
def main (arguments : List String) : IO UInt32 := do
  let files ← filesFor arguments
  (run files arguments).write
