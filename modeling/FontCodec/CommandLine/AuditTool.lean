import FontCodec.Audit
import FontCodec.CommandLine.Conversion

/-!
# Runs of the audit

The audit tool checks built-in banks, all of them unless some are named. A check may be asked for
several times. Names stand together: none may follow an option that stands behind names.
-/

namespace FontCodec.CommandLine

structure AuditRequest where
  checks : List Check
  versions : List Version
  deriving DecidableEq, Repr

inductive AuditOption where
  | help
  | check
  deriving DecidableEq, Repr

def auditOptions : Options AuditOption :=
  [("-h", .help), ("--help", .help), ("--check", .check)]

inductive AuditInvocation where
  | misuse
  | help
  | request (r : AuditRequest)
  deriving DecidableEq, Repr

/-- Where the names of banks stand. -/
inductive NamePlace where
  | ahead
  | here
  | past
  deriving DecidableEq, Repr

/-- An option ends the names. -/
def NamePlace.next : NamePlace → NamePlace
  | ahead => ahead
  | _ => past

/-- The request for checks and names. A name of no version is a misuse, and no names stand for all
versions. -/
def requestOf (checks : List Check) (names : List String) : AuditInvocation :=
  match names.mapM Version.ofName? with
  | none => .misuse
  | some versions =>
    .request ⟨if checks.isEmpty then [.glyphs] else checks,
      if versions.isEmpty then Version.all else versions⟩

def readAudit (checks : List Check) (names : List String) (place : NamePlace) :
    List (Argument AuditOption) → AuditInvocation
  | [] => requestOf checks names
  | ⟨_, .unknown⟩ :: _ => .misuse
  | ⟨name, .operand⟩ :: rest =>
    if place = .past then .misuse else readAudit checks (names ++ [name]) .here rest
  | ⟨_, .separator⟩ :: rest =>
    if place = .past then .misuse else requestOf checks (names ++ rest.map Argument.text)
  | ⟨_, .known .check (some value)⟩ :: rest =>
    match Check.ofName? value with
    | some check => readAudit (checks ++ [check]) names place.next rest
    | none => .misuse
  | ⟨_, .known .check none⟩ :: ⟨value, .operand⟩ :: rest =>
    match Check.ofName? value with
    | some check => readAudit (checks ++ [check]) names place.next rest
    | none => .misuse
  | ⟨_, .known .help none⟩ :: _ => .help
  | ⟨_, .known _ _⟩ :: _ => .misuse

def AuditInvocation.ofArguments (texts : List String) : AuditInvocation :=
  match classify auditOptions texts with
  | some arguments => readAudit [] [] .ahead arguments
  | none => .misuse

namespace AuditRequest

/-- The audits of a request: every check of a bank before the next bank. -/
def audits (r : AuditRequest) : Except DecodeError (List Audit) :=
  (r.versions.flatMap (fun v => r.checks.map (fun check => (v, check)))).mapM
    (fun (v, check) => (BuiltIn.bank v).audit check)

def run (r : AuditRequest) : Except Abort Transcript :=
  match r.audits with
  | .error e => .error (.decode e)
  | .ok audits =>
    let reports := audits.map Audit.report
    if audits.all Audit.passed then .ok ⟨0, reports ++ ["All font bank audits passed."], []⟩
    else .ok ⟨1, reports, [.text "One or more font bank audits failed."]⟩

end AuditRequest

def auditUsage : String := "usage: font_bank_audit [--check CHECK] [VERSION ...]"

def runAudit (arguments : List String) : Outcome :=
  match AuditInvocation.ofArguments arguments with
  | .misuse => .misuse
  | .help => .finished 0 (unlines [auditUsage]) ""
  | .request r =>
    match r.run with
    | .error reason => .aborted reason
    | .ok t => .finished t.status t.stdout (t.stderr .warning)

end FontCodec.CommandLine
