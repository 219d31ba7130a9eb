import FormulaMigration.Migration.File

namespace FormulaMigration

namespace MigrateCommand

structure Options where
  input : Path
  output : Option Path
  plan : Option Path
  ledger : Option Path
  strict : Bool
deriving DecidableEq

structure Draft where
  input : Option Path
  output : Option Path
  plan : Option Path
  ledger : Option Path
  strict : Bool
deriving DecidableEq

def Draft.empty : Draft := ⟨none, none, none, none, false⟩

inductive Request
  | help
  | run (options : Options)
deriving DecidableEq

inductive UsageError
  | missingPath (option : Text)
  | unknown (argument : Text)
  | secondInput
  | noInput
deriving DecidableEq

def UsageError.message : UsageError → Text
  | missingPath option => option ++ " requires a path".toList
  | unknown argument => "unknown argument: ".toList ++ argument
  | secondInput => "only one input file may be given".toList
  | noInput => "missing input file (see --help)".toList

inductive Failure
  | usage (error : UsageError)
  | migration (error : MigrationError)
deriving DecidableEq

def Failure.message : Failure → Text
  | usage e => e.message
  | migration e => e.message

def Failure.line (failure : Failure) : Text :=
  "lx-migrate-cli error: ".toList ++ failure.message

def failureStatus : Nat := 1

def pathOption? (argument : Text) : Option (Text × (Path → Draft → Draft)) :=
  if ["--output".toList, "-o".toList].contains argument then
    some ("--output".toList, fun p s => { s with output := some p })
  else if argument = "--plan".toList then some (argument, fun p s => { s with plan := some p })
  else if argument = "--ledger".toList then some (argument, fun p s => { s with ledger := some p })
  else none

def parseFrom (s : Draft) : List Text → Except UsageError Request
  | [] =>
    match s.input with
    | some input => .ok (.run ⟨input, s.output, s.plan, s.ledger, s.strict⟩)
    | none => .error .noInput
  | argument :: rest =>
    match pathOption? argument with
    | some (option, set) =>
      match rest with
      | p :: rest => parseFrom (set p s) rest
      | [] => .error (.missingPath option)
    | none =>
      if argument = "--strict".toList then parseFrom { s with strict := true } rest
      else if argument ∈ ["--help".toList, "-h".toList] then .ok .help
      else if argument.head? = some '-' then .error (.unknown argument)
      else if s.input.isSome then .error .secondInput
      else parseFrom { s with input := some argument } rest

def parse (arguments : List Text) : Except UsageError Request :=
  parseFrom .empty arguments

def helpLines : List String :=
  ["lx-migrate-cli",
    "Usage:",
    "\tlx-migrate-cli <input.json> [--output <path>] [--plan <plan.yaml|plan.json>] " ++
      "[--ledger <path.jsonl>] [--strict]",
    "Options:",
    "\t-o, --output <path>   write the migrated document here (default: overwrite input)",
    "\t--plan <path>         keys to convert; YAML or JSON by extension (default: legacy keys)",
    "\t                      documents already at the plan's script version are left untouched",
    "\t--ledger <path>       write every fallback as one JSON object per line",
    "\t--strict              exit with status 2 if any formula fell back",
    "\t-h, --help            show this help",
    "Logging is controlled by RUST_LOG (default: warn)."]

variable [DiskFaults] [YamlReader Plan]

def loadPlan (options : Options) (d : Disk) : Except MigrationError Plan :=
  match options.plan with
  | some p => Plan.load p d
  | none => .ok .legacy

def migrate (time : UInt64) (options : Options) : SessionAction MigrationError Nat := do
  match loadPlan options (← get).disk with
  | .error e => throw e
  | .ok plan =>
    let report ← plan.migrateFile time options.input (options.output.getD options.input)
    Session.printLine ("input=".toList ++ report.input ++ " output=".toList ++ report.output ++
      ' ' :: report.summary.text)
    if let some p := options.ledger then
      Session.writeLedger p
      Session.printLine ("ledger=".toList ++ p ++ " records=".toList ++
        Text.ofNat (← get).ledger.records.length)
    pure (if options.strict && !report.summary.fallbacks.isClean then 2 else 0)

def run (time : UInt64) (arguments : List Text) : SessionAction Failure Nat := do
  match parse arguments with
  | .error e => throw (.usage e)
  | .ok .help =>
    helpLines.forM fun line => Session.printLine line.toList
    pure 0
  | .ok (.run options) => EStateM.adaptExcept .migration (migrate time options)

end MigrateCommand

end FormulaMigration
