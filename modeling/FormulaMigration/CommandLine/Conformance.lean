import FormulaMigration.Migration.File
import FormulaMigration.Packet.Artifacts

namespace FormulaMigration

namespace ConformanceCommand

structure Options where
  packetId : Option Text
  fixtureRoot : Option Path
  reportRoot : Option Path
  writeArtifacts : Bool
  requireGreen : Bool
deriving DecidableEq

def Options.none : Options := ⟨.none, .none, .none, false, false⟩

inductive Request
  | help
  | run (options : Options)
deriving DecidableEq

inductive UsageError
  | missingValue (option wanted : Text)
  | unknown (argument : Text)
deriving DecidableEq

def UsageError.message : UsageError → Text
  | missingValue option wanted => option ++ " requires ".toList ++ wanted
  | unknown argument => "unknown argument: ".toList ++ argument

inductive Failure
  | usage (error : UsageError)
  | packets (error : PacketError)
deriving DecidableEq

def Failure.details : Failure → Text
  | usage e => e.message.quoteSeen
  | packets e => e.details

def Failure.line (failure : Failure) : Text :=
  "Error: ".toList ++ failure.details

def failureStatus : Nat := 1

def valueOption? (argument : Text) : Option (Text × (Text → Options → Options)) :=
  if argument = "--packet-id".toList then
    some ("a value (e.g. LX-P-001)".toList, fun v o => { o with packetId := v })
  else if argument = "--fixture-root".toList then
    some ("a path".toList, fun v o => { o with fixtureRoot := v })
  else if argument = "--report-root".toList then
    some ("a path".toList, fun v o => { o with reportRoot := v })
  else none

def parseFrom (options : Options) : List Text → Except UsageError Request
  | [] => .ok (.run options)
  | argument :: rest =>
    match valueOption? argument with
    | some (wanted, set) =>
      match rest with
      | v :: rest => parseFrom (set v options) rest
      | [] => .error (.missingValue argument wanted)
    | none =>
      if argument = "--write-artifacts".toList then
        parseFrom { options with writeArtifacts := true } rest
      else if argument = "--require-green".toList then
        parseFrom { options with requireGreen := true } rest
      else if argument ∈ ["--help".toList, "-h".toList] then .ok .help
      else .error (.unknown argument)

def parse (arguments : List Text) : Except UsageError Request :=
  parseFrom .none arguments

def helpLines : List String :=
  ["lx-conformance-cli",
    "Usage:",
    "\tlx-conformance-cli [--packet-id LX-P-001] [--write-artifacts] [--require-green]",
    "Options:",
    "\t--packet-id <id>       Run only one packet id",
    "\t--fixture-root <path>  Fixture directory (default: crate fixtures/)",
    "\t--report-root <path>   Report directory (default: artifacts/conformance)",
    "\t--write-artifacts      Emit parity report + gate result per packet",
    "\t--require-green        Fail with non-zero exit when any packet parity/gate check fails",
    "\t-h, --help             Show this help"]

/-- The folders that the program takes when its options name no others. They are chosen when it is
built. -/
class DefaultRoots where
  fixtureRoot : Path
  reportRoot : Path

instance : DefaultRoots where
  fixtureRoot := "fixtures".toList
  reportRoot := "artifacts/conformance".toList

def config [DefaultRoots] (options : Options) : PacketConfig :=
  ⟨options.fixtureRoot.getD DefaultRoots.fixtureRoot,
    options.reportRoot.getD DefaultRoots.reportRoot, true⟩

def reportLines (r : PacketReport) : List Text :=
  ("packet=".toList ++ r.packetId.getD "<all>".toList ++ " suite=".toList ++ r.suite ++
    " fixtures=".toList ++ Text.ofNat r.fixtureCount ++ " passed=".toList ++ Text.ofNat r.passed ++
    " failed=".toList ++ Text.ofNat r.failed ++
    " green=".toList ++ (if r.isGreen then "true" else "false").toList) ::
  r.results.filterMap fun result => result.mismatch.map fun mismatch =>
    "  case=".toList ++ result.caseId ++ " mismatch=".toList ++ mismatch

def artifactsLine (a : Artifacts) : Text :=
  "wrote packet=".toList ++ a.packetId ++ " parity=".toList ++ a.reportPath ++
    " gate=".toList ++ a.gatePath ++ " hash=".toList ++ a.reportHash

def printLines {ε : Type} (lines : List Text) : SessionAction ε Unit :=
  lines.forM Session.printLine

variable [DefaultRoots] [DiskFaults] [YamlReader Gate]

def runPackets (options : Options) : SessionAction PacketError Unit := do
  let c := config options
  match c.runGrouped options.packetId (← get).disk with
  | .error e => throw e
  | .ok reports =>
    printLines (reports.flatMap reportLines)
    if options.writeArtifacts then
      printLines ((← Session.onDisk id (c.writeReports reports)).map artifactsLine)
    if options.requireGreen then
      match c.enforceGates (← get).disk reports with
      | .error e => throw e
      | .ok () => pure ()

def run (arguments : List Text) : SessionAction Failure Unit := do
  match parse arguments with
  | .error e => throw (.usage e)
  | .ok .help => printLines (helpLines.map String.toList)
  | .ok (.run options) => EStateM.adaptExcept .packets (runPackets options)

end ConformanceCommand

end FormulaMigration
