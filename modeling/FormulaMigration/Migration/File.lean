import FormulaMigration.Disk
import FormulaMigration.Migration
import FormulaMigration.Plan.Yaml

namespace FormulaMigration

inductive MigrationError
  | file (error : FileError)
  | json (fault : JsonFault)
  | yaml
deriving DecidableEq

def MigrationError.message : MigrationError → Text
  | file e => e.message
  | json fault => fault.message
  | yaml => "malformed YAML".toList

namespace Plan

def isYamlPath (p : Path) : Bool :=
  Path.extension? p = some ['y', 'a', 'm', 'l'] || Path.extension? p = some ['y', 'm', 'l']

def load [DiskFaults] [YamlReader Plan] (p : Path) (d : Disk) : Except MigrationError Plan :=
  match d.readText p with
  | .error e => .error (.file e)
  | .ok t =>
    if isYamlPath p then
      match YamlReader.read? t with
      | some plan => .ok plan
      | none => .error .yaml
    else
      match ofText t with
      | .ok plan => .ok plan
      | .error fault => .error (.json fault)

end Plan

structure Session where
  disk : Disk
  ledger : Ledger
  printed : Text

abbrev SessionAction (ε : Type) := EStateM ε Session

namespace Session

def start (d : Disk) : Session := ⟨d, .empty, []⟩

def onDisk {δ ε α : Type} (report : δ → ε) (action : DiskAction δ α) : SessionAction ε α := fun s =>
  match action s.disk with
  | .ok a d => .ok a { s with disk := d }
  | .error e d => .error (report e) { s with disk := d }

def printLine {ε : Type} (line : Text) : SessionAction ε Unit :=
  modify fun s => { s with printed := s.printed ++ line ++ ['\n'] }

end Session

structure MigrationReport where
  input : Path
  output : Path
  summary : MigrationSummary
deriving DecidableEq

namespace MigrationReport

def toJson (r : MigrationReport) : Json :=
  .record [("input", .string r.input), ("output", .string r.output),
    ("summary", r.summary.toJson)]

end MigrationReport

namespace Plan

def migrateInput [DiskFaults] (plan : Plan) (input : Path) (d : Disk) :
    Except MigrationError (Text × Migration) :=
  match d.readText input with
  | .error e => .error (.file e)
  | .ok t =>
    match plan.migrateText t with
    | .ok migrated => .ok migrated
    | .error fault => .error (.json fault)

/-- Migrates the document in a file and writes it to another, or over the first. The issues go into
the ledger before anything is written. -/
def migrateFile [DiskFaults] (plan : Plan) (time : UInt64) (input output : Path) :
    SessionAction MigrationError MigrationReport := do
  match plan.migrateInput input (← get).disk with
  | .error e => throw e
  | .ok (text, migration) =>
    modify fun s => { s with ledger := s.ledger.extend time migration.issues }
    Session.onDisk .file (Disk.makeParent output)
    Session.onDisk .file (Disk.writeFile output (Text.encode text))
    pure ⟨input, output, migration.summary⟩

end Plan

def Session.writeLedger [DiskFaults] (p : Path) : SessionAction MigrationError Unit := do
  Session.onDisk .file (Disk.writeFile p (Text.encode (← get).ledger.lines))

end FormulaMigration
