import FormulaMigration.CommandLine.Conformance
import FormulaMigration.CommandLine.Migrate
import Std.Time.DateTime.Timestamp

/-!
The program. The first argument says which command runs. What the command may look at is copied from
the disk before it runs, and what it changed is written back after it ended. Folders are not listed:
the paths of the files below the root of fixtures come from standard input, one a line.
-/

namespace FormulaMigration

namespace Program

def probe (p : Path) : IO (Option Entry) := do
  match ← (IO.FS.readBinFile (String.ofList p)).toBaseIO with
  | .ok content => pure (some (.file content.toList))
  | .error (.inappropriateType ..) => pure (some (.folder .empty))
  | .error _ => pure none

def copyPath (d : Disk) (p : Path) : IO Disk := do
  let start := if Path.isAbsolute p then ['/'] else []
  let mut d := d
  let mut place := d.start p
  let mut passed : Path := start
  for part in Path.parts p do
    place := Disk.move place (Path.stepOf part)
    passed := Path.join passed part
    if (d.at? place).isNone then
      if let some entry ← probe passed then d := d.setEntry place entry
  pure d

def emptyDisk (current : Path) : Disk :=
  let names := (Path.steps current).filterMap fun
    | .into name => some name
    | _ => none
  let folder := names.foldr (fun name inner => Folder.folder name inner .empty) Folder.empty
  ⟨folder, names⟩

def copyPaths (paths : List Path) : IO Disk := do
  paths.foldlM copyPath (emptyDisk (toString (← IO.currentDir)).toList)

def writeBack (before : Disk) (place : List Name) : Folder → IO Unit
  | .empty => pure ()
  | .file name content rest => do
    if before.at? (place ++ [name]) ≠ some (.file content) then
      IO.FS.writeBinFile (String.ofList ((place ++ [name]).foldl Path.join ['/']))
        ⟨content.toArray⟩
    writeBack before place rest
  | .folder name inner rest => do
    if (before.at? (place ++ [name])).isNone then
      IO.FS.createDirAll (String.ofList ((place ++ [name]).foldl Path.join ['/']))
    writeBack before (place ++ [name]) inner
    writeBack before place rest

def finish (before : Disk) (s : Session) (failure : Option Text) : IO Unit := do
  writeBack before [] s.disk.root
  IO.print (String.ofList s.printed)
  if let some line := failure then IO.eprintln (String.ofList line)

def now : IO UInt64 := do
  let t ← Std.Time.Timestamp.now
  pure (UInt64.ofNat t.toMillisecondsSinceUnixEpoch.val.toNat)

def migrate (arguments : List Text) : IO UInt32 := do
  let d ← copyPaths arguments
  match MigrateCommand.run (← now) arguments (Session.start d) with
  | .ok status s =>
    finish d s none
    pure (UInt32.ofNat status)
  | .error e s =>
    finish d s (some e.line)
    pure (UInt32.ofNat MigrateCommand.failureStatus)

partial def readLines (stream : IO.FS.Stream) : IO (List Text) := do
  let line ← stream.getLine
  if line.isEmpty then pure []
  else pure (line.toList.takeWhile (· ≠ '\n') :: (← readLines stream))

def conformance (arguments : List Text) : IO UInt32 := do
  let standard := ConformanceCommand.config .none
  let d ← copyPaths ([standard.fixtureRoot, standard.reportRoot] ++ arguments ++
    (← readLines (← IO.getStdin)))
  match ConformanceCommand.run arguments (Session.start d) with
  | .ok _ s =>
    finish d s none
    pure 0
  | .error e s =>
    finish d s (some e.line)
    pure (UInt32.ofNat ConformanceCommand.failureStatus)

end Program

end FormulaMigration

def main (arguments : List String) : IO UInt32 := do
  match arguments with
  | "migrate" :: rest => FormulaMigration.Program.migrate (rest.map String.toList)
  | "conformance" :: rest => FormulaMigration.Program.conformance (rest.map String.toList)
  | _ =>
    IO.eprintln "usage: migrate ... | conformance ..."
    pure 2
