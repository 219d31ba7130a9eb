import FormulaMigration.Disk.Path
import FormulaMigration.Text.Utf8

/-!
Files in folders, and what can be done with them by path. An action that fails part way keeps what
it has done.
-/

namespace FormulaMigration

inductive Folder
  | empty
  | file (name : Name) (content : Bytes) (rest : Folder)
  | folder (name : Name) (inner rest : Folder)
deriving DecidableEq

inductive Entry
  | file (content : Bytes)
  | folder (inner : Folder)
deriving DecidableEq

namespace Folder

def find? (name : Name) : Folder → Option Entry
  | empty => none
  | file n content rest => if n = name then some (.file content) else find? name rest
  | folder n inner rest => if n = name then some (.folder inner) else find? name rest

def cons (name : Name) (entry : Entry) (rest : Folder) : Folder :=
  match entry with
  | .file content => file name content rest
  | .folder inner => folder name inner rest

def set (name : Name) (entry : Entry) : Folder → Folder
  | empty => cons name entry empty
  | file n content rest =>
    if n = name then cons name entry rest else file n content (set name entry rest)
  | folder n inner rest =>
    if n = name then cons name entry rest else folder n inner (set name entry rest)

def remove (name : Name) : Folder → Folder
  | empty => empty
  | file n content rest => if n = name then rest else file n content (remove name rest)
  | folder n inner rest => if n = name then rest else folder n inner (remove name rest)

theorem find?_cons (name other : Name) (entry : Entry) (rest : Folder) :
    (cons name entry rest).find? other = if name = other then some entry else rest.find? other := by
  cases entry <;> rfl

theorem find?_set (name other : Name) (entry : Entry) (f : Folder) :
    (f.set name entry).find? other = if name = other then some entry else f.find? other := by
  induction f with
  | empty => simp [set, find?_cons, find?]
  | file n content rest ih =>
    by_cases h : n = name <;> by_cases ho : name = other <;> by_cases hn : n = other <;>
      simp_all [set, find?, find?_cons]
  | folder n inner rest _ ih =>
    by_cases h : n = name <;> by_cases ho : name = other <;> by_cases hn : n = other <;>
      simp_all [set, find?, find?_cons]

def at? : Folder → List Name → Option Entry
  | f, [] => some (.folder f)
  | f, name :: names =>
    match f.find? name with
    | some (.folder inner) => inner.at? names
    | some (.file content) => if names = [] then some (.file content) else none
    | none => none

def modify (change : Folder → Folder) : List Name → Folder → Folder
  | [], f => change f
  | name :: names, f =>
    match f.find? name with
    | some (.folder inner) => f.set name (.folder (modify change names inner))
    | _ => f

def size : Folder → Nat
  | empty => 0
  | file _ _ rest => rest.size + 1
  | folder _ _ rest => rest.size + 1

def files : Folder → List (List Name × Bytes)
  | empty => []
  | file name content rest => ([name], content) :: rest.files
  | folder name inner rest =>
    inner.files.map (fun f => (name :: f.1, f.2)) ++ rest.files

end Folder

inductive FileError
  | notFound
  | exists
  | notFolder
  | isFolder
  | notUtf8
  | other (code : Option Nat) (kind description : Text)
deriving DecidableEq

namespace FileError

def description : FileError → Text
  | notFound => "No such file or directory".toList
  | .exists => "File exists".toList
  | notFolder => "Not a directory".toList
  | isFolder => "Is a directory".toList
  | notUtf8 => "stream did not contain valid UTF-8".toList
  | other _ _ description => description

def code? : FileError → Option Nat
  | notFound => some 2
  | .exists => some 17
  | notFolder => some 20
  | isFolder => some 21
  | notUtf8 => none
  | other code _ _ => code

def kind : FileError → Text
  | notFound => "NotFound".toList
  | .exists => "AlreadyExists".toList
  | notFolder => "NotADirectory".toList
  | isFolder => "IsADirectory".toList
  | notUtf8 => "InvalidData".toList
  | other _ kind _ => kind

def message (e : FileError) : Text :=
  match e.code? with
  | some n => e.description ++ " (os error ".toList ++ Text.ofNat n ++ [')']
  | none => e.description

def details (e : FileError) : Text :=
  match e.code? with
  | some n =>
    "Os \x7b code: ".toList ++ Text.ofNat n ++ ", kind: ".toList ++ e.kind ++
      ", message: ".toList ++ Text.quote e.description ++ " \x7d".toList
  | none =>
    "Error \x7b kind: ".toList ++ e.kind ++ ", message: ".toList ++ Text.quote e.description ++
      " \x7d".toList

end FileError

structure Disk where
  root : Folder
  current : List Name
deriving DecidableEq

abbrev DiskAction (ε : Type) := EStateM ε Disk

namespace Disk

def at? (d : Disk) (place : List Name) : Option Entry :=
  d.root.at? place

def move (place : List Name) : Step → List Name
  | .here => place
  | .up => place.dropLast
  | .into name => place ++ [name]

def walk (d : Disk) : List Name → List Step → Except FileError (List Name)
  | place, [] => .ok place
  | place, step :: steps =>
    match d.at? place with
    | none => .error .notFound
    | some (.file _) => .error .notFolder
    | some (.folder _) => walk d (move place step) steps

def start (d : Disk) (p : Path) : List Name :=
  if Path.isAbsolute p then [] else d.current

def resolve (d : Disk) (p : Path) : Except FileError (List Name) :=
  if p.isEmpty then .error .notFound else d.walk (d.start p) (Path.steps p)

def entry? (d : Disk) (p : Path) : Option Entry :=
  match d.resolve p with
  | .ok place => d.at? place
  | .error _ => none

def read (d : Disk) (p : Path) : Except FileError Bytes := do
  match d.at? (← d.resolve p) with
  | some (.file content) => .ok content
  | some (.folder _) => .error .isFolder
  | none => .error .notFound

def list (d : Disk) (p : Path) : Except FileError Folder := do
  match d.at? (← d.resolve p) with
  | some (.folder inner) => .ok inner
  | some (.file _) => .error .notFolder
  | none => .error .notFound

def setEntry (d : Disk) (place : List Name) (entry : Entry) : Disk :=
  match place.getLast? with
  | some name => { d with root := d.root.modify (·.set name entry) place.dropLast }
  | none => d

def target (d : Disk) (p : Path) : Except FileError (List Name) := do
  let place ← d.resolve (if Path.hasFinalSlash p then Path.withoutFinalSlashes p else p)
  match d.at? place with
  | some (.folder _) => .error .isFolder
  | some (.file _) => if Path.hasFinalSlash p then .error .notFolder else .ok place
  | none => if Path.hasFinalSlash p then .error .isFolder else .ok place

def write (d : Disk) (p : Path) (content : Bytes) : Except FileError Disk := do
  .ok (d.setEntry (← d.target p) (.file content))

end Disk

inductive WriteFault
  | unopened (error : FileError)
  /-- The file is opened, which empties it, and only some bytes are written. -/
  | broken (error : FileError) (kept : Nat)
deriving DecidableEq

/-- What keeps the program from files beside what stands on the disk: permissions, limits of the
system, a disk that is full or breaks. -/
class DiskFaults where
  hides : Disk → Path → Bool
  hidesFolder : Disk → List Name → List Step → Bool
  read? : Disk → Path → Option FileError
  write? : Disk → Path → Bytes → Option WriteFault
  makeFolder? : Disk → List Name → List Step → Option FileError

namespace Path

/-- Why the system takes a path for none, whatever stands on the disk. -/
def fault? (p : Path) : Option FileError :=
  if '\x00' ∈ p then
    some (.other none "InvalidInput".toList
      "file name contained an unexpected NUL byte".toList)
  else if 4096 ≤ Text.byteLength p then
    some (.other (some 36) "InvalidFilename".toList "File name too long".toList)
  else none

def stepsFault? (steps : List Step) : Option FileError :=
  fault? (Text.join ['/'] (steps.map fun
    | .here => ['.']
    | .up => ['.', '.']
    | .into name => name))

end Path

instance : DiskFaults where
  hides _ p := (Path.fault? p).isSome
  hidesFolder _ _ steps := (Path.stepsFault? steps).isSome
  read? _ p := Path.fault? p
  write? _ p _ := (Path.fault? p).map .unopened
  makeFolder? _ _ steps := Path.stepsFault? steps

namespace Disk

variable [DiskFaults]

def exists? (d : Disk) (p : Path) : Bool :=
  !DiskFaults.hides d p && (d.entry? p).isSome

def readText (d : Disk) (p : Path) : Except FileError Text := do
  match DiskFaults.read? d p with
  | some e => .error e
  | none =>
    match Text.decode? (← d.read p) with
    | some t => .ok t
    | none => .error .notUtf8

def makeFolder (d : Disk) (start : List Name) (steps : List Step) : Except FileError Disk := do
  match DiskFaults.makeFolder? d start steps with
  | some e => .error e
  | none =>
    let place ← d.walk start steps
    match d.at? place with
    | some _ => .error .exists
    | none => .ok (d.setEntry place (.folder .empty))

def isFolder (d : Disk) (start : List Name) (steps : List Step) : Bool :=
  !DiskFaults.hidesFolder d start steps &&
    match d.walk start steps with
    | .ok place =>
      match d.at? place with
      | some (.folder _) => true
      | _ => false
    | .error _ => false

def makeFolders (start : List Name) : (reversed : List Step) → DiskAction FileError Unit
  | [] => pure ()
  | last :: before => do
    let steps := (last :: before).reverse
    let d ← get
    match d.makeFolder start steps with
    | .ok made => set made
    | .error .notFound =>
      makeFolders start before
      let d ← get
      match d.makeFolder start steps with
      | .ok made => set made
      | .error e => if d.isFolder start steps then pure () else throw e
    | .error e => if d.isFolder start steps then pure () else throw e

def makeFoldersTo (p : Path) : DiskAction FileError Unit := do
  makeFolders ((← get).start p) (Path.components p).reverse

def makeParent (p : Path) : DiskAction FileError Unit := do
  makeFolders ((← get).start p) (Path.parentComponents p).reverse

/-- Writes a file. When the write breaks, what was written until then stands in it. -/
def writeFile (p : Path) (content : Bytes) : DiskAction FileError Unit := do
  let d ← get
  match DiskFaults.write? d p content with
  | some (.unopened e) => throw e
  | some (.broken e kept) =>
    match d.write p (content.take kept) with
    | .ok written =>
      set written
      throw e
    | .error e => throw e
  | none =>
    match d.write p content with
    | .ok written => set written
    | .error e => throw e

end Disk

end FormulaMigration
