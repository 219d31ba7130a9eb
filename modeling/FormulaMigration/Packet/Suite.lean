import FormulaMigration.Packet.Error
import FormulaMigration.Packet.Report

namespace FormulaMigration

structure PacketConfig where
  fixtureRoot : Path
  reportRoot : Path
  strict : Bool
deriving DecidableEq

namespace PacketConfig

def packetRoot (c : PacketConfig) : Path :=
  Path.join c.fixtureRoot "packets".toList

def reportFolder (c : PacketConfig) (packetId : Text) : Path :=
  Path.join c.reportRoot packetId

def gatePath (c : PacketConfig) (packetId : Text) : Path :=
  Path.join (Path.join c.packetRoot packetId) "parity_gate.yaml".toList

def rootCount (c : PacketConfig) (d : Disk) : Nat :=
  match d.list c.fixtureRoot with
  | .ok folder => folder.size
  | .error _ => 0

end PacketConfig

namespace Folder

def isFixtureName (name : Name) : Bool :=
  Path.extensionOf? name = some ['j', 's', 'o', 'n']

def fixtureNames : Folder → List (List Name)
  | empty => []
  | file name _ rest =>
    if isFixtureName name then [name] :: rest.fixtureNames else rest.fixtureNames
  | folder name inner rest => inner.fixtureNames.map (name :: ·) ++ rest.fixtureNames

end Folder

namespace PacketConfig

def pathTo (root : Path) (names : List Name) : Path :=
  names.foldl Path.join root

def fixturePaths [DiskFaults] (c : PacketConfig) (d : Disk) : Except PacketError (List Path) :=
  if d.exists? c.packetRoot then
    match d.list c.packetRoot with
    | .ok folder => .ok ((folder.fixtureNames.mergeSort Path.namesLe).map (pathTo c.packetRoot))
    | .error e => .error (.file e)
  else .ok []

def loadFixture [DiskFaults] (d : Disk) (p : Path) : Except PacketError Fixture :=
  match d.readText p with
  | .error e => .error (.file e)
  | .ok t =>
    match Fixture.ofText t with
    | .ok f => .ok f
    | .error fault => .error (.malformedFixture p fault)

def isWanted (packet : Option Text) (f : Fixture) : Bool :=
  match packet with
  | some id => f.packetId = id
  | none => true

def loadFixtures [DiskFaults] (c : PacketConfig) (packet : Option Text) (d : Disk) :
    Except PacketError (List Fixture) := do
  let fixtures ← (← c.fixturePaths d).mapM (loadFixture d)
  .ok ((fixtures.filter (isWanted packet)).mergeSort fun f g => Text.le f.caseId g.caseId)

def allSuite : Text := "packets".toList

def suiteOf (packetId : Text) : Text :=
  "packets:".toList ++ packetId

def runAll [DiskFaults] (c : PacketConfig) (d : Disk) : Except PacketError PacketReport := do
  .ok (.ofFixtures allSuite none (← c.loadFixtures none d))

def runPacket [DiskFaults] (c : PacketConfig) (packetId : Text) (d : Disk) :
    Except PacketError PacketReport := do
  .ok (.ofFixtures (suiteOf packetId) (some packetId) (← c.loadFixtures (some packetId) d))

def packetIds (fixtures : List Fixture) : List Text :=
  ((fixtures.map (·.packetId)).eraseDups).mergeSort Text.le

def runGrouped [DiskFaults] (c : PacketConfig) (packet : Option Text) (d : Disk) :
    Except PacketError (List PacketReport) := do
  let fixtures ← c.loadFixtures packet d
  .ok ((packetIds fixtures).map fun id =>
    .ofFixtures (suiteOf id) (some id) (fixtures.filter (·.packetId = id)))

end PacketConfig

end FormulaMigration
