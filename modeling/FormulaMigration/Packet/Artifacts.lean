import FormulaMigration.Digest.Sha256
import FormulaMigration.Packet.Gate

namespace FormulaMigration

structure Artifacts where
  packetId : Text
  reportPath : Path
  gatePath : Path
  reportHash : Text
deriving DecidableEq

namespace Artifacts

def toJson (a : Artifacts) : Json :=
  .record [("packet_id", .string a.packetId), ("parity_report_path", .string a.reportPath),
    ("gate_result_path", .string a.gatePath), ("report_hash", .string a.reportHash)]

def reportName : Name := "parity_report.json".toList

def gateName : Name := "parity_gate_result.json".toList

def hash (content : Bytes) : Text :=
  "sha256:".toList ++ Sha256.hex content

def reportContent (r : PacketReport) : Bytes :=
  Text.encode r.toJson.pretty

def gateContent (reportHash : Text) (gate : GateResult) : Bytes :=
  Text.encode
    (Json.record [("report_hash", .string reportHash), ("gate", gate.toJson)]).pretty

end Artifacts

namespace PacketConfig

def onDisk {α : Type} (action : DiskAction FileError α) : DiskAction PacketError α :=
  EStateM.adaptExcept .file action

variable [DiskFaults] [YamlReader Gate]

def writeReport (c : PacketConfig) (r : PacketReport) : DiskAction PacketError Artifacts := do
  match r.packetId with
  | none => throw .packetRequired
  | some packetId =>
    let folder := c.reportFolder packetId
    onDisk (Disk.makeFoldersTo folder)
    let reportPath := Path.join folder Artifacts.reportName
    let content := Artifacts.reportContent r
    onDisk (Disk.writeFile reportPath content)
    let reportHash := Artifacts.hash content
    match c.evaluateGate (← get) r with
    | .error e => throw e
    | .ok gate =>
      let gatePath := Path.join folder Artifacts.gateName
      onDisk (Disk.writeFile gatePath (Artifacts.gateContent reportHash gate))
      pure ⟨packetId, reportPath, gatePath, reportHash⟩

def writeReports (c : PacketConfig) (reports : List PacketReport) :
    DiskAction PacketError (List Artifacts) :=
  reports.mapM c.writeReport

end PacketConfig

end FormulaMigration
