import FormulaMigration.Packet.Suite
import FormulaMigration.Yaml.Decoder
import FormulaMigration.Yaml.Reading

namespace FormulaMigration

structure Gate where
  packetId : Text
  leastFixtureCount : Nat
  failed : Nat
deriving DecidableEq

namespace Gate

structure Draft where
  packetId : Option Text
  leastFixtureCount : Option Nat
  failed : Option Nat

def fields : List (YamlField Draft) :=
  [.of "packet_id" Yaml.text? (·.packetId) fun a s => { s with packetId := some a },
    .of "require_fixture_count_at_least" Yaml.count? (·.leastFixtureCount)
      fun a s => { s with leastFixtureCount := some a },
    .of "require_failed" Yaml.count? (·.failed) fun a s => { s with failed := some a }]

def ofText? (t : Text) : Option Gate := do
  let s ← (← Yaml.ofText? t).fields? fields ⟨none, none, none⟩
  some ⟨← s.packetId, ← s.leastFixtureCount, s.failed.getD 0⟩

instance : YamlReader Gate :=
  ⟨ofText?⟩

def reasons (g : Gate) (packetId : Text) (r : PacketReport) : List Text :=
  (if g.packetId = packetId then []
    else ["packet_id mismatch between gate (".toList ++ g.packetId ++ ") and report (".toList ++
      packetId ++ [')']]) ++
  (if g.leastFixtureCount ≤ r.fixtureCount then []
    else ["fixture_count=".toList ++ Text.ofNat r.fixtureCount ++ " below required ".toList ++
      Text.ofNat g.leastFixtureCount]) ++
  (if r.failed = g.failed then []
    else ["failed=".toList ++ Text.ofNat r.failed ++ " but gate requires ".toList ++
      Text.ofNat g.failed])

theorem reasons_eq_nil_iff {g : Gate} {packetId : Text} {r : PacketReport} :
    g.reasons packetId r = [] ↔
      g.packetId = packetId ∧ g.leastFixtureCount ≤ r.fixtureCount ∧ r.failed = g.failed := by
  simp only [reasons, List.append_eq_nil_iff]
  split <;> split <;> split <;> simp_all

end Gate

structure GateResult where
  packetId : Text
  fixtureCount : Nat
  failed : Nat
  reasons : List Text
deriving DecidableEq

namespace GateResult

def pass (r : GateResult) : Bool :=
  r.reasons.isEmpty

def toJson (r : GateResult) : Json :=
  .record [("packet_id", .string r.packetId), ("pass", .bool r.pass),
    ("fixture_count", .ofNat r.fixtureCount), ("failed", .ofNat r.failed),
    ("reasons", .array (r.reasons.map .string))]

end GateResult

namespace PacketConfig

def missingGateReasons (c : PacketConfig) (packetId : Text) : List Text :=
  if c.strict then ["missing gate file ".toList ++ c.gatePath packetId] else []

variable [DiskFaults] [YamlReader Gate]

def loadGate (c : PacketConfig) (packetId : Text) (d : Disk) : Except PacketError (Option Gate) :=
  if d.exists? (c.gatePath packetId) then
    match d.readText (c.gatePath packetId) with
    | .error e => .error (.file e)
    | .ok t =>
      match YamlReader.read? t with
      | some gate => .ok (some gate)
      | none => .error .malformedGate
  else .ok none

def evaluateGate (c : PacketConfig) (d : Disk) (r : PacketReport) :
    Except PacketError GateResult :=
  match r.packetId with
  | none => .error .reportWithoutPacket
  | some packetId => do
    let reasons := match ← c.loadGate packetId d with
      | some gate => gate.reasons packetId r
      | none => c.missingGateReasons packetId
    .ok ⟨packetId, r.fixtureCount, r.failed, reasons⟩

def reportFailures (c : PacketConfig) (d : Disk) (r : PacketReport) :
    Except PacketError (List Text) := do
  let gate ← c.evaluateGate d r
  let own :=
    if r.isGreen then []
    else [gate.packetId ++ ": parity report failed fixtures=".toList ++ Text.ofNat r.failed]
  let gates :=
    if gate.pass then []
    else [gate.packetId ++ ": gate failed reasons=".toList ++ Text.join [';', ' '] gate.reasons]
  .ok (own ++ gates)

def enforceGates (c : PacketConfig) (d : Disk) (reports : List PacketReport) :
    Except PacketError Unit := do
  let failures ← reports.mapM (c.reportFailures d)
  if failures.flatten.isEmpty then .ok () else .error (.gatesFailed failures.flatten)

end PacketConfig

end FormulaMigration
