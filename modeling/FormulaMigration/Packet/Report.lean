import FormulaMigration.Packet.Fixture

namespace FormulaMigration

structure CaseResult where
  packetId : Text
  caseId : Text
  operation : FixtureOperation
  passed : Bool
  mismatch : Option Text
  fallbackRecords : Nat
deriving DecidableEq

def Fixture.run (f : Fixture) : CaseResult :=
  ⟨f.packetId, f.caseId, f.operation, f.mismatch?.isNone, f.mismatch?, f.outcome.issues.length⟩

namespace CaseResult

def statusNames : List (Text × Bool) :=
  [("pass".toList, true), ("fail".toList, false)]

def toJson (r : CaseResult) : Json :=
  .record [("packet_id", .string r.packetId), ("case_id", .string r.caseId),
    ("operation", .string r.operation.name),
    ("status", .string (if r.passed then "pass" else "fail").toList),
    ("mismatch", .ofText? r.mismatch), ("fallback_records", .ofNat r.fallbackRecords)]

structure Draft where
  packetId : Option Text
  caseId : Option Text
  operation : Option FixtureOperation
  passed : Option Bool
  mismatch : Option (Option Text)
  fallbackRecords : Option Nat

def fields : List (JsonField Draft) :=
  [.of "packet_id" JsonReading.text (·.packetId) fun a s => { s with packetId := some a },
    .of "case_id" JsonReading.text (·.caseId) fun a s => { s with caseId := some a },
    .of "operation" FixtureOperation.ofReading (·.operation)
      fun a s => { s with operation := some a },
    .of "status" (JsonReading.choice statusNames) (·.passed)
      fun a s => { s with passed := some a },
    .of "mismatch" (JsonReading.optional JsonReading.text) (·.mismatch)
      fun a s => { s with mismatch := some a },
    .of "fallback_records" JsonReading.count (·.fallbackRecords)
      fun a s => { s with fallbackRecords := some a }]

def ofReading (v : JsonReading) : Except JsonFault CaseResult := do
  let s ← v.fields fields ⟨none, none, none, none, none, none⟩
  .ok ⟨← JsonReading.required s.packetId, ← JsonReading.required s.caseId,
    ← JsonReading.required s.operation, ← JsonReading.required s.passed, s.mismatch.join,
    ← JsonReading.required s.fallbackRecords⟩

end CaseResult

structure PacketReport where
  suite : Text
  packetId : Option Text
  fixtureCount : Nat
  passed : Nat
  failed : Nat
  results : List CaseResult
deriving DecidableEq

namespace PacketReport

def ofFixtures (suite : Text) (packetId : Option Text) (fixtures : List Fixture) : PacketReport :=
  let results := fixtures.map Fixture.run
  let failed := results.countP (!·.passed)
  ⟨suite, packetId, results.length, results.length - failed, failed, results⟩

def isGreen (r : PacketReport) : Bool :=
  r.failed = 0 && 0 < r.fixtureCount

def toJson (r : PacketReport) : Json :=
  .record [("suite", .string r.suite), ("packet_id", .ofText? r.packetId),
    ("fixture_count", .ofNat r.fixtureCount), ("passed", .ofNat r.passed),
    ("failed", .ofNat r.failed), ("results", .array (r.results.map CaseResult.toJson))]

structure Draft where
  suite : Option Text
  packetId : Option (Option Text)
  fixtureCount : Option Nat
  passed : Option Nat
  failed : Option Nat
  results : Option (List CaseResult)

def fields : List (JsonField Draft) :=
  [.of "suite" JsonReading.text (·.suite) fun a s => { s with suite := some a },
    .of "packet_id" (JsonReading.optional JsonReading.text) (·.packetId)
      fun a s => { s with packetId := some a },
    .of "fixture_count" JsonReading.count (·.fixtureCount)
      fun a s => { s with fixtureCount := some a },
    .of "passed" JsonReading.count (·.passed) fun a s => { s with passed := some a },
    .of "failed" JsonReading.count (·.failed) fun a s => { s with failed := some a },
    .of "results" (JsonReading.list CaseResult.ofReading) (·.results)
      fun a s => { s with results := some a }]

def ofReading (v : JsonReading) : Except JsonFault PacketReport := do
  let s ← v.fields fields ⟨none, none, none, none, none, none⟩
  .ok ⟨← JsonReading.required s.suite, s.packetId.join, ← JsonReading.required s.fixtureCount,
    ← JsonReading.required s.passed, ← JsonReading.required s.failed,
    ← JsonReading.required s.results⟩

def listOfJson : Json → Except JsonFault (List PacketReport) :=
  Json.decode (JsonReading.list ofReading)

end PacketReport

end FormulaMigration
