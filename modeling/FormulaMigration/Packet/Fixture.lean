import FormulaMigration.Ledger
import FormulaMigration.Text.Quoted

namespace FormulaMigration

inductive FixtureOperation
  | convertFormula
  | convertEmbedded
  | refuseFormula
deriving DecidableEq

namespace FixtureOperation

def names : List (Text × FixtureOperation) :=
  [("transpile_expression".toList, convertFormula), ("transpile_embedded".toList, convertEmbedded),
    ("parse_error".toList, refuseFormula)]

def name : FixtureOperation → Text
  | convertFormula => "transpile_expression".toList
  | convertEmbedded => "transpile_embedded".toList
  | refuseFormula => "parse_error".toList

def ofReading : JsonReading → Except JsonFault FixtureOperation :=
  JsonReading.choice names

end FixtureOperation

structure Fixture where
  packetId : Text
  caseId : Text
  operation : FixtureOperation
  input : Text
  expected : Option Text
  expectedError : Option Text
  expectedFallbacks : Option Nat
deriving DecidableEq

namespace Fixture

structure Draft where
  packetId : Option Text
  caseId : Option Text
  operation : Option FixtureOperation
  input : Option Text
  expected : Option (Option Text)
  expectedError : Option (Option Text)
  expectedFallbacks : Option (Option Nat)

def Draft.empty : Draft := ⟨none, none, none, none, none, none, none⟩

def fields : List (JsonField Draft) :=
  [.of "packet_id" JsonReading.text (·.packetId) fun a s => { s with packetId := some a },
    .of "case_id" JsonReading.text (·.caseId) fun a s => { s with caseId := some a },
    .of "operation" FixtureOperation.ofReading (·.operation)
      fun a s => { s with operation := some a },
    .of "input" JsonReading.text (·.input) fun a s => { s with input := some a },
    (JsonField.of "expected" (JsonReading.optional JsonReading.text) (·.expected)
      fun a s => { s with expected := some a }).mayBeOmitted,
    (JsonField.of "expected_error" (JsonReading.optional JsonReading.text) (·.expectedError)
      fun a s => { s with expectedError := some a }).mayBeOmitted,
    (JsonField.of "expected_fallbacks" (JsonReading.optional JsonReading.count)
      (·.expectedFallbacks) fun a s => { s with expectedFallbacks := some a }).mayBeOmitted]

def ofReading (v : JsonReading) : Except JsonFault Fixture := do
  let s ← v.fields fields .empty
  .ok ⟨← JsonReading.required s.packetId, ← JsonReading.required s.caseId,
    ← JsonReading.required s.operation, ← JsonReading.required s.input, s.expected.join,
    s.expectedError.join, s.expectedFallbacks.join⟩

def ofText : Text → Except JsonFault Fixture :=
  JsonReading.decodeText ofReading

structure Outcome where
  result : Except FormulaError Text
  issues : List Issue

def outcome (f : Fixture) : Outcome :=
  match f.operation with
  | .convertFormula => ⟨.ok (Formula.convert f.input).output, (Formula.convert f.input).issues⟩
  | .convertEmbedded => ⟨.ok (Embedded.convert f.input).output, (Embedded.convert f.input).issues⟩
  | .refuseFormula => ⟨(Formula.convert? f.input).map (·.output), []⟩

def outputMismatch? (f : Fixture) (actual : Text) : Option Text :=
  match f.expected with
  | none => some "expected is required for transpile operations".toList
  | some expected =>
    if expected = actual then none
    else some ("output mismatch: expected ".toList ++ expected.quoteSeen ++ ", got ".toList ++
      actual.quoteSeen)

def errorMismatch? (f : Fixture) (error : FormulaError) : Option Text :=
  match f.expectedError with
  | none => none
  | some expected =>
    if expected = error.message then none
    else some ("error mismatch: expected ".toList ++ expected.quoteSeen ++ ", got ".toList ++
      error.message.quoteSeen)

def resultMismatch? (f : Fixture) : Option Text :=
  match f.operation, f.outcome.result with
  | .refuseFormula, .ok script => some ("expected a parse error, got ".toList ++ script.quoteSeen)
  | .refuseFormula, .error e => f.errorMismatch? e
  | _, .ok output => f.outputMismatch? output
  | _, .error _ => none

def issuesMismatch? (f : Fixture) : Option Text :=
  match f.expectedFallbacks with
  | none => none
  | some expected =>
    if f.outcome.issues.length = expected then none
    else some ("fallback count mismatch: expected ".toList ++ Text.ofNat expected ++
      ", got ".toList ++ Text.ofNat f.outcome.issues.length)

def mismatch? (f : Fixture) : Option Text :=
  f.resultMismatch? <|> f.issuesMismatch?

end Fixture

end FormulaMigration
