import FormulaMigration.Embedded
import FormulaMigration.Json.Decoder

namespace FormulaMigration

namespace IssueKind

def names : List (Text × IssueKind) :=
  [("original_kept".toList, originalKept), ("argument_placeholder".toList, argumentPlaceholder)]

def name : IssueKind → Text
  | originalKept => "original_kept".toList
  | argumentPlaceholder => "argument_placeholder".toList

theorem lookup_names (kind : IssueKind) : names.lookup kind.name = some kind := by
  cases kind <;> decide

def ofReading : JsonReading → Except JsonFault IssueKind :=
  JsonReading.choice names

end IssueKind

namespace Issue

def toJson (issue : Issue) : Json :=
  .record [("kind", .string issue.kind.name), ("subject", .string issue.subject),
    ("detail", .string issue.detail)]

structure Draft where
  kind : Option IssueKind
  subject : Option Text
  detail : Option Text

def fields : List (JsonField Draft) :=
  [.of "kind" IssueKind.ofReading (·.kind) fun a s => { s with kind := some a },
    .of "subject" JsonReading.text (·.subject) fun a s => { s with subject := some a },
    .of "detail" JsonReading.text (·.detail) fun a s => { s with detail := some a }]

def ofReading (v : JsonReading) : Except JsonFault Issue := do
  let s ← v.fields fields ⟨none, none, none⟩
  .ok ⟨← JsonReading.required s.kind, ← JsonReading.required s.subject,
    ← JsonReading.required s.detail⟩

end Issue

structure Record where
  time : UInt64
  issue : Issue
deriving DecidableEq

namespace Record

def toJson (record : Record) : Json :=
  .record [("ts_unix_ms", .number (.natural record.time)), ("issue", record.issue.toJson)]

structure Draft where
  time : Option UInt64
  issue : Option Issue

def fields : List (JsonField Draft) :=
  [.of "ts_unix_ms" JsonReading.word (·.time) fun a s => { s with time := some a },
    .of "issue" Issue.ofReading (·.issue) fun a s => { s with issue := some a }]

def ofReading (v : JsonReading) : Except JsonFault Record := do
  let s ← v.fields fields ⟨none, none⟩
  .ok ⟨← JsonReading.required s.time, ← JsonReading.required s.issue⟩

def ofText : Text → Except JsonFault Record :=
  JsonReading.decodeText ofReading

end Record

structure IssueCount where
  total : Nat
  originalsKept : Nat
  argumentPlaceholders : Nat
deriving DecidableEq

namespace IssueCount

def zero : IssueCount := ⟨0, 0, 0⟩

def ofIssues (issues : List Issue) : IssueCount :=
  let kept := issues.countP (·.kind = .originalKept)
  ⟨issues.length, kept, issues.length - kept⟩

def isClean (c : IssueCount) : Bool :=
  c.total = 0

def text (c : IssueCount) : Text :=
  "fallbacks=".toList ++ Text.ofNat c.total ++ " originals_kept=".toList ++
    Text.ofNat c.originalsKept ++ " argument_placeholders=".toList ++
    Text.ofNat c.argumentPlaceholders

def toJson (c : IssueCount) : Json :=
  .record [("total", .ofNat c.total), ("originals_kept", .ofNat c.originalsKept),
    ("argument_placeholders", .ofNat c.argumentPlaceholders)]

end IssueCount

structure Ledger where
  records : List Record
deriving DecidableEq

namespace Ledger

def empty : Ledger := ⟨[]⟩

def push (l : Ledger) (record : Record) : Ledger :=
  ⟨l.records ++ [record]⟩

def extend (l : Ledger) (time : UInt64) (issues : List Issue) : Ledger :=
  ⟨l.records ++ issues.map (⟨time, ·⟩)⟩

def issues (l : Ledger) : List Issue :=
  l.records.map (·.issue)

def count (l : Ledger) : IssueCount :=
  IssueCount.ofIssues l.issues

def lines (l : Ledger) : Text :=
  l.records.flatMap fun record => record.toJson.compact ++ ['\n']

def toJson (l : Ledger) : Json :=
  .record [("records", .array (l.records.map Record.toJson))]

def ofReading (v : JsonReading) : Except JsonFault Ledger := do
  let field : JsonField (Option (List Record)) :=
    .of "records" (JsonReading.list Record.ofReading) id fun a _ => some a
  .ok ⟨← JsonReading.required (← v.fields [field] none)⟩

def ofText : Text → Except JsonFault Ledger :=
  JsonReading.decodeText ofReading

def convertFormula (l : Ledger) (time : UInt64) (t : Text) : Text × Ledger :=
  let conversion := Formula.convert t
  (conversion.output, l.extend time conversion.issues)

def convertEmbedded (l : Ledger) (time : UInt64) (t : Text) : Text × Ledger :=
  let conversion := Embedded.convert t
  (conversion.output, l.extend time conversion.issues)

end Ledger

end FormulaMigration
