import FormulaMigration.Ledger

namespace FormulaMigration

inductive FieldKind
  | expression
  | embedded
deriving DecidableEq

structure Plan where
  expressionKeys : List Text
  embeddedKeys : List Text
  skipConverted : Bool
  versionKey : Text
  scriptVersion : UInt64
deriving DecidableEq

namespace Plan

def blank : Plan :=
  ⟨[], [], true, "version".toList, 5⟩

def legacy : Plan :=
  { blank with
    expressionKeys := ["expression", "expr", "level_formula", "formula"].map String.toList
    embeddedKeys := ["notes", "name", "description", "text", "local_notes"].map String.toList }

def kindOf? (plan : Plan) (key : Text) : Option FieldKind :=
  if key ∈ plan.expressionKeys then some .expression
  else if key ∈ plan.embeddedKeys then some .embedded
  else none

def version? (plan : Plan) (document : Json) : Option UInt64 :=
  match document.member? plan.versionKey with
  | some (.number (.natural n)) => some n
  | _ => none

def isMigrated (plan : Plan) (document : Json) : Bool :=
  match plan.version? document with
  | some n => plan.scriptVersion ≤ n
  | none => false

def stamp (plan : Plan) : Json → Json
  | .object members =>
    .object (Json.setMember plan.versionKey (.number (.natural plan.scriptVersion)) members)
  | document => document

theorem isMigrated_stamp (plan : Plan) (members : List (Text × Json)) :
    plan.isMigrated (plan.stamp (.object members)) := by
  simp [isMigrated, version?, stamp, Json.member?, Json.lookup_setMember]

def toJson (plan : Plan) : Json :=
  .record [("expression_keys", .array (plan.expressionKeys.map .string)),
    ("embedded_keys", .array (plan.embeddedKeys.map .string)),
    ("skip_converted", .bool plan.skipConverted), ("version_key", .string plan.versionKey),
    ("script_version", .number (.natural plan.scriptVersion))]

structure Draft where
  expressionKeys : Option (List Text)
  embeddedKeys : Option (List Text)
  skipConverted : Option Bool
  versionKey : Option Text
  scriptVersion : Option UInt64

def Draft.empty : Draft := ⟨none, none, none, none, none⟩

def ofDraft (s : Draft) : Plan :=
  ⟨s.expressionKeys.getD blank.expressionKeys, s.embeddedKeys.getD blank.embeddedKeys,
    s.skipConverted.getD blank.skipConverted, s.versionKey.getD blank.versionKey,
    s.scriptVersion.getD blank.scriptVersion⟩

def fields : List (JsonField Draft) :=
  [.of "expression_keys" (JsonReading.list JsonReading.text) (·.expressionKeys)
      fun a s => { s with expressionKeys := some a },
    .of "embedded_keys" (JsonReading.list JsonReading.text) (·.embeddedKeys)
      fun a s => { s with embeddedKeys := some a },
    .of "skip_converted" JsonReading.truth (·.skipConverted)
      fun a s => { s with skipConverted := some a },
    .of "version_key" JsonReading.text (·.versionKey) fun a s => { s with versionKey := some a },
    .of "script_version" JsonReading.word (·.scriptVersion)
      fun a s => { s with scriptVersion := some a }].map JsonField.mayBeOmitted

def ofReading (v : JsonReading) : Except JsonFault Plan := do
  .ok (ofDraft (← v.fields fields .empty))

def ofText : Text → Except JsonFault Plan :=
  JsonReading.decodeText ofReading

def ofJson : Json → Except JsonFault Plan :=
  Json.decode ofReading

end Plan

end FormulaMigration
