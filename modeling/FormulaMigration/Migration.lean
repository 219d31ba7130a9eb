import FormulaMigration.Plan

namespace FormulaMigration

structure Tally where
  candidates : Nat
  converted : Nat
  unchanged : Nat
  skipped : Nat
deriving DecidableEq

namespace Tally

def zero : Tally := ⟨0, 0, 0, 0⟩

def oneConverted : Tally := ⟨1, 1, 0, 0⟩

def oneUnchanged : Tally := ⟨1, 0, 1, 0⟩

def oneSkipped : Tally := ⟨1, 0, 0, 1⟩

def add (a b : Tally) : Tally :=
  ⟨a.candidates + b.candidates, a.converted + b.converted, a.unchanged + b.unchanged,
    a.skipped + b.skipped⟩

end Tally

structure Migrated (α : Type) where
  value : α
  tally : Tally
  issues : List Issue

namespace Migrated

def same {α : Type} (a : α) : Migrated α :=
  ⟨a, .zero, []⟩

def map {α β : Type} (f : α → β) (m : Migrated α) : Migrated β :=
  ⟨f m.value, m.tally, m.issues⟩

def combine {α β γ : Type} (f : α → β → γ) (m : Migrated α) (n : Migrated β) : Migrated γ :=
  ⟨f m.value n.value, m.tally.add n.tally, m.issues ++ n.issues⟩

end Migrated

namespace Plan

def convertField : FieldKind → Text → Conversion
  | .expression => Formula.convert
  | .embedded => Embedded.convert

def migrateField (plan : Plan) (kind : FieldKind) (t : Text) : Migrated Text :=
  if t.trim = [] then ⟨t, .oneUnchanged, []⟩
  else if plan.skipConverted && kind = .embedded && Embedded.hasScript t then ⟨t, .oneSkipped, []⟩
  else
    let conversion := convertField kind t
    ⟨conversion.output, if conversion.output = t then .oneUnchanged else .oneConverted,
      conversion.issues⟩

mutual
def walk (plan : Plan) : Json → Migrated Json
  | .array items => (walkItems plan items).map .array
  | .object members => (walkMembers plan members).map .object
  | .null => .same .null
  | .bool b => .same (.bool b)
  | .number n => .same (.number n)
  | .string t => .same (.string t)
def walkItems (plan : Plan) : List Json → Migrated (List Json)
  | [] => .same []
  | v :: rest => (walk plan v).combine (· :: ·) (walkItems plan rest)
/-- Migrates the members of an object. Only a string that stands right under a key is named by it;
whatever else stands there is searched. -/
def walkMembers (plan : Plan) : List (Text × Json) → Migrated (List (Text × Json))
  | [] => .same []
  | (key, v) :: rest =>
    let migrated :=
      match plan.kindOf? key, v with
      | some kind, .string t => (plan.migrateField kind t).map Json.string
      | _, v => walk plan v
    migrated.combine (fun v rest => (key, v) :: rest) (walkMembers plan rest)
end

end Plan

structure MigrationSummary where
  tally : Tally
  alreadyMigrated : Bool
  fallbacks : IssueCount
deriving DecidableEq

namespace MigrationSummary

def text (s : MigrationSummary) : Text :=
  "candidates=".toList ++ Text.ofNat s.tally.candidates ++
    " converted=".toList ++ Text.ofNat s.tally.converted ++
    " unchanged=".toList ++ Text.ofNat s.tally.unchanged ++
    " skipped=".toList ++ Text.ofNat s.tally.skipped ++
    " already_migrated=".toList ++ (if s.alreadyMigrated then "true" else "false").toList ++
    [' '] ++ s.fallbacks.text

def toJson (s : MigrationSummary) : Json :=
  .record [("candidates", .ofNat s.tally.candidates), ("converted", .ofNat s.tally.converted),
    ("unchanged", .ofNat s.tally.unchanged), ("skipped", .ofNat s.tally.skipped),
    ("already_migrated", .bool s.alreadyMigrated), ("fallbacks", s.fallbacks.toJson)]

end MigrationSummary

structure Migration where
  document : Json
  summary : MigrationSummary
  issues : List Issue

namespace Plan

def migrate (plan : Plan) (document : Json) : Migration :=
  if plan.isMigrated document then ⟨document, ⟨.zero, true, .zero⟩, []⟩
  else
    let walked := plan.walk document
    ⟨plan.stamp walked.value, ⟨walked.tally, false, .ofIssues walked.issues⟩, walked.issues⟩

def migrateText (plan : Plan) (t : Text) : Except JsonFault (Text × Migration) := do
  let migration := plan.migrate (← Json.ofText t)
  .ok (migration.document.pretty, migration)

end Plan

end FormulaMigration
