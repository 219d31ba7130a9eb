import FormulaMigration.Migration
import FormulaMigration.Proofs.Emission

namespace FormulaMigration

/-- What is done with a ledger at hand, into which issues go as they are met. -/
abbrev Recording := StateT Ledger Option

abbrev Counting := StateT Tally Recording

namespace Recording

variable {α β : Type} {clock : Nat → UInt64} {x : Recording α} {a : α} {issues issues' : List Issue}

def Gives (clock : Nat → UInt64) (x : Recording α) (a : α) (issues : List Issue) : Prop :=
  ∀ l, x l = some (a, l.recordAll clock issues)

theorem Gives.pure (a : α) : Gives clock (pure a) a [] :=
  fun _ => rfl

theorem Gives.bind {f : α → Recording β} {b : β} (h : Gives clock x a issues)
    (next : Gives clock (f a) b issues') : Gives clock (x >>= f) b (issues ++ issues') := by
  intro l
  change (x l).bind (fun p => f p.1 p.2) = _
  rw [h l, Option.bind_some, next, Ledger.recordAll_append]

theorem Gives.map (h : Gives clock x a issues) (f : α → β) :
    Gives clock (do return f (← x)) (f a) issues := by
  have mapped := h.bind (f := fun a => return f a) (.pure (f a))
  rwa [List.append_nil] at mapped

end Recording

namespace Formula

open Recording

def convertOnto (clock : Nat → UInt64) (t : Text) : Recording Text := fun l =>
  match ofText t with
  | .error e => some (t, l.record clock ⟨.originalKept, t, e.message⟩)
  | .ok f => do
    let s ← f.emit clock ⟨[], l⟩
    some (Text.join [' '] s.tokens, s.ledger)

theorem convertOnto_gives (clock : Nat → UInt64) (t : Text) :
    Gives clock (convertOnto clock t) (convert t).output (convert t).issues := by
  intro l
  rw [convertOnto, convert, convert?]
  cases reading : ofText t with
  | error e => rfl
  | ok f =>
    simp only [emit, write_readArgument (Nat.le_refl _)]
    rfl

end Formula

namespace Ledger

/-- Whatever the ledger holds, it keeps what it has and gets one issue for a text that is kept, or
one for every rejected argument of a text that is converted, each when it is met. -/
theorem convertFormula_eq (l : Ledger) (time : UInt64) (t : Text) :
    ∃ issues : List Issue, l.convertFormula time t =
        ((Formula.convert t).output, ⟨l.records ++ issues.map (⟨time, ·⟩)⟩) ∧
      (∀ e, Formula.convert? t = .error e →
        (Formula.convert t).output = t ∧ issues = [⟨.originalKept, t, e.message⟩]) ∧
      (∀ c, Formula.convert? t = .ok c → (Formula.convert t).output = c.output ∧
        ∃ f tokens rejections, Formula.ofText t = .ok f ∧
          (∀ ts rs, Script.Written (.formula f) ts rs ↔ ts = tokens ∧ rs = rejections) ∧
          c.output = Text.join [' '] tokens ∧
          issues = rejections.map Script.Rejection.issue) ∧
      ∀ clock, Formula.convertOnto clock t l =
        some ((Formula.convert t).output, l.recordAll clock issues) := by
  refine ⟨(Formula.convert t).issues, rfl, ?_, ?_, fun clock => Formula.convertOnto_gives clock t l⟩
  · intro e he
    rw [Formula.convert, he]
    exact ⟨rfl, rfl⟩
  · intro c hc
    rw [Formula.convert, hc]
    refine ⟨rfl, ?_⟩
    cases hf : Formula.ofText t with
    | error e =>
      rw [Formula.convert?, hf] at hc
      cases hc
    | ok f =>
      rw [Formula.convert?, hf] at hc
      cases hc
      obtain ⟨rejections, written, issues⟩ := Script.ofFormula_tells hf
      refine ⟨f, _, rejections, rfl, ?_, rfl, issues⟩
      intro ts rs
      constructor
      · exact written.unique
      · rintro ⟨rfl, rfl⟩
        exact written

end Ledger

namespace Embedded

open Recording

def partOnto (clock : Nat → UInt64) : Part → Recording Text
  | .plain c => pure [c]
  | .formula t => do pure (scriptStart ++ (← Formula.convertOnto clock t) ++ scriptEnd)

def partsOnto (clock : Nat → UInt64) : List Part → Recording Text
  | [] => pure []
  | part :: rest => do
    let t ← partOnto clock part
    pure (t ++ (← partsOnto clock rest))

def convertOnto (clock : Nat → UInt64) (t : Text) : Recording Text :=
  partsOnto clock (parts t)

theorem partOnto_gives (clock : Nat → UInt64) (part : Part) :
    Gives clock (partOnto clock part) (convertPart part).output (convertPart part).issues := by
  cases part with
  | plain c => exact .pure _
  | formula t => exact (Formula.convertOnto_gives clock t).map (scriptStart ++ · ++ scriptEnd)

theorem convertOnto_gives (clock : Nat → UInt64) (t : Text) :
    Gives clock (convertOnto clock t) (convert t).output (convert t).issues := by
  rw [convertOnto, convert]
  induction parts t with
  | nil => exact .pure _
  | cons part rest ih =>
    exact (partOnto_gives clock part).bind (ih.map ((convertPart part).output ++ ·))

end Embedded

namespace Counting

variable {α β γ : Type} {clock : Nat → UInt64} {x : Counting α} {m : Migrated α} {n : Migrated β}

def Does (clock : Nat → UInt64) (x : Counting α) (m : Migrated α) : Prop :=
  ∀ tally, Recording.Gives clock (x tally) (m.value, tally.add m.tally) m.issues

theorem Does.pure (a : α) : Does clock (pure a) (.same a) :=
  fun _ => Recording.Gives.pure _

theorem Does.map (h : Does clock x m) (f : α → β) : Does clock (do return f (← x)) (m.map f) :=
  fun tally => (h tally).map fun p => (f p.1, p.2)

theorem Does.combine {y : Counting β} (h : Does clock x m) (next : Does clock y n)
    (f : α → β → γ) : Does clock (do return f (← x) (← y)) (m.combine f n) := by
  intro tally
  have added : tally.add (m.tally.add n.tally) = (tally.add m.tally).add n.tally := by
    simp [Tally.add, Nat.add_assoc]
  rw [Migrated.combine, added]
  exact (h tally).bind (f := fun p => do let q ← y p.2; return (f p.1 q.1, q.2))
    ((next (tally.add m.tally)).map fun p => (f m.value p.1, p.2))

theorem Does.count (a : α) (k : Tally) :
    Does clock (do modify (·.add k); return a) ⟨a, k, []⟩ :=
  fun _ => Recording.Gives.pure _

theorem Does.lift {y : Recording α} {a : α} {issues : List Issue}
    (h : Recording.Gives clock y a issues) (k : α → Tally) :
    Does clock (do let a ← y; modify (·.add (k a)); return a) ⟨a, k a, issues⟩ := by
  intro tally
  exact (h.map (·, tally)).map fun p => (p.1, p.2.add (k p.1))

end Counting

namespace Plan

open Counting

def fieldOnto (clock : Nat → UInt64) (plan : Plan) (kind : FieldKind) (t : Text) :
    Counting Text := do
  if t.trim = [] then
    modify (·.add .oneUnchanged)
    pure t
  else if plan.skipConverted && kind = .embedded && Embedded.hasScript t then
    modify (·.add .oneSkipped)
    pure t
  else
    let converted ← match kind with
      | .expression => Formula.convertOnto clock t
      | .embedded => Embedded.convertOnto clock t
    modify (·.add (if converted = t then .oneUnchanged else .oneConverted))
    pure converted

mutual
def walkOnto (clock : Nat → UInt64) (plan : Plan) : Json → Counting Json
  | .array items => do return .array (← walkItemsOnto clock plan items)
  | .object members => do return .object (← walkMembersOnto clock plan members)
  | v => pure v
def walkItemsOnto (clock : Nat → UInt64) (plan : Plan) : List Json → Counting (List Json)
  | [] => pure []
  | v :: rest => do return (← walkOnto clock plan v) :: (← walkItemsOnto clock plan rest)
def walkMembersOnto (clock : Nat → UInt64) (plan : Plan) :
    List (Text × Json) → Counting (List (Text × Json))
  | [] => pure []
  | (key, v) :: rest =>
    let migrated : Counting Json :=
      match plan.kindOf? key, v with
      | some kind, .string t => do return .string (← fieldOnto clock plan kind t)
      | _, v => walkOnto clock plan v
    do return (key, ← migrated) :: (← walkMembersOnto clock plan rest)
end

/-- Migrates a document with a ledger that holds records already. What was met is what the ledger
holds behind these in the end. -/
def migrateOnto (clock : Nat → UInt64) (plan : Plan) (document : Json) :
    Recording (Json × MigrationSummary) := do
  if plan.isMigrated document then pure (document, ⟨.zero, true, .zero⟩)
  else
    let before := (← get).records.length
    let (walked, tally) ← walkOnto clock plan document .zero
    let met := (← get).records.drop before
    pure (plan.stamp walked, ⟨tally, false, .ofIssues (met.map (·.issue))⟩)

theorem fieldOnto_does (clock : Nat → UInt64) (plan : Plan) (kind : FieldKind) (t : Text) :
    Does clock (fieldOnto clock plan kind t) (plan.migrateField kind t) := by
  rw [fieldOnto, migrateField]
  split_ifs with blank skipped
  · exact .count t _
  · exact .count t _
  · cases kind with
    | expression => exact .lift (Formula.convertOnto_gives clock t) _
    | embedded => exact .lift (Embedded.convertOnto_gives clock t) _

mutual
theorem walkOnto_does (clock : Nat → UInt64) (plan : Plan) :
    ∀ v : Json, Does clock (walkOnto clock plan v) (plan.walk v)
  | .array items => (walkItemsOnto_does clock plan items).map Json.array
  | .object members => (walkMembersOnto_does clock plan members).map Json.object
  | .null => .pure _
  | .bool _ => .pure _
  | .number _ => .pure _
  | .string _ => .pure _
theorem walkItemsOnto_does (clock : Nat → UInt64) (plan : Plan) :
    ∀ items : List Json, Does clock (walkItemsOnto clock plan items) (plan.walkItems items)
  | [] => .pure _
  | v :: rest => (walkOnto_does clock plan v).combine (walkItemsOnto_does clock plan rest) _
theorem walkMembersOnto_does (clock : Nat → UInt64) (plan : Plan) :
    ∀ members : List (Text × Json),
      Does clock (walkMembersOnto clock plan members) (plan.walkMembers members)
  | [] => .pure _
  | (key, v) :: rest => by
    have tail := walkMembersOnto_does clock plan rest
    have inside := walkOnto_does clock plan v
    rw [walkMembersOnto.eq_def, walkMembers.eq_def]
    apply Does.combine _ tail
    cases plan.kindOf? key with
    | none => exact inside
    | some kind =>
      cases v with
      | string t => exact (fieldOnto_does clock plan kind t).map Json.string
      | _ => exact inside
end

theorem migrateOnto_gives (clock : Nat → UInt64) (plan : Plan) (document : Json) :
    Recording.Gives clock (migrateOnto clock plan document)
      ((plan.migrate document).document, (plan.migrate document).summary)
      (plan.migrate document).issues := by
  rw [migrateOnto, migrate]
  split_ifs with migrated
  · exact .pure _
  · intro l
    obtain ⟨records, grown, met⟩ := l.gains_recordAll clock (plan.walk document).issues
    have walked := walkOnto_does clock plan document .zero l
    have added : Tally.zero.add (plan.walk document).tally = (plan.walk document).tally := by
      simp [Tally.add, Tally.zero]
    rw [added] at walked
    change (walkOnto clock plan document .zero l).bind _ = _
    rw [walked, Option.bind_some]
    change some ((_, MigrationSummary.mk _ _ (.ofIssues ((List.drop _ _).map _))), _) = _
    rw [grown, List.drop_left, met]

end Plan

end FormulaMigration
