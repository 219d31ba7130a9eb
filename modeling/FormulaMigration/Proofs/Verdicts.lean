import FormulaMigration.Packet.Report
import FormulaMigration.Proofs.Rejection

namespace FormulaMigration

namespace Formula

variable {t message : Text}

theorem convert_of_ok {c : Conversion} (converted : convert? t = .ok c) :
    convert t = c ∧ ∀ issue ∈ c.issues, issue.kind = .argumentPlaceholder := by
  constructor
  · rw [convert, converted]
  · cases parsed : ofText t with
    | error e =>
      rw [convert?, parsed] at converted
      cases converted
    | ok f =>
      obtain ⟨rejections, -, issues⟩ := Script.ofFormula_tells parsed
      rw [convert?, parsed] at converted
      obtain rfl := Except.ok.inj converted
      intro issue mem
      rw [issues] at mem
      obtain ⟨rejection, -, rfl⟩ := List.mem_map.mp mem
      rfl

theorem refused_iff_kept :
    (∃ e, convert? t = .error e ∧ message = e.message) ↔
      (convert t).issues = [⟨.originalKept, t, message⟩] := by
  constructor
  · rintro ⟨e, refused, rfl⟩
    rw [convert, refused]
  · intro kept
    cases converted : convert? t with
    | error e =>
      rw [convert, converted] at kept
      exact ⟨e, rfl, by simpa using kept.symm⟩
    | ok c =>
      obtain ⟨rfl, arguments⟩ := convert_of_ok converted
      cases arguments _ (kept ▸ List.mem_singleton_self _)

end Formula

namespace Fixture

def stopAt (mismatch? : Option Text) : EStateM Text Ledger Unit :=
  match mismatch? with
  | some message => throw message
  | none => pure ()

def checkResult (time : UInt64) (f : Fixture) : EStateM Text Ledger Unit := do
  match f.operation with
  | .convertFormula =>
    let (output, l) := (← get).convertFormula time f.input
    set l
    stopAt (f.outputMismatch? output)
  | .convertEmbedded =>
    let (output, l) := (← get).convertEmbedded time f.input
    set l
    stopAt (f.outputMismatch? output)
  | .refuseFormula =>
    match Formula.convert? f.input with
    | .ok c => throw ("expected a parse error, got ".toList ++ c.output.quoteSeen)
    | .error e => stopAt (f.errorMismatch? e)

def checkCount (f : Fixture) : EStateM Text Ledger Unit := do
  let count := (← get).records.length
  match f.expectedFallbacks with
  | none => pure ()
  | some expected =>
    if count = expected then pure ()
    else throw ("fallback count mismatch: expected ".toList ++ Text.ofNat expected ++
      ", got ".toList ++ Text.ofNat count)

def check (time : UInt64) (f : Fixture) : EStateM Text Ledger Unit := do
  f.checkResult time
  f.checkCount

def recorded (time : UInt64) (f : Fixture) : Ledger :=
  match f.operation with
  | .convertFormula => (Ledger.empty.convertFormula time f.input).2
  | .convertEmbedded => (Ledger.empty.convertEmbedded time f.input).2
  | .refuseFormula => .empty

def Met (f : Fixture) : Prop :=
  match f.operation with
  | .convertFormula => f.expected = some (Formula.convert f.input).output ∧
      ∀ n, f.expectedFallbacks = some n → n = (Formula.convert f.input).issues.length
  | .convertEmbedded => f.expected = some (Embedded.convert f.input).output ∧
      ∀ n, f.expectedFallbacks = some n → n = (Embedded.convert f.input).issues.length
  | .refuseFormula => (∃ e, Formula.convert? f.input = .error e ∧
      ∀ message, f.expectedError = some message → message = e.message) ∧
      ∀ n, f.expectedFallbacks = some n → n = 0

variable {f : Fixture}

theorem outputMismatch?_eq_none_iff {output : Text} :
    f.outputMismatch? output = none ↔ f.expected = some output := by
  rw [outputMismatch?]
  cases f.expected with
  | none => simp
  | some expected =>
    dsimp only
    split_ifs <;> simp_all

theorem errorMismatch?_eq_none_iff {e : FormulaError} :
    f.errorMismatch? e = none ↔ ∀ message, f.expectedError = some message → message = e.message := by
  rw [errorMismatch?]
  cases f.expectedError with
  | none => simp
  | some expected =>
    dsimp only
    split_ifs <;> simp_all

theorem issuesMismatch?_eq_none_iff :
    f.issuesMismatch? = none ↔
      ∀ n, f.expectedFallbacks = some n → n = f.outcome.issues.length := by
  rw [issuesMismatch?]
  cases f.expectedFallbacks with
  | none => simp
  | some expected =>
    dsimp only
    split_ifs <;> simp_all [eq_comm]

theorem mismatch?_eq_none_iff :
    f.mismatch? = none ↔ f.resultMismatch? = none ∧ f.issuesMismatch? = none := by
  rw [mismatch?]
  cases f.resultMismatch? <;> simp

theorem mismatch?_eq_none_iff_met : f.mismatch? = none ↔ f.Met := by
  rw [mismatch?_eq_none_iff, issuesMismatch?_eq_none_iff, Met, resultMismatch?, outcome]
  cases f.operation with
  | convertFormula => simp [outputMismatch?_eq_none_iff]
  | convertEmbedded => simp [outputMismatch?_eq_none_iff]
  | refuseFormula =>
    cases Formula.convert? f.input with
    | ok c => simp [Except.map]
    | error e => simp [Except.map, errorMismatch?_eq_none_iff]

def ending (mismatch? : Option Text) (l : Ledger) : EStateM.Result Text Ledger Unit :=
  match mismatch? with
  | some message => .error message l
  | none => .ok () l

theorem stopAt_eq (mismatch? : Option Text) (l : Ledger) :
    stopAt mismatch? l = ending mismatch? l := by
  cases mismatch? <;> rfl

theorem length_recorded (time : UInt64) (f : Fixture) :
    (f.recorded time).records.length = f.outcome.issues.length := by
  rw [recorded, outcome]
  cases f.operation <;>
    simp [Ledger.convertFormula, Ledger.convertEmbedded, Ledger.extend, Ledger.empty]

theorem checkResult_empty (time : UInt64) (f : Fixture) :
    f.checkResult time .empty = ending f.resultMismatch? (f.recorded time) := by
  rw [checkResult, resultMismatch?, recorded, outcome]
  cases f.operation with
  | convertFormula => exact stopAt_eq _ _
  | convertEmbedded => exact stopAt_eq _ _
  | refuseFormula =>
    cases Formula.convert? f.input with
    | ok c => rfl
    | error e => exact stopAt_eq _ _

theorem checkCount_recorded (time : UInt64) (f : Fixture) :
    f.checkCount (f.recorded time) = ending f.issuesMismatch? (f.recorded time) := by
  change (f.checkCount).run _ = _
  simp only [checkCount, EStateM.run_bind, EStateM.run_get, issuesMismatch?, ← length_recorded time f]
  cases f.expectedFallbacks with
  | none => rfl
  | some expected =>
    dsimp only
    split_ifs <;> rfl

theorem check_empty (time : UInt64) (f : Fixture) :
    f.check time .empty = ending f.mismatch? (f.recorded time) := by
  change (f.check time).run _ = _
  rw [check, EStateM.run_bind, EStateM.run, checkResult_empty, mismatch?]
  cases f.resultMismatch? with
  | some message => rfl
  | none => exact checkCount_recorded time f

structure Judged (f : Fixture) : Prop where
  passed_iff : f.run.passed ↔ f.run.mismatch = none
  met_iff : f.run.passed ↔ f.Met
  checked : ∀ time, f.check time .empty = ending f.run.mismatch (f.recorded time)
  counted : ∀ time, f.run.fallbackRecords = (f.recorded time).records.length
  agree : ∀ message, (∃ e, Formula.convert? f.input = .error e ∧ message = e.message) ↔
    (Formula.convert f.input).issues = [⟨.originalKept, f.input, message⟩]
  converted : ∀ c, Formula.convert? f.input = .ok c → Formula.convert f.input = c ∧
    ∀ issue ∈ c.issues, issue.kind = .argumentPlaceholder

/-- A case passes exactly when all that it expects comes out. Its count of issues is that of the
conversion, whether it passes or not. -/
theorem run_judged (f : Fixture) : f.Judged where
  passed_iff := by simp [run]
  met_iff := by simp [run, mismatch?_eq_none_iff_met]
  checked := fun time => check_empty time f
  counted := fun time => (length_recorded time f).symm
  agree := fun _ => Formula.refused_iff_kept
  converted := fun _ => Formula.convert_of_ok

-- The output is not the expected one, but the issue is counted.
example : run ⟨['P'], ['c'], .convertFormula, "max(foo(1), 2)".toList, some ['2'], none, some 0⟩ =
    ⟨['P'], ['c'], .convertFormula, false,
      some "output mismatch: expected \"2\", got \"Math.max(<error>, 2)\"".toList, 1⟩ := by
  decide +kernel

end Fixture

end FormulaMigration
