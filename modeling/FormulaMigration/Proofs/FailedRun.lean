import FormulaMigration.CommandLine.Migrate
import FormulaMigration.Proofs.FileMigration

namespace FormulaMigration

open Std.Do

set_option mvcgen.warning false

namespace Session

@[spec]
theorem onDisk_spec {δ ε α : Type} (report : δ → ε) (action : DiskAction δ α)
    (Q : PostCond α (.except ε (.arg Session .pure))) :
    ⦃fun s => wp⟦action⟧ (fun a d => Q.1 a { s with disk := d },
        fun e d => Q.2.1 (report e) { s with disk := d }, ()) s.disk⦄
      onDisk report action
    ⦃Q⦄ := by
  intro s h
  simp only [WP.wp, PredTrans.apply, EStateM.run, onDisk] at h ⊢
  cases run : action s.disk <;> rw [run] at h <;> exact h

variable {ε : Type}

@[spec]
theorem printLine_spec (line : Text) (d : Disk) (l : Ledger) :
    ⦃fun s => ⌜s.disk = d ∧ s.ledger = l⌝⦄
      (printLine line : SessionAction ε Unit)
    ⦃post⟨fun _ s => ⌜s.disk = d ∧ s.ledger = l⌝, fun _ _ => ⌜False⌝⟩⦄ := by
  mvcgen [printLine]

@[spec]
theorem printLines_spec {α : Type} (text : α → Text) (lines : List α) (d : Disk) (l : Ledger) :
    ⦃fun s => ⌜s.disk = d ∧ s.ledger = l⌝⦄
      (lines.forM fun line => printLine (text line) : SessionAction ε Unit)
    ⦃post⟨fun _ s => ⌜s.disk = d ∧ s.ledger = l⌝, fun _ _ => ⌜False⌝⟩⦄ := by
  induction lines with
  | nil => mvcgen [List.forM]
  | cons line lines ih =>
    mvcgen [List.forM, ih]
    case vc1.cons.post.success s same _ _ still =>
      exact ⟨still.1.trans same.1, still.2.trans same.2⟩

end Session

namespace Plan

variable [DiskFaults]

def Rewrites (plan : Plan) (input output : Path) (m : Migration) (d d' : Disk) : Prop :=
  ∃ t, plan.migrateInput input d = .ok (t, m) ∧ Disk.Holds output (Text.encode t) d d'

@[spec]
theorem migrateFile_spec (plan : Plan) (time : UInt64) (input output : Path) (before : Session) :
    ⦃fun s => ⌜s = before⌝⦄
      plan.migrateFile time input output
    ⦃post⟨fun _ s => ⌜∃ m, plan.Rewrites input output m before.disk s.disk ∧
        s.ledger = before.ledger.extend time m.issues⌝,
      fun _ s => ⌜Disk.SameFiles before.disk s.disk ∨
        plan.BreaksOff input output before.disk s.disk⌝⟩⦄ := by
  intro s same
  simp only [SPred.down_pure] at same
  subst same
  simp only [WP.wp, PredTrans.apply, EStateM.run]
  cases run : plan.migrateFile time input output s with
  | ok report s' =>
    obtain ⟨body, text, m, place, wrote, -⟩ := migrateFile_ok run
    exact ⟨m, ⟨text, migrateInput_of_migrateText wrote.read wrote.migrated, place, wrote.reached,
      wrote.files⟩, wrote.ledger⟩
  | error e s' => exact (migrateFile_error run).left

end Plan

namespace MigrateCommand

section Runs

variable [DiskFaults] [YamlReader Plan]

inductive Interrupted (time : UInt64) (options : Options) (d d' : Disk) : Prop
  | output {plan : Plan} (loaded : loadPlan options d = .ok plan)
      (broken : plan.BreaksOff options.input (options.output.getD options.input) d d')
  | ledger {plan : Plan} {m : Migration} {ledger : Path} {lines : Bytes} {made : Disk}
      {fault : FileError} (loaded : loadPlan options d = .ok plan)
      (rewrites : plan.Rewrites options.input (options.output.getD options.input) m d made)
      (asked : options.ledger = some ledger)
      (listed : lines = Text.encode (Ledger.empty.extend time m.issues).lines)
      (refused : Disk.Unwritten ledger lines made fault d')
      (left : Disk.SameFiles made d' ∨ ∃ kept, Disk.Holds ledger (lines.take kept) made d')

theorem migrate_spec (time : UInt64) (options : Options) (d : Disk) :
    ⦃fun s => ⌜s.disk = d ∧ s.ledger = .empty⌝⦄
      migrate time options
    ⦃post⟨fun status _ => ⌜status ≠ failureStatus⌝,
      fun _ s => ⌜Disk.SameFiles d s.disk ∨ Interrupted time options d s.disk⌝⟩⦄ := by
  have status (unclean : Bool) : (if unclean then 2 else 0) ≠ failureStatus := by
    cases unclean <;> decide
  mvcgen [migrate, Session.writeLedger]
  case vc1.h_1 same _ _ =>
    rw [same.1]
    exact .inl (.refl d)
  case vc2.h_2.post.success.post.success.h_1.post.success.post.success => exact status _
  case vc3.h_2.post.success.post.success.h_1.post.except.handle s same plan loaded _ _ written _ _ _
      named _ still _ _ =>
    obtain ⟨m, rewrites, grown⟩ := written
    rw [same.1] at rewrites loaded
    rw [same.2] at grown
    rw [still.1, still.2, grown]
    intro refused
    exact .inr (.ledger loaded rewrites named rfl refused refused.left)
  case vc4.h_2.post.success.post.success.h_2 => exact status _
  case vc5.h_2.post.except.handle s same plan loaded _ _ =>
    rw [same.1] at loaded ⊢
    rintro (unchanged | broken)
    · exact .inl unchanged
    · exact .inr (.output loaded broken)

def Spares (time : UInt64) (arguments : List Text) (d d' : Disk) : Prop :=
  Disk.SameFiles d d' ∨
    ∃ options, parse arguments = .ok (.run options) ∧ Interrupted time options d d'

theorem run_spec (time : UInt64) (arguments : List Text) (d : Disk) :
    ⦃fun s => ⌜s.disk = d ∧ s.ledger = .empty⌝⦄
      run time arguments
    ⦃post⟨fun status _ => ⌜status ≠ failureStatus⌝,
      fun _ s => ⌜Spares time arguments d s.disk⌝⟩⦄ := by
  mvcgen [run, migrate_spec]
  case vc1.h_1 same =>
    rw [same.1]
    exact .inl (.refl d)
  case vc3.h_3.pre same => exact ⟨trivial, same.2⟩
  case vc4.h_3.post.success => exact id
  case vc5.h_3.post.except.handle options asked s same _ _ =>
    rw [same.1]
    rintro (unchanged | interrupted)
    · exact .inl unchanged
    · exact .inr ⟨options, asked, interrupted⟩

def ending (time : UInt64) (arguments : List Text) (d : Disk) : Nat × Disk :=
  match run time arguments (Session.start d) with
  | .ok status s => (status, s.disk)
  | .error _ s => (failureStatus, s.disk)

/-- A run that ends with status 1 has changed no file, unless the write of the migrated document
broke, or the document was written and its ledger could not be. -/
theorem ending_failed {time : UInt64} {arguments : List Text} {d : Disk}
    (h : (ending time arguments d).1 = 1) : Spares time arguments d (ending time arguments d).2 := by
  have left := run_of_triple (run_spec time arguments d) (s := Session.start d) ⟨rfl, rfl⟩
  unfold ending at h ⊢
  cases ran : run time arguments (Session.start d) with
  | ok status s =>
    rw [ran] at left h
    exact absurd h left
  | error e s =>
    rw [ran] at left
    exact left

end Runs

theorem ending_failed_unwritten :
    ∃ (arguments : List Text) (d : Disk),
      arguments = ["doc.json", "--ledger", "missing/l.jsonl"].map String.toList ∧
      d = ⟨.file "doc.json".toList (Text.encode "[]".toList) .empty, []⟩ ∧
      (ending 0 arguments d).1 = 1 ∧ Spares 0 arguments d (ending 0 arguments d).2 :=
  ⟨_, _, rfl, rfl, by decide +kernel, ending_failed (by decide +kernel)⟩

theorem ending_failed_stamped :
    ∃ (arguments : List Text) (d : Disk),
      arguments = ["doc.json", "--ledger", "missing/l.jsonl"].map String.toList ∧
      d = ⟨.file "doc.json".toList
        (Text.encode "\x7b\"expression\": \"x)\"\x7d".toList) .empty, []⟩ ∧
      (ending 0 arguments d).1 = 1 ∧
      (ending 0 arguments d).2.file? ["doc.json".toList] = some (Text.encode
        "\x7b\n  \"expression\": \"x)\",\n  \"version\": 5\n\x7d".toList) ∧
      (ending 0 arguments d).2.file? ["doc.json".toList] ≠ d.file? ["doc.json".toList] :=
  ⟨_, _, rfl, rfl, by decide +kernel, by decide +kernel, by decide +kernel⟩

end MigrateCommand

end FormulaMigration
