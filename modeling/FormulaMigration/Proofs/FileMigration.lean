import FormulaMigration.Migration.File
import FormulaMigration.Proofs.Disk
import FormulaMigration.Proofs.Utf8

namespace FormulaMigration

def DiskFaults.NeverBreaks [DiskFaults] : Prop :=
  ∀ d p content fault kept, DiskFaults.write? d p content ≠ some (.broken fault kept)

section

variable [DiskFaults]

namespace Disk

open Std.Do in
set_option mvcgen.warning false in
theorem makeParent_spec (p : Path) (before : Disk) :
    ⦃fun d => ⌜SameFiles before d⌝⦄
      makeParent p
    ⦃post⟨fun _ d => ⌜SameFiles before d⌝, fun _ d => ⌜SameFiles before d⌝⟩⦄ := by
  mvcgen [makeParent]

end Disk

namespace Plan

variable {plan : Plan} {time : UInt64} {input output : Path} {s s' : Session}

structure Wrote (plan : Plan) (time : UInt64) (input output : Path) (s s' : Session)
    (body text : Text) (m : Migration) (place : List Name) : Prop where
  read : s.disk.readText input = .ok body
  migrated : plan.migrateText body = .ok (text, m)
  reached : s'.disk.resolve output = .ok place
  files : ∀ other, s'.disk.file? other =
    if other = place then some (Text.encode text) else s.disk.file? other
  written : s'.disk.read output = .ok (Text.encode text)
  ledger : s'.ledger = s.ledger.extend time m.issues

inductive Refuses (plan : Plan) (time : UInt64) (input output : Path) (s : Session) :
    MigrationError → Session → Prop
  | unread {fault : FileError} (read : s.disk.readText input = .error fault) :
      Refuses plan time input output s (.file fault) s
  | malformed {body : Text} {fault : JsonFault} (read : s.disk.readText input = .ok body)
      (malformed : Json.ofText body = .error fault) :
      Refuses plan time input output s (.json fault) s
  | homeless {body text : Text} {m : Migration} {fault : FileError} {d : Disk}
      (read : s.disk.readText input = .ok body)
      (migrated : plan.migrateText body = .ok (text, m))
      (refused : Disk.makeParent output s.disk = .error fault d) :
      Refuses plan time input output s (.file fault) ⟨d, s.ledger.extend time m.issues, s.printed⟩
  | unwritten {body text : Text} {m : Migration} {fault : FileError} {d d' : Disk}
      (read : s.disk.readText input = .ok body)
      (migrated : plan.migrateText body = .ok (text, m))
      (made : Disk.makeParent output s.disk = .ok () d)
      (refused : Disk.Unwritten output (Text.encode text) d fault d') :
      Refuses plan time input output s (.file fault) ⟨d', s.ledger.extend time m.issues, s.printed⟩

theorem migrateInput_ok {d : Disk} {text : Text} {m : Migration}
    (h : plan.migrateInput input d = .ok (text, m)) :
    ∃ body, d.readText input = .ok body ∧ plan.migrateText body = .ok (text, m) := by
  rw [migrateInput] at h
  cases read : d.readText input with
  | error fault => simp [read] at h
  | ok body =>
    refine ⟨body, rfl, ?_⟩
    cases migrated : plan.migrateText body with
    | error fault => simp [read, migrated] at h
    | ok result => simpa [read, migrated] using h

theorem refuses_of_migrateInput {e : MigrationError}
    (h : plan.migrateInput input s.disk = .error e) : plan.Refuses time input output s e s := by
  rw [migrateInput] at h
  cases read : s.disk.readText input with
  | error fault =>
    simp only [read, Except.error.injEq] at h
    subst h
    exact .unread read
  | ok body =>
    cases migrated : plan.migrateText body with
    | ok result => simp [read, migrated] at h
    | error fault =>
      simp only [read, migrated, Except.error.injEq] at h
      subst h
      rcases error_or_of_bind migrated with malformed | ⟨document, -, done⟩
      · exact .malformed read malformed
      · cases done

theorem migrateInput_of_migrateText {d : Disk} {body text : Text} {m : Migration}
    (read : d.readText input = .ok body) (migrated : plan.migrateText body = .ok (text, m)) :
    plan.migrateInput input d = .ok (text, m) := by
  simp only [migrateInput, read, migrated]

theorem migrateFile_eq (plan : Plan) (time : UInt64) (input output : Path) (s : Session) :
    plan.migrateFile time input output s =
      match plan.migrateInput input s.disk with
      | .error e => .error e s
      | .ok (text, m) =>
        let ledger := s.ledger.extend time m.issues
        match Disk.makeParent output s.disk with
        | .error fault d => .error (.file fault) ⟨d, ledger, s.printed⟩
        | .ok _ d =>
          match Disk.writeFile output (Text.encode text) d with
          | .error fault d => .error (.file fault) ⟨d, ledger, s.printed⟩
          | .ok _ d => .ok ⟨input, output, m.summary⟩ ⟨d, ledger, s.printed⟩ := by
  change (plan.migrateFile time input output).run s = _
  simp only [migrateFile, EStateM.run_bind, EStateM.run_get]
  cases plan.migrateInput input s.disk with
  | error e => rfl
  | ok result =>
    simp only [EStateM.run_bind, EStateM.run_modify]
    rw [EStateM.run, Session.onDisk]
    cases Disk.makeParent output s.disk with
    | error fault d => rfl
    | ok _ d =>
      dsimp only
      rw [EStateM.run, Session.onDisk]
      cases Disk.writeFile output (Text.encode result.1) d <;> rfl

theorem migrateFile_ok {report : MigrationReport}
    (h : plan.migrateFile time input output s = .ok report s') :
    ∃ body text m place, plan.Wrote time input output s s' body text m place ∧
      report = ⟨input, output, m.summary⟩ := by
  rw [migrateFile_eq] at h
  cases reading : plan.migrateInput input s.disk with
  | error e => simp [reading] at h
  | ok result =>
    obtain ⟨text, m⟩ := result
    obtain ⟨body, read, migrated⟩ := migrateInput_ok reading
    cases made : Disk.makeParent output s.disk with
    | error fault d => simp [reading, made] at h
    | ok _ d =>
      have folders := run_of_triple (Disk.makeParent_spec output s.disk) (.refl s.disk)
      rw [made] at folders
      cases held : Disk.writeFile output (Text.encode text) d with
      | error fault d' => simp [reading, made, held] at h
      | ok _ d' =>
        simp only [reading, made, held, EStateM.Result.ok.injEq] at h
        obtain ⟨rfl, rfl⟩ := h
        obtain ⟨place, reached, files⟩ :=
          (Disk.holds_of_write (Disk.writeFile_ok held)).of_sameFiles folders
        have stands : d'.file? place = some (Text.encode text) := by rw [files, if_pos rfl]
        exact ⟨body, text, m, place, ⟨read, migrated, reached, files,
          (Disk.read_eq_ok_iff reached).mpr stands, rfl⟩, rfl⟩

theorem migrateFile_error {e : MigrationError}
    (h : plan.migrateFile time input output s = .error e s') :
    plan.Refuses time input output s e s' := by
  rw [migrateFile_eq] at h
  cases reading : plan.migrateInput input s.disk with
  | error e' =>
    simp only [reading, EStateM.Result.error.injEq] at h
    obtain ⟨rfl, rfl⟩ := h
    exact refuses_of_migrateInput reading
  | ok result =>
    obtain ⟨text, m⟩ := result
    obtain ⟨body, read, migrated⟩ := migrateInput_ok reading
    cases made : Disk.makeParent output s.disk with
    | error fault d =>
      simp only [reading, made, EStateM.Result.error.injEq] at h
      obtain ⟨rfl, rfl⟩ := h
      exact .homeless read migrated made
    | ok _ d =>
      cases held : Disk.writeFile output (Text.encode text) d with
      | ok _ d' => simp [reading, made, held] at h
      | error fault d' =>
        simp only [reading, made, held, EStateM.Result.error.injEq] at h
        obtain ⟨rfl, rfl⟩ := h
        exact .unwritten read migrated made (Disk.writeFile_error held)

def BreaksOff (plan : Plan) (input output : Path) (d d' : Disk) : Prop :=
  ∃ text m made fault kept, plan.migrateInput input d = .ok (text, m) ∧
    Disk.makeParent output d = .ok () made ∧
    DiskFaults.write? made output (Text.encode text) = some (.broken fault kept) ∧
    Disk.Holds output ((Text.encode text).take kept) d d'

theorem Refuses.left {e : MigrationError} (h : plan.Refuses time input output s e s') :
    Disk.SameFiles s.disk s'.disk ∨ plan.BreaksOff input output s.disk s'.disk := by
  have folders := run_of_triple (Disk.makeParent_spec output s.disk) (.refl s.disk)
  cases h with
  | unread => exact .inl (.refl _)
  | malformed => exact .inl (.refl _)
  | homeless read migrated refused =>
    rw [refused] at folders
    exact .inl folders
  | unwritten read migrated made refused =>
    rw [made] at folders
    cases refused with
    | nowhere => exact .inl folders
    | unopened => exact .inl folders
    | broken refused begun =>
      exact .inr ⟨_, _, _, _, _, migrateInput_of_migrateText read migrated, made, refused,
        (Disk.holds_of_write begun).of_sameFiles folders⟩

theorem Refuses.sameFiles {e : MigrationError} (whole : DiskFaults.NeverBreaks)
    (h : plan.Refuses time input output s e s') : Disk.SameFiles s.disk s'.disk := by
  rcases h.left with same | ⟨_, _, _, _, _, _, _, broken, _⟩
  · exact same
  · exact absurd broken (whole _ _ _ _ _)

/-- If writes fail at opening only, migrating a file writes the migrated document to the output and
changes no other file, or fails and changes no file; if it is the input that cannot be read, nothing
is changed at all. -/
theorem migrateFile_outcome (whole : DiskFaults.NeverBreaks) (plan : Plan) (time : UInt64)
    (input output : Path) (s : Session) :
    (∀ e, plan.migrateInput input s.disk = .error e →
      plan.migrateFile time input output s = .error e s) ∧
    match plan.migrateFile time input output s with
    | .ok report s' => ∃ body text m place,
        plan.Wrote time input output s s' body text m place ∧ report = ⟨input, output, m.summary⟩
    | .error e s' => Disk.SameFiles s.disk s'.disk ∧ plan.Refuses time input output s e s' := by
  constructor
  · intro e unread
    rw [migrateFile_eq, unread]
  · cases run : plan.migrateFile time input output s with
    | ok report s' => exact migrateFile_ok run
    | error e s' => exact ⟨(migrateFile_error run).sameFiles whole, migrateFile_error run⟩

end Plan

end

theorem neverBreaks : DiskFaults.NeverBreaks := by
  intro d p content fault kept broken
  obtain ⟨e, -, unopened⟩ := Option.map_eq_some_iff.mp broken
  cases unopened

namespace Plan

def formulaSession : Session :=
  Session.start ⟨.file "doc.json".toList
    (Text.encode "\x7b\"expression\": \"2^3\"\x7d".toList) .empty, []⟩

def copies (s : Session) (output : Path) : Bool :=
  match legacy.migrateFile 0 "doc.json".toList output s with
  | .ok _ _ => true
  | .error _ _ => false

theorem migrateFile_outcome_copied :
    DiskFaults.NeverBreaks ∧
      (∃ s output report s' body text m place, s = formulaSession ∧
        output = "out/doc.json".toList ∧
        legacy.migrateFile 0 "doc.json".toList output s = .ok report s' ∧
        legacy.Wrote 0 "doc.json".toList output s s' body text m place) ∧
      ∃ s output e s', s = formulaSession ∧ output = "doc.json/x".toList ∧
        legacy.migrateFile 0 "doc.json".toList output s = .error e s' ∧
        Disk.SameFiles s.disk s'.disk := by
  refine ⟨neverBreaks, ?_, ?_⟩
  · obtain ⟨s, output, start, path, done⟩ : ∃ s output, s = formulaSession ∧
        output = "out/doc.json".toList ∧ copies s output = true :=
      ⟨_, _, rfl, rfl, by decide +kernel⟩
    obtain ⟨-, outcome⟩ := migrateFile_outcome neverBreaks legacy 0 "doc.json".toList output s
    cases run : legacy.migrateFile 0 "doc.json".toList output s with
    | error e s' =>
      rw [copies, run] at done
      cases done
    | ok report s' =>
      rw [run] at outcome
      obtain ⟨body, text, m, place, wrote, -⟩ := outcome
      exact ⟨s, output, report, s', body, text, m, place, start, path, run, wrote⟩
  · obtain ⟨s, output, start, path, failed⟩ : ∃ s output, s = formulaSession ∧
        output = "doc.json/x".toList ∧ copies s output = false :=
      ⟨_, _, rfl, rfl, by decide +kernel⟩
    obtain ⟨-, outcome⟩ := migrateFile_outcome neverBreaks legacy 0 "doc.json".toList output s
    cases run : legacy.migrateFile 0 "doc.json".toList output s with
    | ok report s' =>
      rw [copies, run] at failed
      cases failed
    | error e s' =>
      rw [run] at outcome
      exact ⟨s, output, e, s', start, path, run, outcome.1⟩

end Plan

end FormulaMigration
