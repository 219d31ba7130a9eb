import FormulaMigration.CommandLine.Conformance
import FormulaMigration.Proofs.FailedRun
import FormulaMigration.Proofs.GateEnforcement
import FormulaMigration.Proofs.PacketRuns

namespace FormulaMigration

namespace PacketConfig

variable {c : PacketConfig} {d : Disk} {packet : Option Text} {id : Text} {r : PacketReport}

def Selects (packet : Option Text) (id : Text) : Prop :=
  packet = none ∨ packet = some id

theorem isWanted_iff {f : Fixture} : isWanted packet f ↔ Selects packet f.packetId := by
  cases packet with
  | none => simp [isWanted, Selects]
  | some id => simp [isWanted, Selects, eq_comm]

theorem reportOf_filter {fixtures : List Fixture} (selected : Selects packet id) :
    reportOf (fixtures.filter (isWanted packet)) id = reportOf fixtures id := by
  have own : (fixtures.filter (isWanted packet)).filter (·.packetId = id) =
      fixtures.filter (·.packetId = id) := by
    rw [List.filter_filter]
    apply List.filter_congr
    rintro f -
    by_cases same : f.packetId = id
    · subst same
      simp [isWanted_iff.mpr selected]
    · simp [same]
  rw [reportOf, own, reportOf]

def HasCase [DiskFaults] (c : PacketConfig) (d : Disk) (id : Text) : Prop :=
  ∃ fixtures, c.loadFixtures none d = .ok fixtures ∧ ∃ f ∈ fixtures, f.packetId = id

variable [DiskFaults]

theorem mem_runGrouped {reports : List PacketReport} (h : c.runGrouped packet d = .ok reports) :
    r ∈ reports ↔ ∃ id, Selects packet id ∧ c.HasCase d id ∧ c.runPacket id d = .ok r := by
  obtain ⟨wanted, loaded, h⟩ := exists_of_bind_eq_ok h
  obtain rfl := Except.ok.inj h
  rw [loadFixtures_eq_filter] at loaded
  cases all : c.loadFixtures none d with
  | error e =>
    rw [all] at loaded
    cases loaded
  | ok fixtures =>
    rw [all] at loaded
    obtain rfl := Except.ok.inj loaded
    have ran (id : Text) : c.runPacket id d = .ok (reportOf fixtures id) := by
      rw [runPacket, loadFixtures_eq_filter, all]
      rfl
    have has (id : Text) : c.HasCase d id ↔ ∃ f ∈ fixtures, f.packetId = id := by
      simp [HasCase, all]
    change r ∈ reportsOf (fixtures.filter (isWanted packet)) ↔ _
    simp only [reportsOf, List.mem_map, mem_packetIds, List.mem_filter, has, ran]
    constructor
    · rintro ⟨id, ⟨f, ⟨hf, wanted⟩, rfl⟩, rfl⟩
      have selected := isWanted_iff.mp wanted
      exact ⟨f.packetId, selected, ⟨f, hf, rfl⟩, by rw [reportOf_filter selected]⟩
    · rintro ⟨id, selected, ⟨f, hf, rfl⟩, same⟩
      refine ⟨f.packetId, ⟨f, ⟨hf, isWanted_iff.mpr selected⟩, rfl⟩, ?_⟩
      rw [reportOf_filter selected]
      exact Except.ok.inj same

theorem HasCase.exists_report (h : c.HasCase d id) : ∃ r, c.runPacket id d = .ok r := by
  obtain ⟨fixtures, all, -⟩ := h
  rw [runPacket, loadFixtures_eq_filter, all]
  exact ⟨_, rfl⟩

theorem runPacket_packetId (h : c.runPacket id d = .ok r) : r.packetId = some id := by
  obtain ⟨fixtures, -, h⟩ := exists_of_bind_eq_ok h
  obtain rfl := Except.ok.inj h
  rfl

variable [YamlReader Gate]

def MeetsGate (c : PacketConfig) (d : Disk) (id : Text) (r : PacketReport) : Prop :=
  ∃ gate, c.loadGate id d = .ok (some gate) ∧ gate.packetId = id ∧
    gate.leastFixtureCount ≤ r.fixtureCount ∧ r.failed = gate.failed

theorem loadGate_some {gate : Gate} (h : c.loadGate id d = .ok (some gate)) : c.HasGate d id := by
  unfold loadGate at h
  split_ifs at h with stands
  · exact stands
  · cases h

theorem PassesGate.meets (h : c.PassesGate d id r) (stands : c.HasGate d id) :
    c.MeetsGate d id r := by
  cases h with
  | met _ read formed own enough failed =>
    exact ⟨_, loadGate_of_read stands read formed, own, enough, failed.symm⟩
  | spared absent => exact absurd stands absent

theorem passes_of_reportFailures (h : c.reportFailures d r = .ok []) :
    r.isGreen ∧ ∃ id, r.packetId = some id ∧ (c.HasGate d id → c.MeetsGate d id r) ∧
      (¬ c.HasGate d id → c.strict = false) := by
  obtain ⟨id, named, failed, ran, passes⟩ := reportFailures_eq_nil_iff.mp h
  refine ⟨PacketReport.isGreen_iff.mpr ⟨failed, ran⟩, id, named, passes.meets, fun without => ?_⟩
  cases passes with
  | met stands => exact absurd stands without
  | spared _ lenient => exact lenient

end PacketConfig

namespace ConformanceCommand

open Std.Do

set_option mvcgen.warning false

@[spec]
theorem printLines_spec {ε : Type} (lines : List Text) (d : Disk) (l : Ledger) :
    ⦃fun s => ⌜s.disk = d ∧ s.ledger = l⌝⦄
      (printLines lines : SessionAction ε Unit)
    ⦃post⟨fun _ s => ⌜s.disk = d ∧ s.ledger = l⌝, fun _ _ => ⌜False⌝⟩⦄ :=
  Session.printLines_spec id lines d l

open PacketConfig

section Runs

variable [DiskFaults] [YamlReader Gate]

@[spec]
theorem writeReports_spec (c : PacketConfig) (reports : List PacketReport) :
    ⦃fun _ => ⌜True⌝⦄
      c.writeReports reports
    ⦃post⟨fun _ _ => ⌜True⌝, fun _ _ => ⌜True⌝⟩⦄ := by
  intro d _
  simp only [WP.wp, PredTrans.apply, EStateM.run]
  cases c.writeReports reports d <;> trivial

structure Accepted (c : PacketConfig) (packet : Option Text) (d d' : Disk)
    (reports : List PacketReport) : Prop where
  grouped : c.runGrouped packet d = .ok reports
  packets : ∀ id, Selects packet id → c.HasCase d id → ∃ r ∈ reports, r.packetId = some id ∧
    c.runPacket id d = .ok r ∧ r.isGreen ∧ (c.HasGate d' id → c.MeetsGate d' id r) ∧
    (¬ c.HasGate d' id → c.strict = false)
  ran : (∃ r ∈ reports, 0 < r.fixtureCount) ↔ ∃ id, Selects packet id ∧ c.HasCase d id
  gates : ∀ id, Selects packet id → c.HasGate d' id →
    ((∃ r ∈ reports, r.packetId = some id ∧ c.MeetsGate d' id r) ↔ c.HasCase d id)

variable [DefaultRoots]

def Ran (options : Options) (d d' : Disk) : Prop :=
  ∃ reports, (config options).runGrouped options.packetId d = .ok reports ∧
    (options.requireGreen → (config options).enforceGates d' reports = .ok ())

theorem runPackets_spec (options : Options) (d : Disk) :
    ⦃fun s => ⌜s.disk = d⌝⦄
      runPackets options
    ⦃post⟨fun _ s => ⌜Ran options d s.disk⌝, fun _ _ => ⌜True⌝⟩⦄ := by
  mvcgen [runPackets]
  case vc1.h_2.post.success.isTrue.success.post.success.isTrue.h_2 s same reports grouped _ _ _ _ _ _
      _ _ _ _ _ enforced =>
    subst same
    exact ⟨reports, grouped, fun _ => enforced⟩
  case vc2.h_2.post.success.isTrue.success.post.success.isFalse s same reports grouped _ _ _ _ _ _ _
      _ lenient _ _ =>
    subst same
    exact ⟨reports, grouped, fun asked => absurd asked lenient⟩
  case vc3.h_2.post.success.isFalse.isTrue.h_2 s same reports grouped _ _ _ _ _ _ enforced =>
    subst same
    exact ⟨reports, grouped, fun _ => enforced⟩
  case vc4.h_2.post.success.isFalse.isFalse s same reports grouped _ _ _ lenient _ _ =>
    subst same
    exact ⟨reports, grouped, fun asked => absurd asked lenient⟩

theorem run_spec (arguments : List Text) (d : Disk) :
    ⦃fun s => ⌜s.disk = d⌝⦄
      run arguments
    ⦃post⟨fun _ s => ⌜∀ options, parse arguments = .ok (.run options) → Ran options d s.disk⌝,
      fun _ _ => ⌜True⌝⟩⦄ := by
  mvcgen [run, runPackets_spec]
  case vc1.h_2.post.success help _ _ _ _ =>
    rintro - - options asked
    cases help.symm.trans asked
  case vc2.h_3.post.success options asked s same _ _ =>
    subst same
    rintro ran options' asked'
    cases asked.symm.trans asked'
    exact ran

def ending (arguments : List Text) (d : Disk) : Nat × Disk :=
  match run arguments (Session.start d) with
  | .ok _ s => (0, s.disk)
  | .error _ s => (failureStatus, s.disk)

/-- Packets that were run on one disk and accepted on the next, which may hold their reports by then:
one step after the other, or by the command. -/
inductive Passed : PacketConfig → Option Text → Disk → Disk → Prop
  | steps {c packet d d' reports} (grouped : c.runGrouped packet d = .ok reports)
    (enforced : c.enforceGates d' reports = .ok ()) : Passed c packet d d'
  | command {arguments options d} (asked : parse arguments = .ok (.run options))
    (green : options.requireGreen) (succeeds : (ending arguments d).1 = 0) :
    Passed (config options) options.packetId d (ending arguments d).2

variable {c : PacketConfig} {packet : Option Text} {d d' : Disk}

theorem Passed.exists_reports (h : Passed c packet d d') :
    ∃ reports, c.runGrouped packet d = .ok reports ∧ c.enforceGates d' reports = .ok () := by
  cases h with
  | steps grouped enforced => exact ⟨_, grouped, enforced⟩
  | @command arguments options _ asked green succeeds =>
    have left := run_of_triple (run_spec arguments d) (s := Session.start d) rfl
    unfold ending at succeeds ⊢
    cases ran : run arguments (Session.start d) with
    | error e s =>
      rw [ran] at succeeds
      cases succeeds
    | ok _ s =>
      rw [ran] at left
      obtain ⟨reports, grouped, enforced⟩ := left options asked
      exact ⟨reports, grouped, enforced green⟩

/-- When packets pass, their cases passed and their gates are met, as far as they have cases. -/
theorem Passed.accepted (h : Passed c packet d d') : ∃ reports, Accepted c packet d d' reports := by
  obtain ⟨reports, grouped, enforced⟩ := h.exists_reports
  have packets : ∀ id, Selects packet id → c.HasCase d id → ∃ r ∈ reports, r.packetId = some id ∧
      c.runPacket id d = .ok r ∧ r.isGreen ∧ (c.HasGate d' id → c.MeetsGate d' id r) ∧
      (¬ c.HasGate d' id → c.strict = false) := by
    intro id selected case
    obtain ⟨r, ran⟩ := case.exists_report
    have hr := (mem_runGrouped grouped).mpr ⟨id, selected, case, ran⟩
    have named := runPacket_packetId ran
    obtain ⟨green, id', named', gated, ungated⟩ :=
      passes_of_reportFailures (reportFailures_of_enforceGates enforced hr)
    obtain rfl := Option.some.inj (named.symm.trans named')
    exact ⟨r, hr, named, ran, green, gated, ungated⟩
  refine ⟨reports, grouped, packets, ⟨?_, ?_⟩, fun id selected gated => ⟨?_, ?_⟩⟩
  · rintro ⟨r, hr, -⟩
    obtain ⟨id, selected, case, -⟩ := (mem_runGrouped grouped).mp hr
    exact ⟨id, selected, case⟩
  · rintro ⟨id, selected, case⟩
    obtain ⟨r, hr, -, -, green, -⟩ := packets id selected case
    exact ⟨r, hr, of_decide_eq_true (Bool.and_eq_true_iff.mp green).2⟩
  · rintro ⟨r, hr, named, -⟩
    obtain ⟨id', -, case, ran⟩ := (mem_runGrouped grouped).mp hr
    obtain rfl := Option.some.inj (named.symm.trans (runPacket_packetId ran))
    exact case
  · intro case
    obtain ⟨r, hr, named, -, -, meets, -⟩ := packets id selected case
    exact ⟨r, hr, named, meets gated⟩

end Runs

def checkLine : List Text :=
  ["--fixture-root", "fixtures", "--require-green"].map String.toList

def checkOptions : Options :=
  { Options.none with fixtureRoot := some "fixtures".toList, requireGreen := true }

def diskOfPacket (packet : Folder) : Disk :=
  ⟨.folder "fixtures".toList (.folder "packets".toList (.folder ['P'] packet .empty) .empty) .empty,
    []⟩

def gateFile (rest : Folder) : Folder :=
  .file "parity_gate.yaml".toList
    (Text.encode "packet_id: P\nrequire_fixture_count_at_least: 1\n".toList) rest

def caseFile : Folder :=
  .file "case.json".toList (Text.encode ("\x7b\"packet_id\": \"P\", \"case_id\": \"c\", ".toList ++
    "\"operation\": \"transpile_expression\", \"input\": \"2\", \"expected\": \"2\"\x7d".toList))
    .empty

theorem parse_checkLine : parse checkLine = .ok (.run checkOptions) := by
  decide +kernel

theorem accepted_single :
    ∃ d, d = diskOfPacket (gateFile caseFile) ∧ (ending checkLine d).1 = 0 ∧
      (config checkOptions).runGrouped none d = .ok [⟨"packets:P".toList, some ['P'], 1, 1, 0,
        [⟨['P'], ['c'], .convertFormula, true, none, 0⟩]⟩] ∧
      ∃ reports, Accepted (config checkOptions) none d (ending checkLine d).2 reports := by
  have succeeds : (ending checkLine (diskOfPacket (gateFile caseFile))).1 = 0 := by decide +kernel
  exact ⟨_, rfl, succeeds, by decide +kernel, (Passed.command parse_checkLine rfl succeeds).accepted⟩

theorem passed_without_case :
    ∃ d d', d = diskOfPacket (gateFile .empty) ∧ d' = (ending checkLine d).2 ∧
      Passed (config checkOptions) none d d' ∧
      (config checkOptions).runGrouped none d = .ok [] ∧
      (config checkOptions).HasGate d' ['P'] ∧
      ∀ r, (config checkOptions).runPacket ['P'] d = .ok r →
        ¬ (config checkOptions).MeetsGate d' ['P'] r := by
  have succeeds : (ending checkLine (diskOfPacket (gateFile .empty))).1 = 0 := by decide +kernel
  have ran : (config checkOptions).runPacket ['P'] (diskOfPacket (gateFile .empty)) =
      .ok ⟨"packets:P".toList, some ['P'], 0, 0, 0, []⟩ := by decide +kernel
  have asks : (config checkOptions).loadGate ['P']
      (ending checkLine (diskOfPacket (gateFile .empty))).2 = .ok (some ⟨['P'], 1, 0⟩) := by
    decide +kernel
  refine ⟨_, _, rfl, rfl, .command parse_checkLine rfl succeeds, by decide +kernel,
    loadGate_some asks, ?_⟩
  rintro r own ⟨gate, loaded, -, enough, -⟩
  obtain rfl := Except.ok.inj (ran.symm.trans own)
  obtain rfl := Option.some.inj (Except.ok.inj (asks.symm.trans loaded))
  exact absurd enough (by decide)

end ConformanceCommand

end FormulaMigration
