import FormulaMigration.Packet.Gate
import FormulaMigration.Proofs.Bind

namespace FormulaMigration

theorem PacketReport.isGreen_iff {r : PacketReport} :
    r.isGreen ↔ r.failed = 0 ∧ 0 < r.fixtureCount := by
  simp [isGreen]

namespace PacketConfig

theorem missingGateReasons_eq_nil_iff {c : PacketConfig} {id : Text} :
    c.missingGateReasons id = [] ↔ c.strict = false := by
  unfold missingGateReasons
  cases c.strict with
  | false => exact ⟨fun _ => rfl, fun _ => rfl⟩
  | true => exact ⟨fun h => absurd h (List.cons_ne_nil _ _), fun h => nomatch h⟩

def redEntry (id : Text) (r : PacketReport) : Text :=
  id ++ ": parity report failed fixtures=".toList ++ Text.ofNat r.failed

def gateEntry (id : Text) (reasons : List Text) : Text :=
  id ++ ": gate failed reasons=".toList ++ Text.join [';', ' '] reasons

def HasGate [DiskFaults] (c : PacketConfig) (d : Disk) (id : Text) : Prop :=
  d.exists? (c.gatePath id)

section Enforcement

variable [DiskFaults] [YamlReader Gate]

variable {c : PacketConfig} {d : Disk} {id : Text} {r : PacketReport} {reports : List PacketReport}
  {reasons entries : List Text} {e : PacketError}

inductive Faulty (c : PacketConfig) (d : Disk) (r : PacketReport) : PacketError → Prop
  | unnamed (unnamed : r.packetId = none) : Faulty c d r .reportWithoutPacket
  | unreadable {id : Text} {fault : FileError} (named : r.packetId = some id)
    (stands : c.HasGate d id) (refused : d.readText (c.gatePath id) = .error fault) :
    Faulty c d r (.file fault)
  | malformed {id t : Text} (named : r.packetId = some id) (stands : c.HasGate d id)
    (read : d.readText (c.gatePath id) = .ok t)
    (malformed : (YamlReader.read? t : Option Gate) = none) :
    Faulty c d r .malformedGate

inductive PassesGate (c : PacketConfig) (d : Disk) (id : Text) (r : PacketReport) : Prop
  | met {t : Text} {gate : Gate} (stands : c.HasGate d id)
    (read : d.readText (c.gatePath id) = .ok t) (formed : YamlReader.read? t = some gate)
    (own : gate.packetId = id) (enough : gate.leastFixtureCount ≤ r.fixtureCount)
    (failed : gate.failed = r.failed)
  | spared (absent : ¬ c.HasGate d id) (lenient : c.strict = false)

def Passes (c : PacketConfig) (d : Disk) (r : PacketReport) : Prop :=
  ∃ id, r.packetId = some id ∧ r.failed = 0 ∧ 0 < r.fixtureCount ∧ c.PassesGate d id r

inductive Finds (c : PacketConfig) (d : Disk) (id : Text) (r : PacketReport) : List Text → Prop
  | read {t : Text} {gate : Gate} (stands : c.HasGate d id)
    (read : d.readText (c.gatePath id) = .ok t) (formed : YamlReader.read? t = some gate) :
    Finds c d id r (gate.reasons id r)
  | absent (absent : ¬ c.HasGate d id) : Finds c d id r (c.missingGateReasons id)

theorem loadGate_of_absent (absent : ¬ c.HasGate d id) : c.loadGate id d = .ok none :=
  if_neg absent

theorem loadGate_of_unreadable {fault : FileError} (stands : c.HasGate d id)
    (refused : d.readText (c.gatePath id) = .error fault) :
    c.loadGate id d = .error (.file fault) := by
  rw [HasGate] at stands
  rw [loadGate, if_pos stands, refused]

theorem loadGate_of_malformed {t : Text} (stands : c.HasGate d id)
    (read : d.readText (c.gatePath id) = .ok t)
    (malformed : (YamlReader.read? t : Option Gate) = none) :
    c.loadGate id d = .error .malformedGate := by
  rw [HasGate] at stands
  simp only [loadGate, if_pos stands, read, malformed]

theorem loadGate_of_read {t : Text} {gate : Gate} (stands : c.HasGate d id)
    (read : d.readText (c.gatePath id) = .ok t) (formed : YamlReader.read? t = some gate) :
    c.loadGate id d = .ok (some gate) := by
  rw [HasGate] at stands
  simp only [loadGate, if_pos stands, read, formed]

theorem evaluateGate_of_named (named : r.packetId = some id) :
    c.evaluateGate d r = (c.loadGate id d).map fun found =>
      ⟨id, r.fixtureCount, r.failed, found.elim (c.missingGateReasons id) (·.reasons id r)⟩ := by
  unfold evaluateGate
  rw [named]
  dsimp only
  rcases c.loadGate id d with e | _ | gate <;> rfl

theorem Faulty.evaluateGate (h : c.Faulty d r e) : c.evaluateGate d r = .error e := by
  cases h with
  | unnamed unnamed => rw [PacketConfig.evaluateGate, unnamed]
  | unreadable named stands refused =>
    rw [evaluateGate_of_named named, loadGate_of_unreadable stands refused, Except.map]
  | malformed named stands read malformed =>
    rw [evaluateGate_of_named named, loadGate_of_malformed stands read malformed, Except.map]

theorem Finds.evaluateGate (named : r.packetId = some id) (h : c.Finds d id r reasons) :
    c.evaluateGate d r = .ok ⟨id, r.fixtureCount, r.failed, reasons⟩ := by
  rw [evaluateGate_of_named named]
  cases h with
  | read stands read formed => rw [loadGate_of_read stands read formed, Except.map, Option.elim]
  | absent absent => rw [loadGate_of_absent absent, Except.map, Option.elim]

theorem faulty_or_finds (c : PacketConfig) (d : Disk) (r : PacketReport) :
    (∃ e, c.Faulty d r e) ∨ ∃ id reasons, r.packetId = some id ∧ c.Finds d id r reasons := by
  cases named : r.packetId with
  | none => exact .inl ⟨_, .unnamed named⟩
  | some id =>
    by_cases stands : c.HasGate d id
    · cases read : d.readText (c.gatePath id) with
      | error fault => exact .inl ⟨_, .unreadable named stands read⟩
      | ok t =>
        cases formed : (YamlReader.read? t : Option Gate) with
        | none => exact .inl ⟨_, .malformed named stands read formed⟩
        | some gate => exact .inr ⟨id, _, rfl, .read stands read formed⟩
    · exact .inr ⟨id, _, rfl, .absent stands⟩

theorem PassesGate.finds (h : c.PassesGate d id r) : ∃ reasons, c.Finds d id r reasons := by
  cases h with
  | met stands read formed => exact ⟨_, .read stands read formed⟩
  | spared absent => exact ⟨_, .absent absent⟩

theorem Finds.eq_nil_iff (h : c.Finds d id r reasons) : reasons = [] ↔ c.PassesGate d id r := by
  cases h with
  | read stands read formed =>
    rw [Gate.reasons_eq_nil_iff]
    constructor
    · rintro ⟨own, enough, failed⟩
      exact .met stands read formed own enough failed.symm
    · intro passes
      -- The gate that is met is the one that finds: both are what the file says.
      cases passes with
      | met _ again formed' own enough failed =>
        cases read.symm.trans again
        cases formed.symm.trans formed'
        exact ⟨own, enough, failed.symm⟩
      | spared absent => exact absurd stands absent
  | absent absent =>
    rw [missingGateReasons_eq_nil_iff]
    constructor
    · exact .spared absent
    · intro passes
      cases passes with
      | met stands => exact absurd stands absent
      | spared _ lenient => exact lenient

def Charges (c : PacketConfig) (d : Disk) (r : PacketReport) (entries : List Text) : Prop :=
  ∃ id own gate, r.packetId = some id ∧ entries = own ++ gate ∧
    (own = [] ∧ r.isGreen ∨ own = [redEntry id r] ∧ ¬ r.isGreen) ∧
    (gate = [] ∧ c.PassesGate d id r ∨
      ∃ reasons, gate = [gateEntry id reasons] ∧ c.Finds d id r reasons ∧ ¬ c.PassesGate d id r)

theorem Faulty.reportFailures (h : c.Faulty d r e) : c.reportFailures d r = .error e := by
  rw [PacketConfig.reportFailures, h.evaluateGate]
  rfl

theorem Finds.reportFailures (named : r.packetId = some id) (h : c.Finds d id r reasons) :
    ∃ entries, c.reportFailures d r = .ok entries ∧ c.Charges d r entries := by
  rw [PacketConfig.reportFailures, h.evaluateGate named]
  refine ⟨_, rfl, id, _, _, named, rfl, ?_, ?_⟩
  · by_cases green : r.isGreen
    · exact .inl ⟨if_pos green, green⟩
    · exact .inr ⟨if_neg green, green⟩
  · by_cases passes : c.PassesGate d id r
    · exact .inl ⟨if_pos (List.isEmpty_iff.mpr (h.eq_nil_iff.mpr passes)), passes⟩
    · refine .inr ⟨reasons, if_neg fun pass => passes ?_, h, passes⟩
      exact h.eq_nil_iff.mp (List.isEmpty_iff.mp pass)

theorem exists_charges (sound : ∀ e, ¬ c.Faulty d r e) :
    ∃ entries, c.reportFailures d r = .ok entries ∧ c.Charges d r entries := by
  rcases faulty_or_finds c d r with ⟨e, faulty⟩ | ⟨id, reasons, named, finds⟩
  · exact absurd faulty (sound e)
  · exact finds.reportFailures named

theorem charges_of_reportFailures (h : c.reportFailures d r = .ok entries) :
    c.Charges d r entries := by
  have sound : ∀ e, ¬ c.Faulty d r e := by
    intro e faulty
    cases h.symm.trans faulty.reportFailures
  obtain ⟨entries', same, charged⟩ := exists_charges sound
  obtain rfl := Except.ok.inj (h.symm.trans same)
  exact charged

theorem Charges.eq_nil_iff (h : c.Charges d r entries) : entries = [] ↔ c.Passes d r := by
  obtain ⟨id, own, gate, named, rfl, green, passes⟩ := h
  rw [List.append_eq_nil_iff]
  constructor
  · rintro ⟨rfl, rfl⟩
    obtain ⟨-, green⟩ | ⟨listed, -⟩ := green
    · obtain ⟨-, passes⟩ | ⟨reasons, listed, -⟩ := passes
      · exact ⟨id, named, (PacketReport.isGreen_iff.mp green).1,
          (PacketReport.isGreen_iff.mp green).2, passes⟩
      · cases listed
    · cases listed
  · rintro ⟨id', named', failed, ran, met⟩
    obtain rfl := Option.some.inj (named.symm.trans named')
    obtain ⟨rfl, -⟩ | ⟨-, red⟩ := green
    · obtain ⟨rfl, -⟩ | ⟨-, -, -, fails⟩ := passes
      · exact ⟨rfl, rfl⟩
      · exact absurd met fails
    · exact absurd (PacketReport.isGreen_iff.mpr ⟨failed, ran⟩) red

theorem reportFailures_eq_nil_iff : c.reportFailures d r = .ok [] ↔ c.Passes d r := by
  constructor
  · intro h
    exact (charges_of_reportFailures h).eq_nil_iff.mp rfl
  · intro passes
    -- A report that passes is not at fault, so something is listed of it, and that is nothing.
    have ⟨id, named, _, _, met⟩ := passes
    obtain ⟨reasons, finds⟩ := met.finds
    obtain ⟨entries, listed, charged⟩ := finds.reportFailures named
    rw [listed, charged.eq_nil_iff.mpr passes]

theorem reportFailures_of_enforceGates (h : c.enforceGates d reports = .ok ()) (hr : r ∈ reports) :
    c.reportFailures d r = .ok [] := by
  obtain ⟨failures, found, h⟩ := exists_of_bind_eq_ok h
  split_ifs at h with nothing
  obtain ⟨pairs, rfl, rfl, known⟩ := exists_of_mapM_eq_ok found
  obtain ⟨pair, hpair, rfl⟩ := List.mem_map.mp hr
  have nil : pair.2 = [] :=
    List.flatten_eq_nil_iff.mp (List.isEmpty_iff.mp nothing) _ (List.mem_map_of_mem hpair)
  rw [known pair hpair, nil]

theorem enforceGates_of_reportFailures {failures : PacketReport → List Text}
    (known : ∀ r ∈ reports, c.reportFailures d r = .ok (failures r)) :
    c.enforceGates d reports =
      if reports.flatMap failures = [] then .ok ()
      else .error (.gatesFailed (reports.flatMap failures)) := by
  rw [enforceGates, mapM_eq_ok_map known]
  simp only [List.flatMap_def, ← List.isEmpty_iff]
  rfl

theorem enforceGates_eq_ok_iff :
    c.enforceGates d reports = .ok () ↔ ∀ r ∈ reports, c.Passes d r := by
  constructor
  · intro h r hr
    exact reportFailures_eq_nil_iff.mp (reportFailures_of_enforceGates h hr)
  · intro passes
    rw [enforceGates_of_reportFailures fun r hr => reportFailures_eq_nil_iff.mpr (passes r hr)]
    exact if_pos (by simp)

theorem enforceGates_of_faulty {before after : List PacketReport}
    (sound : ∀ r' ∈ before, ∀ e', ¬ c.Faulty d r' e') (faulty : c.Faulty d r e) :
    c.enforceGates d (before ++ r :: after) = .error e := by
  have passed : ∀ r' ∈ before, ∃ entries, c.reportFailures d r' = .ok entries := by
    intro r' hr'
    obtain ⟨entries, listed, -⟩ := exists_charges (sound r' hr')
    exact ⟨entries, listed⟩
  rw [enforceGates, mapM_eq_error passed faulty.reportFailures]
  rfl

theorem exists_first_faulty (h : ∃ r ∈ reports, ∃ e, c.Faulty d r e) :
    ∃ before r after e, reports = before ++ r :: after ∧
      (∀ r' ∈ before, ∀ e', ¬ c.Faulty d r' e') ∧ c.Faulty d r e := by
  classical
  have found : (reports.find? fun r => ∃ e, c.Faulty d r e).isSome := by
    simpa [List.find?_isSome] using h
  obtain ⟨r, first⟩ := Option.isSome_iff_exists.mp found
  obtain ⟨faulty, before, after, rfl, sound⟩ := List.find?_eq_some_iff_append.mp first
  obtain ⟨e, faulty⟩ := of_decide_eq_true faulty
  refine ⟨before, r, after, e, rfl, fun r' hr' e' faulty' => ?_, faulty⟩
  have passed := sound r' hr'
  rw [Bool.not_eq_true', decide_eq_false_iff_not] at passed
  exact passed ⟨e', faulty'⟩

theorem enforceGates_of_sound (sound : ∀ r ∈ reports, ∀ e, ¬ c.Faulty d r e)
    (refused : c.enforceGates d reports ≠ .ok ()) :
    ∃ entries : PacketReport → List Text, (∀ r ∈ reports, c.Charges d r (entries r)) ∧
      c.enforceGates d reports = .error (.gatesFailed (reports.flatMap entries)) := by
  choose! entries listed charged using fun r hr => exists_charges (sound r hr)
  refine ⟨entries, charged, ?_⟩
  rw [enforceGates_of_reportFailures listed] at refused ⊢
  exact if_neg fun nothing => refused (if_pos nothing)

structure Enforced (c : PacketConfig) (d : Disk) (reports : List PacketReport) : Prop where
  accepted : c.enforceGates d reports = .ok () ↔ ∀ r ∈ reports, c.Passes d r
  faulty : (∃ r ∈ reports, ∃ e, c.Faulty d r e) →
    ∃ before r after e, reports = before ++ r :: after ∧
      (∀ r' ∈ before, ∀ e', ¬ c.Faulty d r' e') ∧ c.Faulty d r e ∧
      c.enforceGates d reports = .error e
  refused : (∀ r ∈ reports, ∀ e, ¬ c.Faulty d r e) → c.enforceGates d reports ≠ .ok () →
    ∃ entries : PacketReport → List Text, (∀ r ∈ reports, c.Charges d r (entries r)) ∧
      (∀ r ∈ reports, entries r = [] ↔ c.Passes d r) ∧
      c.enforceGates d reports = .error (.gatesFailed (reports.flatMap entries))

/-- Reports are accepted when all of them pass. Else either the first fault is told, or everything
that falls short. -/
theorem enforceGates_enforced (c : PacketConfig) (d : Disk) (reports : List PacketReport) :
    Enforced c d reports := by
  refine ⟨enforceGates_eq_ok_iff, ?_, ?_⟩
  · intro fault
    obtain ⟨before, r, after, e, rfl, sound, faulty⟩ := exists_first_faulty fault
    exact ⟨before, r, after, e, rfl, sound, faulty, enforceGates_of_faulty sound faulty⟩
  · intro sound refused
    obtain ⟨entries, charged, told⟩ := enforceGates_of_sound sound refused
    exact ⟨entries, charged, fun r hr => (charged r hr).eq_nil_iff, told⟩

end Enforcement

section Overlooked

-- A path that goes up and down again over and over is too long for the system to look at.

def longId : Text :=
  (List.replicate 370 "../packets/".toList).flatten ++ ['P']

def lenientSettings : PacketConfig :=
  ⟨"fixtures".toList, "reports".toList, false⟩

def malformedDisk : Disk :=
  ⟨.folder "fixtures".toList (.folder "packets".toList (.folder ['P']
    (.file "parity_gate.yaml".toList (Text.encode ['[']) .empty) .empty) .empty) .empty, []⟩

theorem enforceGates_overlooked :
    malformedDisk.entry? (lenientSettings.gatePath longId) = some (.file (Text.encode ['['])) ∧
      malformedDisk.readText (lenientSettings.gatePath longId) =
        .error (.other (some 36) "InvalidFilename".toList "File name too long".toList) ∧
      lenientSettings.enforceGates malformedDisk
        [⟨"packets:P".toList, some longId, 1, 1, 0, []⟩] = .ok () := by
  refine ⟨by decide +kernel, by decide +kernel, by decide +kernel⟩

end Overlooked

example : enforceGates ⟨"fixtures".toList, "reports".toList, true⟩ ⟨.empty, []⟩
    [⟨"packets:P".toList, some ['P'], 1, 0, 1, []⟩] = .error (.gatesFailed
      ["P: parity report failed fixtures=1".toList,
        ("P: gate failed reasons=missing gate file " ++
          "fixtures/packets/P/parity_gate.yaml").toList]) := by
  decide +kernel

end PacketConfig

end FormulaMigration
