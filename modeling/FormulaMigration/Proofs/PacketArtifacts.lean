import FormulaMigration.Packet.Artifacts
import FormulaMigration.Proofs.Disk
import FormulaMigration.Proofs.JsonRoundTrip
import FormulaMigration.Proofs.Utf8

/-!
Reports of packets and the results of their gates, as they stand side by side in files. Main
statement: the result of a gate names the digest of the report beside it, at all times, except where
a write changed one of the two and then failed.
-/

namespace FormulaMigration

namespace GateResult

theorem legible_toJson (g : GateResult) (depth : Nat) : g.toJson.Legible (depth + 2) := by
  apply Json.legible_record
  · simp
  · simp [Json.Legible, Json.ofNat, Json.legibleItems_iff]

end GateResult

namespace Artifacts

theorem plain_reportName : Path.Plain reportName :=
  ⟨by decide, by decide⟩

theorem plain_gateName : Path.Plain gateName :=
  ⟨by decide, by decide⟩

def namedHash? (content : Bytes) : Option Json := do
  let t ← Text.decode? content
  let v ← (Json.ofText t).toOption
  v.member? "report_hash".toList

theorem namedHash?_encode_pretty {v : Json} (legible : v.Legible JsonReading.nestingLimit) :
    namedHash? (Text.encode v.pretty) = v.member? "report_hash".toList := by
  rw [namedHash?, Text.decode?_encode]
  change ((Json.ofText v.pretty).toOption >>= fun v => v.member? "report_hash".toList) = _
  rw [Json.ofText_pretty legible]
  rfl

theorem namedHash?_gateContent (reportHash : Text) (gate : GateResult) :
    namedHash? (gateContent reportHash gate) = some (.string reportHash) := by
  have limit : JsonReading.nestingLimit = 124 + 3 := rfl
  rw [gateContent, namedHash?_encode_pretty]
  · exact List.lookup_cons_self
  · rw [limit]
    apply Json.legible_record
    · simp
    · simp [Json.Legible, gate.legible_toJson]

/-- Whether the result of a gate in a folder, if there is one, belongs to the report beside it. -/
def Paired (d : Disk) (folder : List Name) : Prop :=
  ∀ gate, d.file? (folder ++ [gateName]) = some gate →
    ∃ report, d.file? (folder ++ [reportName]) = some report ∧
      namedHash? gate = some (.string (hash report))

end Artifacts

namespace PacketConfig

open Artifacts

def reportPlace (c : PacketConfig) (d : Disk) (r : PacketReport) : List Name :=
  d.placeOf (c.reportFolder (r.packetId.getD []))

theorem reportPlace_eq {c : PacketConfig} {r : PacketReport} {id : Text} (named : r.packetId = some id)
    (d : Disk) : c.reportPlace d r = d.placeOf (c.reportFolder id) := by
  rw [reportPlace, named, Option.getD_some]

open Std.Do

set_option mvcgen.warning false

structure Completed (c : PacketConfig) (r : PacketReport) (d d' : Disk) : Prop where
  current : d'.current = d.current
  report : d'.file? (c.reportPlace d r ++ [reportName]) = some (reportContent r)
  gate : ∃ gate, d'.file? (c.reportPlace d r ++ [gateName]) =
    some (gateContent (hash (reportContent r)) gate)
  others : ∀ place, place ≠ c.reportPlace d r ++ [reportName] →
    place ≠ c.reportPlace d r ++ [gateName] → d'.file? place = d.file? place

structure Failed (c : PacketConfig) (r : PacketReport) (d d' : Disk) : Prop where
  current : d'.current = d.current
  others : ∀ place, place ≠ c.reportPlace d r ++ [reportName] →
    place ≠ c.reportPlace d r ++ [gateName] → d'.file? place = d.file? place

theorem Failed.of_sameFiles {c : PacketConfig} {r : PacketReport} {d d' : Disk}
    (same : Disk.SameFiles d d') (current : d'.current = d.current) : c.Failed r d d' :=
  ⟨current, fun place _ _ => same place⟩

structure Reported (c : PacketConfig) (r : PacketReport) (d d' : Disk) : Prop where
  current : d'.current = d.current
  reached : d'.resolve (Path.join (c.reportFolder (r.packetId.getD [])) reportName) =
    .ok (c.reportPlace d r ++ [reportName])
  files : ∀ place, d'.file? place =
    if place = c.reportPlace d r ++ [reportName] then some (reportContent r) else d.file? place

section Write

variable {c : PacketConfig} {r : PacketReport} {id : Text} {d made d' : Disk}

theorem Reported.of_write (named : r.packetId = some id)
    (frame : Disk.SameFiles d made ∧ d.Grows made)
    (h : made.write (Path.join (c.reportFolder id) reportName) (reportContent r) = .ok d') :
    c.Reported r d d' := by
  obtain ⟨reached, files⟩ := Disk.write_join_ok plain_reportName h
  rw [Disk.placeOf_congr frame.2.current, ← reportPlace_eq named] at reached files
  refine ⟨(Disk.write_look h).1.trans frame.2.current, ?_, fun other => ?_⟩
  · rw [named]
    exact reached
  · rw [files, frame.1]

theorem Reported.failed (h : c.Reported r d d') : c.Failed r d d' := by
  refine ⟨h.current, fun place notReport _ => ?_⟩
  rw [h.files, if_neg notReport]

theorem Reported.completed (named : r.packetId = some id) (h : c.Reported r d made) {gate : GateResult}
    (written : made.write (Path.join (c.reportFolder id) gateName)
      (gateContent (hash (reportContent r)) gate) = .ok d') : c.Completed r d d' := by
  obtain ⟨-, files⟩ := Disk.write_join_ok plain_gateName written
  rw [Disk.placeOf_congr h.current, ← reportPlace_eq named] at files
  have apart : c.reportPlace d r ++ [reportName] ≠ c.reportPlace d r ++ [gateName] := by
    rw [Ne, List.append_cancel_left_eq]
    decide
  refine ⟨(Disk.write_look written).1.trans h.current, ?_, ⟨gate, ?_⟩, ?_⟩
  · rw [files, if_neg apart, h.files, if_pos rfl]
  · rw [files, if_pos rfl]
  · intro other notReport notGate
    rw [files, if_neg notGate, h.files, if_neg notReport]

variable [DiskFaults] {content : Bytes} {fault : FileError}

theorem Failed.of_unwritten_report (named : r.packetId = some id)
    (frame : Disk.SameFiles d made ∧ d.Grows made)
    (refused : Disk.Unwritten (Path.join (c.reportFolder id) reportName) content made fault d') :
    c.Failed r d d' := by
  obtain ⟨current, others⟩ := refused.beside plain_reportName
  rw [Disk.placeOf_congr frame.2.current, ← reportPlace_eq named] at others
  refine ⟨current.trans frame.2.current, fun place notReport _ => ?_⟩
  rw [others place notReport, frame.1]

theorem Reported.failed_of_unwritten (named : r.packetId = some id) (h : c.Reported r d made)
    (refused : Disk.Unwritten (Path.join (c.reportFolder id) gateName) content made fault d') :
    c.Failed r d d' := by
  obtain ⟨current, others⟩ := refused.beside plain_gateName
  rw [Disk.placeOf_congr h.current, ← reportPlace_eq named] at others
  refine ⟨current.trans h.current, fun place notReport notGate => ?_⟩
  rw [others place notGate, h.files, if_neg notReport]

end Write

section Actions

variable [DiskFaults]

theorem makeFolders_frame (start : List Name) (reversed : List Step) (before : Disk) :
    ⦃fun d => ⌜Disk.SameFiles before d ∧ before.Grows d⌝⦄
      Disk.makeFolders start reversed
    ⦃post⟨fun _ d => ⌜Disk.SameFiles before d ∧ before.Grows d⌝,
      fun _ d => ⌜Disk.SameFiles before d ∧ before.Grows d⌝⟩⦄ :=
  Disk.makeFolders_keeps (fun filled made same => ⟨same.1.trans (Disk.makeFolder_ok filled made),
    same.2.trans (Disk.grows_of_makeFolder filled made)⟩) start reversed

variable [YamlReader Gate]

theorem writeReport_spec (c : PacketConfig) (r : PacketReport) (before : Disk) :
    ⦃fun d => ⌜d = before⌝⦄
      c.writeReport r
    ⦃post⟨fun _ d => ⌜c.Completed r before d⌝, fun _ d => ⌜c.Failed r before d⌝⟩⦄ := by
  mvcgen [writeReport, onDisk, Disk.makeFoldersTo, -Disk.makeFolders_spec, makeFolders_frame]
  case vc1.h_1 same =>
    subst same
    exact .of_sameFiles (.refl _) rfl
  case vc2.h_2.pre => exact ⟨.refl _, .refl _⟩
  case vc3.h_2.post.success.post.success.h_1 id named _ _ same _ _ _ _ frame _ _ _ written _ _ =>
    subst same
    exact (Reported.of_write named frame written).failed
  case vc4.h_2.post.success.post.success.h_2.post.success id named _ _ same _ _ _ _ frame _ _ _
      written _ _ _ _ _ gate =>
    subst same
    exact (Reported.of_write named frame written).completed named gate
  case vc5.h_2.post.success.post.success.h_2.post.except.handle id named _ _ same _ _ _ _ frame _
      _ _ written _ _ _ _ _ =>
    subst same
    exact (Reported.of_write named frame written).failed_of_unwritten named
  case vc6.h_2.post.success.post.except.handle id named _ _ same _ _ _ _ frame _ _ =>
    subst same
    exact Failed.of_unwritten_report named frame
  case vc7.h_2.post.except.handle same _ _ =>
    subst same
    exact fun same grows => .of_sameFiles same grows.current

def touches (c : PacketConfig) (r : PacketReport) (d d' : Disk) : Bool :=
  d'.file? (c.reportPlace d r ++ [reportName]) ≠ d.file? (c.reportPlace d r ++ [reportName]) ||
    d'.file? (c.reportPlace d r ++ [gateName]) ≠ d.file? (c.reportPlace d r ++ [gateName])

/-- The folders with a loose report after some reports are written, up to the first that fails. A
report is loose when its write changed a file and then failed, up to the next write there that is
completed. -/
def loosen (c : PacketConfig) : List PacketReport → Disk → List (List Name) → List (List Name)
  | [], _, loose => loose
  | r :: rest, d, loose =>
    match c.writeReport r d with
    | .ok _ d' => loosen c rest d' (loose.filter (· ≠ c.reportPlace d r))
    | .error _ d' => if c.touches r d d' then c.reportPlace d r :: loose else loose

end Actions

end PacketConfig

namespace Disk

def after {ε α : Type} (action : DiskAction ε α) (d : Disk) : Disk :=
  match action d with
  | .ok _ d' => d'
  | .error _ d' => d'

end Disk

namespace Artifacts

variable {c : PacketConfig} {r : PacketReport} {d d' : Disk} {folder : List Name}

theorem Paired.congr (h : Paired d folder)
    (report : d'.file? (folder ++ [reportName]) = d.file? (folder ++ [reportName]))
    (gate : d'.file? (folder ++ [gateName]) = d.file? (folder ++ [gateName])) :
    Paired d' folder := by
  rw [Paired, report, gate]
  exact h

theorem Paired.beside (h : Paired d folder) (own : folder ≠ c.reportPlace d r)
    (others : ∀ place, place ≠ c.reportPlace d r ++ [reportName] →
      place ≠ c.reportPlace d r ++ [gateName] → d'.file? place = d.file? place) :
    Paired d' folder := by
  apply h.congr
  · exact others _ (by simp [own]) (by simp [own])
  · exact others _ (by simp [own]) (by simp [own])

theorem paired_of_completed (h : c.Completed r d d')
    (paired : folder ≠ c.reportPlace d r → Paired d folder) : Paired d' folder := by
  by_cases own : folder = c.reportPlace d r
  · subst own
    intro gate written
    obtain ⟨result, known⟩ := h.gate
    obtain rfl := Option.some.inj (known.symm.trans written)
    exact ⟨_, h.report, namedHash?_gateContent _ _⟩
  · exact (paired own).beside own h.others

theorem paired_of_failed (h : c.Failed r d d') (paired : Paired d folder)
    (tight : ¬ (folder = c.reportPlace d r ∧ c.touches r d d')) : Paired d' folder := by
  by_cases own : folder = c.reportPlace d r
  · subst own
    -- The write changed neither of its files.
    obtain ⟨report, gate⟩ : _ = _ ∧ _ = _ := by simpa [PacketConfig.touches] using tight
    exact paired.congr report gate
  · exact paired.beside own h.others

section Runs

variable [DiskFaults] [YamlReader Gate]

theorem after_writeReports_cons (rest : List PacketReport) :
    Disk.after (c.writeReports (r :: rest)) d =
      match c.writeReport r d with
      | .ok _ d' => Disk.after (c.writeReports rest) d'
      | .error _ d' => d' := by
  have steps : c.writeReports (r :: rest) = (do
      let a ← c.writeReport r
      let others ← c.writeReports rest
      pure (a :: others)) := List.mapM_cons
  simp only [steps, Disk.after, bind, EStateM.bind]
  cases c.writeReport r d with
  | error e d' => rfl
  | ok a d' =>
    cases ran : c.writeReports rest d' <;> simp only [ran, pure, EStateM.pure]

theorem after_writeReports_singleton :
    Disk.after (c.writeReports [r]) d = Disk.after (c.writeReport r) d := by
  rw [after_writeReports_cons, Disk.after]
  cases c.writeReport r d <;> rfl

theorem paired_writeReports {loose : List (List Name)} (reports : List PacketReport)
    (paired : folder ∉ loose → Paired d folder) (tight : folder ∉ c.loosen reports d loose) :
    Paired (Disk.after (c.writeReports reports) d) folder := by
  induction reports generalizing d loose with
  | nil => exact paired tight
  | cons r rest ih =>
    have left := run_of_triple (c.writeReport_spec r d) (s := d) rfl
    rw [after_writeReports_cons]
    rw [PacketConfig.loosen] at tight
    cases ran : c.writeReport r d with
    | ok a d' =>
      rw [ran] at left tight
      apply ih ?_ tight
      intro still
      apply paired_of_completed left
      intro other
      exact paired fun held => still (List.mem_filter.mpr ⟨held, by simpa using other⟩)
    | error e d' =>
      rw [ran] at left tight
      dsimp only at left tight ⊢
      split_ifs at tight with cut
      · rw [List.mem_cons, not_or] at tight
        exact paired_of_failed left (paired tight.2) fun own => tight.1 own.1
      · exact paired_of_failed left (paired tight) fun own => cut own.2

theorem current_writeReports (reports : List PacketReport) :
    (Disk.after (c.writeReports reports) d).current = d.current := by
  induction reports generalizing d with
  | nil => rfl
  | cons r rest ih =>
    have left := run_of_triple (c.writeReport_spec r d) (s := d) rfl
    rw [after_writeReports_cons]
    cases ran : c.writeReport r d with
    | ok a d' =>
      rw [ran] at left
      exact ih.trans left.current
    | error e d' =>
      rw [ran] at left
      exact left.current

end Runs

/-- The disks that come about when reports are written, with any settings and whatever fails, and
whatever else is done to files that do not lie below the root of reports. With them the folders with
a loose report. -/
inductive Reached (root : Path) : Disk → List (List Name) → Prop
  | start {d : Disk} (bare : ∀ place, d.placeOf root <+: place → d.file? place = none) :
    Reached root d []
  | elsewhere {d d' : Disk} {loose : List (List Name)} (reached : Reached root d loose)
    (current : d'.current = d.current)
    (spared : ∀ place, d.placeOf root <+: place → d'.file? place = d.file? place) :
    Reached root d' loose
  | writeReport [DiskFaults] [YamlReader Gate] {d : Disk} {loose : List (List Name)}
    (reached : Reached root d loose) (c : PacketConfig) (r : PacketReport) :
    Reached root (Disk.after (c.writeReport r) d) (c.loosen [r] d loose)
  | writeReports [DiskFaults] [YamlReader Gate] {d : Disk} {loose : List (List Name)}
    (reached : Reached root d loose) (c : PacketConfig) (reports : List PacketReport) :
    Reached root (Disk.after (c.writeReports reports) d) (c.loosen reports d loose)

/-- At all times the result of a gate below the root of reports names the digest of the report beside
it, unless that report is loose. -/
theorem Reached.paired {root : Path} {loose : List (List Name)} (h : Reached root d loose)
    (below : d.placeOf root <+: folder) (tight : folder ∉ loose) : Paired d folder := by
  induction h with
  | start bare =>
    intro gate written
    cases (bare _ (below.trans (List.prefix_append _ _))).symm.trans written
  | elsewhere reached current spared ih =>
    -- Relative paths start where they did, so the root of reports is the same place.
    rw [Disk.placeOf_congr current] at below
    apply (ih below tight).congr
    · exact spared _ (below.trans (List.prefix_append _ _))
    · exact spared _ (below.trans (List.prefix_append _ _))
  | writeReport reached c r ih =>
    rw [← after_writeReports_singleton] at below ⊢
    rw [Disk.placeOf_congr (current_writeReports _)] at below
    exact paired_writeReports [r] (ih below) tight
  | writeReports reached c reports ih =>
    rw [Disk.placeOf_congr (current_writeReports _)] at below
    exact paired_writeReports reports (ih below) tight

section Twice

-- The report of a packet is written twice. By the second time the packet has a case, and a gate that
-- cannot be read.

def settings : PacketConfig :=
  ⟨"fixtures".toList, "reports".toList, false⟩

def bareDisk : Disk :=
  ⟨.empty, []⟩

def firstReport : PacketReport :=
  ⟨"packets:P".toList, some ['P'], 0, 0, 0, []⟩

def firstDisk : Disk :=
  Disk.after (settings.writeReport firstReport) bareDisk

def fixturesFolder : Folder :=
  .folder "packets".toList (.folder ['P'] (.file "case.json".toList
    (Text.encode ("\x7b\"packet_id\": \"P\", \"case_id\": \"c\", ".toList ++
      "\"operation\": \"transpile_expression\", \"input\": \"2\", \"expected\": \"2\"\x7d".toList))
    (.file "parity_gate.yaml".toList (Text.encode ['[']) .empty)) .empty) .empty

def secondDisk : Disk :=
  { firstDisk with root := firstDisk.root.set "fixtures".toList (.folder fixturesFolder) }

def secondReport : PacketReport :=
  ⟨"packets:P".toList, some ['P'], 1, 1, 0, [⟨['P'], ['c'], .convertFormula, true, none, 0⟩]⟩

def lastDisk : Disk :=
  Disk.after (settings.writeReport secondReport) secondDisk

def packetFolder : List Name :=
  ["reports".toList, ['P']]

theorem reached_firstDisk : Reached "reports".toList firstDisk [] := by
  have bare : Reached "reports".toList bareDisk [] := by
    apply Reached.start
    intro place _
    cases place <;> rfl
  have tight : settings.loosen [firstReport] bareDisk [] = [] := by decide +kernel
  have written := bare.writeReport settings firstReport
  rwa [tight] at written

theorem paired_firstDisk :
    Reached "reports".toList firstDisk [] ∧ firstDisk.placeOf "reports".toList <+: packetFolder ∧
      (firstDisk.file? (packetFolder ++ [gateName])).isSome ∧ Paired firstDisk packetFolder := by
  have below : firstDisk.placeOf "reports".toList <+: packetFolder := by decide +kernel
  refine ⟨reached_firstDisk, below, by decide +kernel, ?_⟩
  exact reached_firstDisk.paired below List.not_mem_nil

theorem reached_secondDisk : Reached "reports".toList secondDisk [] := by
  have current : secondDisk.current = firstDisk.current := rfl
  apply reached_firstDisk.elsewhere current
  rintro place ⟨rest, rfl⟩
  have apart : "fixtures".toList ≠ "reports".toList := by decide
  change (secondDisk.look? ("reports".toList :: rest)).join =
    (firstDisk.look? ("reports".toList :: rest)).join
  rw [Disk.look?, Disk.look?, Folder.look?_cons, Folder.look?_cons, secondDisk, Folder.find?_set,
    if_neg apart]

theorem unpaired_lastDisk :
    settings.runPacket ['P'] bareDisk = .ok firstReport ∧
      settings.runPacket ['P'] secondDisk = .ok secondReport ∧
      Reached "reports".toList lastDisk [packetFolder] ∧
      lastDisk.placeOf "reports".toList <+: packetFolder ∧ ¬ Paired lastDisk packetFolder := by
  refine ⟨by decide +kernel, by decide +kernel, ?_, by decide +kernel, ?_⟩
  · have loose : settings.loosen [secondReport] secondDisk [] = [packetFolder] := by decide +kernel
    have written := reached_secondDisk.writeReport settings secondReport
    rwa [loose] at written
  · intro paired
    have gate : lastDisk.file? (packetFolder ++ [gateName]) =
        some (gateContent (hash (reportContent firstReport)) ⟨['P'], 0, 0, []⟩) := by decide +kernel
    have report : lastDisk.file? (packetFolder ++ [reportName]) =
        some (reportContent secondReport) := by decide +kernel
    have other : hash (reportContent firstReport) ≠ hash (reportContent secondReport) := by
      decide +kernel
    obtain ⟨content, there, named⟩ := paired _ gate
    obtain rfl := Option.some.inj (report.symm.trans there)
    rw [namedHash?_gateContent] at named
    exact other (Json.string.inj (Option.some.inj named))

end Twice

end Artifacts

end FormulaMigration
