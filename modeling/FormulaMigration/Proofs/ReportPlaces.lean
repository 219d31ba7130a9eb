import FormulaMigration.Proofs.PacketArtifacts

namespace FormulaMigration

namespace Path

def turn (way : Nat × List Name) : Step → Nat × List Name
  | .here => way
  | .up => if way.2 = [] then (way.1 + 1, []) else (way.1, way.2.dropLast)
  | .into name => (way.1, way.2 ++ [name])

/-- How far a path leads up from the folder it is read in, and the names by which it leads down from
there. -/
def net (p : Path) : Nat × List Name :=
  (steps p).foldl turn (0, [])

theorem Plain.net_eq {name : Name} (plain : Plain name) : net name = (0, [name]) := by
  rw [net, plain.steps_eq]
  rfl

end Path

namespace Disk

def follow (place : List Name) (way : Nat × List Name) : List Name :=
  place.take (place.length - way.1) ++ way.2

theorem move_follow (place : List Name) (way : Nat × List Name) (step : Step) :
    move (follow place way) step = follow place (Path.turn way step) := by
  obtain ⟨climbs, names⟩ := way
  cases step with
  | here => rfl
  | into name => simp [move, follow, Path.turn]
  | up =>
    rcases List.eq_nil_or_concat names with rfl | ⟨names, name, rfl⟩
    · simp only [move, follow, Path.turn, if_true, List.append_nil, List.dropLast_eq_take,
        List.take_take, List.length_take]
      congr 1
      omega
    · simp [move, follow, Path.turn, ← List.append_assoc]

theorem foldl_move (place : List Name) (p : Path) :
    (Path.steps p).foldl move place = follow place (Path.net p) := by
  have run (steps : List Step) (way : Nat × List Name) :
      steps.foldl move (follow place way) = follow place (steps.foldl Path.turn way) := by
    induction steps generalizing way with
    | nil => rfl
    | cons step steps ih => rw [List.foldl_cons, List.foldl_cons, move_follow, ih]
  have start : follow place (0, []) = place := by simp [follow]
  rw [Path.net, ← run, start]

theorem placeOf_join (d : Disk) (p q : Path) :
    d.placeOf (Path.join p q) =
      follow (if Path.isAbsolute q then [] else d.placeOf p) (Path.net q) := by
  split_ifs with absolute
  · rw [Path.join, if_pos absolute, placeOf, start, if_pos absolute, foldl_move]
  · obtain ⟨way, reached, -, joined⟩ := exists_way d p
    obtain ⟨start, into⟩ := joined q absolute
    rw [placeOf, start, into, List.foldl_append, reached, foldl_move]

theorem prefix_follow_iff (place : List Name) (way : Nat × List Name) :
    place <+: follow place way ↔ place.drop (place.length - way.1) <+: way.2 := by
  rw [follow]
  nth_rewrite 1 [← List.take_append_drop (place.length - way.1) place]
  exact List.prefix_append_right_inj _

end Disk

namespace CaseResult

theorem legible_toJson (r : CaseResult) (depth : Nat) : r.toJson.Legible (depth + 1) := by
  apply Json.legible_record
  · simp
  · simp only [List.forall_mem_cons]
    cases r.mismatch <;> simp [Json.ofText?, Json.Legible, Json.ofNat]

end CaseResult

namespace PacketReport

theorem legible_toJson (r : PacketReport) (depth : Nat) : r.toJson.Legible (depth + 3) := by
  apply Json.legible_record
  · simp
  · simp only [List.forall_mem_cons]
    cases r.packetId <;>
      simp [Json.ofText?, Json.Legible, Json.ofNat, Json.legibleItems_iff, CaseResult.legible_toJson]

end PacketReport

namespace PacketConfig

open Artifacts

def artifacts (c : PacketConfig) (r : PacketReport) : Artifacts :=
  let folder := c.reportFolder (r.packetId.getD [])
  ⟨r.packetId.getD [], Path.join folder reportName, Path.join folder gateName,
    hash (reportContent r)⟩

structure Landed (c : PacketConfig) (r : PacketReport) (a : Artifacts) (d d' : Disk) : Prop where
  named : r.packetId.isSome
  told : a = c.artifacts r
  grows : d.Grows d'
  report : d'.resolve (c.artifacts r).reportPath = .ok (c.reportPlace d r ++ [reportName])
  gate : d'.resolve (c.artifacts r).gatePath = .ok (c.reportPlace d r ++ [gateName])
  completed : c.Completed r d d'

section Landing

variable {c : PacketConfig} {r : PacketReport} {id : Text} {a : Artifacts} {d made d' : Disk}

theorem Reported.landed (named : r.packetId = some id) (h : c.Reported r d made) (grows : d.Grows made)
    {gate : GateResult} (written : made.write (Path.join (c.reportFolder id) gateName)
      (gateContent (hash (reportContent r)) gate) = .ok d') :
    c.Landed r ⟨id, Path.join (c.reportFolder id) reportName, Path.join (c.reportFolder id) gateName,
      hash (reportContent r)⟩ d d' := by
  have further := Disk.grows_of_write written
  obtain ⟨gate, -⟩ := Disk.write_join_ok plain_gateName written
  rw [Disk.placeOf_congr grows.current, ← reportPlace_eq named] at gate
  refine ⟨by simp [named], by simp [artifacts, named], grows.trans further, further.resolve h.reached,
    ?_, h.completed named written⟩
  simpa [artifacts, named] using gate

open Std.Do

set_option mvcgen.warning false

variable [DiskFaults] [YamlReader Gate]

theorem writeReport_landed (c : PacketConfig) (r : PacketReport) (before : Disk) :
    ⦃fun d => ⌜d = before⌝⦄
      c.writeReport r
    ⦃post⟨fun a d => ⌜c.Landed r a before d⌝, fun _ _ => ⌜True⌝⟩⦄ := by
  mvcgen [writeReport, onDisk, Disk.makeFoldersTo, -Disk.makeFolders_spec, makeFolders_frame]
  case vc1.h_2.pre => exact ⟨.refl _, .refl _⟩
  case vc2.h_2.post.success.post.success.h_2.post.success id named _ _ same _ _ _ _ frame _ _ _
      written _ _ _ _ _ gate =>
    subst same
    exact (Reported.of_write named frame written).landed named
      (frame.2.trans (Disk.grows_of_write written)) gate

theorem landed_of_writeReport (h : c.writeReport r d = .ok a d') : c.Landed r a d d' := by
  have left := run_of_triple (c.writeReport_landed r d) (s := d) rfl
  rwa [h] at left

end Landing

inductive Written (c : PacketConfig) : List PacketReport → Disk → Disk → Prop
  | nil (d : Disk) : Written c [] d d
  | cons {r : PacketReport} {rest : List PacketReport} {d d' d'' : Disk}
      (first : c.Landed r (c.artifacts r) d d') (others : Written c rest d' d'') :
      Written c (r :: rest) d d''

def reportFiles (c : PacketConfig) (d : Disk) (r : PacketReport) : List (List Name) :=
  [c.reportPlace d r ++ [reportName], c.reportPlace d r ++ [gateName]]

section Run

variable {c : PacketConfig} {r r' : PacketReport} {reports before after : List PacketReport}
  {written : List Artifacts} {d d' : Disk} {place : List Name}

theorem written_of_writeReports [DiskFaults] [YamlReader Gate]
    (h : c.writeReports reports d = .ok written d') :
    written = reports.map c.artifacts ∧ c.Written reports d d' := by
  induction reports generalizing d written with
  | nil =>
    obtain ⟨rfl, rfl⟩ := EStateM.Result.ok.inj h
    exact ⟨rfl, .nil d⟩
  | cons r rest ih =>
    rw [writeReports, List.mapM_cons] at h
    obtain ⟨a, d₁, first, h⟩ := exists_of_run_bind_eq_ok h
    obtain ⟨as, d₂, others, h⟩ := exists_of_run_bind_eq_ok h
    obtain ⟨rfl, rfl⟩ := EStateM.Result.ok.inj h
    have landed := landed_of_writeReport first
    obtain ⟨rfl, run⟩ := ih others
    obtain rfl := landed.told
    exact ⟨rfl, .cons landed run⟩

theorem reportPlace_congr (h : d'.current = d.current) (r : PacketReport) :
    c.reportPlace d' r = c.reportPlace d r :=
  Disk.placeOf_congr h _

theorem reportFiles_congr (h : d'.current = d.current) (r : PacketReport) :
    c.reportFiles d' r = c.reportFiles d r := by
  rw [reportFiles, reportFiles, reportPlace_congr h]

theorem mem_reportFiles :
    place ∈ c.reportFiles d r ↔
      place = c.reportPlace d r ++ [reportName] ∨ place = c.reportPlace d r ++ [gateName] := by
  simp [reportFiles]

theorem reportFile_mem_iff :
    c.reportPlace d r ++ [reportName] ∈ c.reportFiles d r' ↔
      c.reportPlace d r' = c.reportPlace d r := by
  have apart : reportName ≠ gateName := by decide
  simp [mem_reportFiles, apart, eq_comm]

theorem shared_iff (d : Disk) (r r' : PacketReport) :
    (∃ place ∈ c.reportFiles d r, place ∈ c.reportFiles d r') ↔
      c.reportPlace d r = c.reportPlace d r' := by
  constructor
  · rintro ⟨place, mem, mem'⟩
    rw [mem_reportFiles] at mem mem'
    rcases mem with rfl | rfl <;> rcases mem' with same | same <;>
      exact List.append_inj_left' same rfl
  · intro same
    exact ⟨_, List.mem_cons_self, reportFile_mem_iff.mpr same.symm⟩

theorem Landed.others (h : c.Landed r (c.artifacts r) d d') (apart : place ∉ c.reportFiles d r) :
    d'.file? place = d.file? place := by
  rw [mem_reportFiles, not_or] at apart
  exact h.completed.others place apart.1 apart.2

theorem Written.grows (h : c.Written reports d d') : d.Grows d' := by
  induction h with
  | nil d => exact .refl d
  | cons first _ ih => exact first.grows.trans ih

theorem Written.others (h : c.Written reports d d')
    (apart : ∀ r ∈ reports, place ∉ c.reportFiles d r) :
    d'.file? place = d.file? place := by
  induction h with
  | nil d => rfl
  | cons first _ ih =>
    obtain ⟨here, apart⟩ := List.forall_mem_cons.mp apart
    rw [ih, first.others here]
    intro r hr
    rw [reportFiles_congr first.grows.current]
    exact apart r hr

theorem Written.append (h : c.Written (before ++ after) d d') :
    ∃ d₁, c.Written before d d₁ ∧ c.Written after d₁ d' := by
  induction before generalizing d with
  | nil => exact ⟨d, .nil d, h⟩
  | cons r before ih =>
    cases h with
    | cons first rest =>
      obtain ⟨d₁, passed, rest⟩ := ih rest
      exact ⟨d₁, .cons first passed, rest⟩

theorem Written.told (h : c.Written reports d d') (mem : r ∈ reports) :
    r.packetId.isSome ∧
      d'.resolve (c.artifacts r).reportPath = .ok (c.reportPlace d r ++ [reportName]) ∧
      d'.resolve (c.artifacts r).gatePath = .ok (c.reportPlace d r ++ [gateName]) := by
  obtain ⟨before, after, rfl⟩ := List.append_of_mem mem
  obtain ⟨d₁, passed, rest⟩ := h.append
  cases rest with
  | cons first others =>
    rw [← reportPlace_congr passed.grows.current]
    exact ⟨first.named, others.grows.resolve first.report, others.grows.resolve first.gate⟩

theorem Written.latest {folder : List Name} (h : c.Written reports d d')
    (lands : ∃ r ∈ reports, c.reportPlace d r = folder) :
    ∃ r ∈ reports, c.reportPlace d r = folder ∧
      d'.file? (folder ++ [reportName]) = some (reportContent r) ∧
      ∃ gate, d'.file? (folder ++ [gateName]) =
        some (gateContent (hash (reportContent r)) gate) := by
  induction h with
  | nil d => simp at lands
  | @cons r rest d d₁ d' first others ih =>
    have kept (r : PacketReport) := reportPlace_congr (c := c) first.grows.current r
    simp only [kept] at ih
    by_cases later : ∃ r' ∈ rest, c.reportPlace d r' = folder
    · obtain ⟨r', hr', place, files⟩ := ih later
      exact ⟨r', List.mem_cons_of_mem _ hr', place, files⟩
    · -- The report that lands there is this one, and no later write touches its files.
      obtain ⟨r', hr', rfl⟩ := lands
      have here : r' = r :=
        (List.mem_cons.mp hr').resolve_right fun rest => later ⟨r', rest, rfl⟩
      subst here
      obtain ⟨gate, result⟩ := first.completed.gate
      have untouched : ∀ place ∈ c.reportFiles d r', d'.file? place = d₁.file? place := by
        intro place own
        apply others.others
        intro r'' hr'' mem
        rw [reportFiles_congr first.grows.current] at mem
        exact later ⟨r'', hr'', (shared_iff d r'' r').mp ⟨place, mem, own⟩⟩
      refine ⟨_, List.mem_cons_self, rfl, ?_, gate, ?_⟩
      · rw [untouched _ (by simp [mem_reportFiles]), first.completed.report]
      · rw [untouched _ (by simp [mem_reportFiles]), result]

theorem packetId_of_reportContent (h : reportContent r = reportContent r') :
    r.packetId = r'.packetId := by
  have limit : JsonReading.nestingLimit = 124 + 3 := rfl
  have texts : r.toJson.pretty = r'.toJson.pretty := by
    have decoded := congrArg Text.decode? h
    simpa [reportContent, Text.decode?_encode] using decoded
  have documents : r.toJson = r'.toJson := by
    have read := congrArg Json.ofText texts
    rw [Json.ofText_pretty (limit ▸ r.legible_toJson 124),
      Json.ofText_pretty (limit ▸ r'.legible_toJson 124)] at read
    exact Except.ok.inj read
  have named (r : PacketReport) :
      r.toJson.member? "packet_id".toList = some (.ofText? r.packetId) := by
    simp [PacketReport.toJson, Json.record, Json.member?, List.lookup_cons]
  have ids := congrArg (Json.member? "packet_id".toList) documents
  rw [named, named] at ids
  cases own : r.packetId <;> cases other : r'.packetId <;> simp_all [Json.ofText?]

theorem Written.read_iff (h : c.Written (before ++ r :: after) d d')
    (distinct : ((before ++ r :: after).map (·.packetId)).Nodup) :
    d'.read (c.artifacts r).reportPath = .ok (reportContent r) ↔
      ∀ r' ∈ after, c.reportPlace d r' ≠ c.reportPlace d r := by
  have fresh : ∀ r' ∈ after, r'.packetId ≠ r.packetId := by
    rw [List.map_append, List.map_cons, List.nodup_append, List.nodup_cons, List.mem_map] at distinct
    exact fun r' hr' same => distinct.2.1.1 ⟨r', hr', same⟩
  rw [Disk.read_eq_ok_iff (h.told (by simp)).2.1]
  obtain ⟨d₁, passed, rest⟩ := h.append
  cases rest with
  | @cons _ _ _ d₂ _ first others =>
    have kept (r : PacketReport) : c.reportPlace d₂ r = c.reportPlace d r :=
      reportPlace_congr (passed.grows.trans first.grows).current r
    constructor
    · intro content r' hr' place
      obtain ⟨r'', hr'', -, latest, -⟩ := others.latest ⟨r', hr', (kept r').trans place⟩
      have same := Option.some.inj (latest.symm.trans content)
      exact fresh r'' hr'' (packetId_of_reportContent same)
    · intro apart
      rw [others.others, ← reportPlace_congr passed.grows.current, first.completed.report]
      intro r' hr' mem
      rw [← kept, reportFile_mem_iff, kept, kept] at mem
      exact apart r' hr' mem

theorem reportPlace_eq_follow (d : Disk) {id : Text} (named : r.packetId = some id) :
    c.reportPlace d r = Disk.follow (if Path.isAbsolute id then [] else d.placeOf c.reportRoot)
      (Path.net id) := by
  rw [reportPlace_eq named, reportFolder, Disk.placeOf_join]

structure SideBySide (c : PacketConfig) (reports : List PacketReport) (d : Disk)
    (written : List Artifacts) (d' : Disk) : Prop where
  told : written = reports.map c.artifacts
  reached : ∀ r ∈ reports,
    d'.resolve (c.artifacts r).reportPath = .ok (c.reportPlace d r ++ [reportName]) ∧
      d'.resolve (c.artifacts r).gatePath = .ok (c.reportPlace d r ++ [gateName])
  landed : ∀ r ∈ reports, ∃ id, r.packetId = some id ∧ c.reportPlace d r =
    Disk.follow (if Path.isAbsolute id then [] else d.placeOf c.reportRoot) (Path.net id)
  below : ∀ r ∈ reports, ∀ id, r.packetId = some id → ¬ Path.isAbsolute id →
    (d.placeOf c.reportRoot <+: c.reportPlace d r ↔
      (d.placeOf c.reportRoot).drop ((d.placeOf c.reportRoot).length - (Path.net id).1) <+:
        (Path.net id).2)
  others : ∀ place, (∀ r ∈ reports, place ∉ c.reportFiles d r) → d'.file? place = d.file? place
  shared : ∀ r ∈ reports, ∀ r' ∈ reports,
    (∃ place ∈ c.reportFiles d r, place ∈ c.reportFiles d r') ↔
      c.reportPlace d r = c.reportPlace d r'
  latest : ∀ r ∈ reports, ∃ r' ∈ reports, c.reportPlace d r' = c.reportPlace d r ∧
    d'.read (c.artifacts r).reportPath = .ok (reportContent r') ∧
    ∃ gate, d'.read (c.artifacts r).gatePath =
      .ok (gateContent (hash (reportContent r')) gate)
  found : ∀ before r after, reports = before ++ r :: after →
    (d'.read (c.artifacts r).reportPath = .ok (reportContent r) ↔
      ∀ r' ∈ after, c.reportPlace d r' ≠ c.reportPlace d r)
  plain : (∀ r ∈ reports, ∀ id, r.packetId = some id → Path.Plain id) →
    (∀ r ∈ reports, ∀ place ∈ c.reportFiles d r, d.placeOf c.reportRoot <+: place) ∧
      (reports.Pairwise fun r r' => (c.reportFiles d r).Disjoint (c.reportFiles d r')) ∧
      ∀ a ∈ written, ∃ content, d'.read a.reportPath = .ok content ∧
        a.reportHash = Artifacts.hash content

theorem reportPlace_of_plain (d : Disk) {id : Text} (named : r.packetId = some id)
    (plain : Path.Plain id) : c.reportPlace d r = d.placeOf c.reportRoot ++ [id] := by
  rw [reportPlace_eq_follow d named, if_neg plain.not_isAbsolute, plain.net_eq]
  simp [Disk.follow]

theorem Written.apart_of_plain (h : c.Written reports d d')
    (distinct : (reports.map (·.packetId)).Nodup)
    (plain : ∀ r ∈ reports, ∀ id, r.packetId = some id → Path.Plain id) :
    reports.Pairwise fun r r' => c.reportPlace d r ≠ c.reportPlace d r' := by
  refine (List.pairwise_map.mp distinct).imp_of_mem fun {r r'} mem mem' other same => ?_
  obtain ⟨id, named⟩ := Option.isSome_iff_exists.mp (h.told mem).1
  obtain ⟨id', named'⟩ := Option.isSome_iff_exists.mp (h.told mem').1
  rw [reportPlace_of_plain d named (plain r mem id named),
    reportPlace_of_plain d named' (plain r' mem' id' named')] at same
  have ids : id = id' := by simpa using same
  exact other (by rw [named, named', ids])

theorem Written.sideBySide (h : c.Written reports d d')
    (distinct : (reports.map (·.packetId)).Nodup) :
    c.SideBySide reports d (reports.map c.artifacts) d' where
  told := rfl
  reached := fun r mem => (h.told mem).2
  landed := by
    intro r mem
    obtain ⟨id, named⟩ := Option.isSome_iff_exists.mp (h.told mem).1
    exact ⟨id, named, reportPlace_eq_follow d named⟩
  below := by
    intro r mem id named relative
    rw [reportPlace_eq_follow d named, if_neg relative, Disk.prefix_follow_iff]
  others := fun place apart => h.others apart
  shared := fun r _ r' _ => shared_iff d r r'
  latest := by
    intro r mem
    obtain ⟨r', mem', place, content, gate, result⟩ := h.latest ⟨r, mem, rfl⟩
    obtain ⟨-, reached, reached'⟩ := h.told mem
    exact ⟨r', mem', place, (Disk.read_eq_ok_iff reached).mpr content, gate,
      (Disk.read_eq_ok_iff reached').mpr result⟩
  found := by
    rintro before r after rfl
    exact h.read_iff distinct
  plain := by
    intro plain
    have apart := h.apart_of_plain distinct plain
    refine ⟨?_, ?_, ?_⟩
    · intro r mem place written
      obtain ⟨id, named⟩ := Option.isSome_iff_exists.mp (h.told mem).1
      have folder := reportPlace_of_plain (c := c) d named (plain r mem id named)
      rw [mem_reportFiles, folder, List.append_assoc, List.append_assoc] at written
      rcases written with rfl | rfl <;> exact List.prefix_append _ _
    · refine apart.imp fun {r r'} other place mem mem' => other ?_
      exact (shared_iff d r r').mp ⟨place, mem, mem'⟩
    · intro a mem
      obtain ⟨r, listed, rfl⟩ := List.mem_map.mp mem
      obtain ⟨before, after, rfl⟩ := List.append_of_mem listed
      have later := (List.pairwise_cons.mp (List.pairwise_append.mp apart).2.1).1
      exact ⟨reportContent r, (h.read_iff distinct).mpr fun r' hr' => (later r' hr').symm, rfl⟩

/-- When reports of different packets are written, each goes to the folder that its id leads to from
the root of reports. Two of them share their files if their ids lead to the same folder, and then
the later one is found. -/
theorem writeReports_sideBySide [DiskFaults] [YamlReader Gate]
    (distinct : (reports.map (·.packetId)).Nodup)
    (h : c.writeReports reports d = .ok written d') : c.SideBySide reports d written d' := by
  obtain ⟨rfl, run⟩ := written_of_writeReports h
  exact run.sideBySide distinct

end Run

section Shared

-- Two ids that lead to the same folder, and one that leads out of the root of reports.

def emptyReport (id : Text) : PacketReport :=
  ⟨"packets:".toList ++ id, some id, 0, 0, 0, []⟩

def sharedReports : List PacketReport :=
  [emptyReport "P".toList, emptyReport "./P".toList, emptyReport "../Q".toList]

theorem exists_written_sharedReports :
    ∃ written d', settings.writeReports sharedReports bareDisk = .ok written d' := by
  have passed : (match settings.writeReports sharedReports bareDisk with
    | .ok _ _ => true
    | .error _ _ => false) = true := by decide +kernel
  cases run : settings.writeReports sharedReports bareDisk with
  | ok written d' => exact ⟨written, d', rfl⟩
  | error e d' => simp [run] at passed

theorem writeReports_sideBySide_shared : ∃ written d',
    (sharedReports.map (·.packetId)).Nodup ∧
      settings.writeReports sharedReports bareDisk = .ok written d' ∧
      settings.SideBySide sharedReports bareDisk written d' := by
  have distinct : (sharedReports.map (·.packetId)).Nodup := by decide
  obtain ⟨written, d', run⟩ := exists_written_sharedReports
  exact ⟨written, d', distinct, run, writeReports_sideBySide distinct run⟩

theorem writeReports_astray : ∃ written d',
    settings.writeReports sharedReports bareDisk = .ok written d' ∧
      (sharedReports.map (·.packetId)).Nodup ∧
      (∃ a ∈ written, ∃ content, d'.read a.reportPath = .ok content ∧
        a.reportHash ≠ Artifacts.hash content) ∧
      ∃ a ∈ written, ∃ place, d'.resolve a.reportPath = .ok place ∧
        ¬ bareDisk.placeOf settings.reportRoot <+: place := by
  have distinct : (sharedReports.map (·.packetId)).Nodup := by decide
  obtain ⟨written, d', run⟩ := exists_written_sharedReports
  obtain ⟨rfl, steps⟩ := written_of_writeReports run
  have members : emptyReport "P".toList ∈ sharedReports ∧ emptyReport "./P".toList ∈ sharedReports ∧
      emptyReport "../Q".toList ∈ sharedReports := by simp [sharedReports]
  obtain ⟨-, first, -⟩ := steps.told members.1
  obtain ⟨-, second, -⟩ := steps.told members.2.1
  obtain ⟨-, third, -⟩ := steps.told members.2.2
  have shared : settings.reportPlace bareDisk (emptyReport "./P".toList) =
      settings.reportPlace bareDisk (emptyReport "P".toList) := by decide +kernel
  have apart : settings.reportPlace bareDisk (emptyReport "../Q".toList) ≠
      settings.reportPlace bareDisk (emptyReport "./P".toList) := by decide +kernel
  have run' : settings.Written
      ([emptyReport "P".toList] ++ emptyReport "./P".toList :: [emptyReport "../Q".toList])
      bareDisk d' :=
    steps
  have found := (run'.read_iff distinct).mpr (by simpa using apart)
  rw [Disk.read_eq_ok_iff second, shared, ← Disk.read_eq_ok_iff first] at found
  refine ⟨_, d', run, distinct, ?_, ?_⟩
  · exact ⟨_, List.mem_map_of_mem members.1, _, found, by decide +kernel⟩
  · exact ⟨_, List.mem_map_of_mem members.2.2, _, third, by decide +kernel⟩

end Shared

end PacketConfig

end FormulaMigration
