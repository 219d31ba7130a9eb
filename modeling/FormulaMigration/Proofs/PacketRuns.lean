import FormulaMigration.Packet.Suite
import FormulaMigration.Proofs.Bind
import FormulaMigration.Proofs.Ordering
import Mathlib.Algebra.BigOperators.Group.List.Basic
import Mathlib.Algebra.GroupWithZero.Nat

namespace FormulaMigration

namespace PacketReport

structure Counted (r : PacketReport) : Prop where
  outcomes : r.passed + r.failed = r.fixtureCount
  results : r.fixtureCount = r.results.length
  failures : r.failed = r.results.countP (!·.passed)

theorem ofFixtures_counted (suite : Text) (packetId : Option Text) (fixtures : List Fixture) :
    (ofFixtures suite packetId fixtures).Counted := by
  refine ⟨?_, rfl, rfl⟩
  have fewer : (ofFixtures suite packetId fixtures).failed ≤ (fixtures.map Fixture.run).length :=
    List.countP_le_length
  exact Nat.sub_add_cancel fewer

/-- The reports of some packets in the order of their ids, among which the results of a report are
divided. Each packet keeps the order of its results. -/
structure Divided (all : PacketReport) (reports : List PacketReport) : Prop where
  ascending : ∃ ids : List Text, reports.map (·.packetId) = ids.map some ∧
    ids.Pairwise fun i j => Text.le i j ∧ i ≠ j
  parts : ∀ r ∈ reports, r.results = all.results.filter (some ·.packetId = r.packetId)
  whole : (reports.flatMap (·.results)).Perm all.results
  fixtureCount : (reports.map (·.fixtureCount)).sum = all.fixtureCount
  passed : (reports.map (·.passed)).sum = all.passed
  failed : (reports.map (·.failed)).sum = all.failed

variable {reports : List PacketReport}

theorem sum_fixtureCount (counted : ∀ r ∈ reports, r.Counted) :
    (reports.map (·.fixtureCount)).sum = (reports.flatMap (·.results)).length := by
  rw [List.length_flatMap, List.map_congr_left fun r hr => (counted r hr).results]

theorem sum_failed (counted : ∀ r ∈ reports, r.Counted) :
    (reports.map (·.failed)).sum = (reports.flatMap (·.results)).countP (!·.passed) := by
  rw [List.countP_flatMap, List.map_congr_left fun r hr => (counted r hr).failures]
  rfl

theorem sum_passed (counted : ∀ r ∈ reports, r.Counted) :
    (reports.map (·.passed)).sum + (reports.map (·.failed)).sum =
      (reports.map (·.fixtureCount)).sum := by
  rw [← List.sum_map_add, List.map_congr_left fun r hr => (counted r hr).outcomes]

end PacketReport

namespace PacketConfig

section Groups

variable {fixtures : List Fixture} {id : Text}

theorem mem_packetIds : id ∈ packetIds fixtures ↔ ∃ f ∈ fixtures, f.packetId = id := by
  rw [packetIds, List.mem_mergeSort, List.mem_eraseDups, List.mem_map]

theorem packetIds_nodup (fixtures : List Fixture) : (packetIds fixtures).Nodup :=
  List.Nodup.mergeSort (nodup_eraseDups _)

theorem packetIds_ascending (fixtures : List Fixture) :
    (packetIds fixtures).Pairwise fun i j => Text.le i j ∧ i ≠ j := by
  have sorted : (packetIds fixtures).Pairwise fun i j => Text.le i j :=
    List.pairwise_mergeSort Text.le_trans Text.le_total _
  exact sorted.and (packetIds_nodup fixtures)

def reportOf (fixtures : List Fixture) (id : Text) : PacketReport :=
  .ofFixtures (suiteOf id) (some id) (fixtures.filter (·.packetId = id))

def reportsOf (fixtures : List Fixture) : List PacketReport :=
  (packetIds fixtures).map (reportOf fixtures)

theorem reportsOf_counted (fixtures : List Fixture) : ∀ r ∈ reportsOf fixtures, r.Counted := by
  intro r hr
  obtain ⟨id, -, rfl⟩ := List.mem_map.mp hr
  exact PacketReport.ofFixtures_counted _ _ _

theorem filter_reportsOf (fixtures : List Fixture) (id : Text) :
    (reportsOf fixtures).filter (·.packetId = some id) =
      if ∃ f ∈ fixtures, f.packetId = id then [reportOf fixtures id] else [] := by
  have named : (fun r : PacketReport => decide (r.packetId = some id)) ∘ reportOf fixtures =
      fun i => decide (i = id) := by
    funext i
    exact decide_eq_decide.mpr Option.some_inj
  rw [reportsOf, List.filter_map, named, filter_eq_of_nodup (packetIds_nodup fixtures)]
  simp only [mem_packetIds]
  split_ifs <;> rfl

theorem reportsOf_filter (fixtures : List Fixture) (id : Text) :
    reportsOf (fixtures.filter (·.packetId = id)) =
      if ∃ f ∈ fixtures, f.packetId = id then [reportOf fixtures id] else [] := by
  have single : (reportsOf (fixtures.filter (·.packetId = id))).filter (·.packetId = some id) =
      reportsOf (fixtures.filter (·.packetId = id)) := by
    rw [List.filter_eq_self]
    intro r hr
    obtain ⟨i, hi, rfl⟩ := List.mem_map.mp hr
    obtain ⟨f, hf, rfl⟩ := mem_packetIds.mp hi
    have own := (List.mem_filter.mp hf).2
    simpa [reportOf, PacketReport.ofFixtures] using own
  have same : (∃ f ∈ fixtures.filter (·.packetId = id), f.packetId = id) ↔
      ∃ f ∈ fixtures, f.packetId = id := by
    simp
  rw [← single, filter_reportsOf, reportOf, List.filter_filter]
  simp only [same, Bool.and_self]
  rfl

theorem reportsOf_divided (suite : Text) (fixtures : List Fixture) :
    (PacketReport.ofFixtures suite none fixtures).Divided (reportsOf fixtures) := by
  have grouped : ((packetIds fixtures).flatMap fun id =>
      fixtures.filter (·.packetId = id)).Perm fixtures :=
    flatMap_filter_perm Fixture.packetId (packetIds_nodup fixtures)
      fun f hf => mem_packetIds.mpr ⟨f, hf, rfl⟩
  have whole : ((reportsOf fixtures).flatMap (·.results)).Perm (fixtures.map Fixture.run) := by
    rw [reportsOf, List.flatMap_map]
    change ((packetIds fixtures).flatMap fun id =>
      (fixtures.filter (·.packetId = id)).map Fixture.run).Perm _
    rw [← List.map_flatMap]
    exact grouped.map _
  have all := PacketReport.ofFixtures_counted suite none fixtures
  have count := PacketReport.sum_fixtureCount (reportsOf_counted fixtures)
  have failed := PacketReport.sum_failed (reportsOf_counted fixtures)
  have passed := PacketReport.sum_passed (reportsOf_counted fixtures)
  rw [whole.length_eq] at count
  rw [whole.countP_eq] at failed
  refine ⟨⟨packetIds fixtures, ?_, packetIds_ascending fixtures⟩, ?_, whole, count, ?_, failed⟩
  · rw [reportsOf, List.map_map]
    rfl
  · intro r hr
    obtain ⟨id, -, rfl⟩ := List.mem_map.mp hr
    change (fixtures.filter (·.packetId = id)).map Fixture.run =
      (fixtures.map Fixture.run).filter (some ·.packetId = some id)
    rw [List.filter_map]
    congr 1
    apply List.filter_congr
    intro f _
    exact decide_eq_decide.mpr Option.some_inj.symm
  · have outcomes := all.outcomes
    change _ = (PacketReport.ofFixtures suite none fixtures).fixtureCount at count
    change _ = (PacketReport.ofFixtures suite none fixtures).failed at failed
    omega

end Groups

section Cases

variable [DiskFaults] {c : PacketConfig} {d : Disk}

def Lists (c : PacketConfig) (d : Disk) (files : List (List Name)) : Prop :=
  if d.exists? c.packetRoot then
    ∃ folder, d.list c.packetRoot = .ok folder ∧ files = folder.fixtureNames
  else files = []

/-- All files of fixtures, each with its fixture, in the order in which they run: by the ids of the
cases, and where these are the same by the names of the files. -/
structure Runs (c : PacketConfig) (d : Disk) (cases : List (List Name × Fixture)) : Prop where
  files : ∃ files, c.Lists d files ∧ (cases.map Prod.fst).Perm files
  loaded : ∀ k ∈ cases, loadFixture d (pathTo c.packetRoot k.1) = .ok k.2
  ordered : cases.Pairwise fun k l =>
    Text.le k.2.caseId l.2.caseId ∧ (k.2.caseId = l.2.caseId → Path.namesLe k.1 l.1)

theorem fixturePaths_ok {paths : List Path} (h : c.fixturePaths d = .ok paths) :
    ∃ files, c.Lists d files ∧ paths = (files.mergeSort Path.namesLe).map (pathTo c.packetRoot) := by
  unfold fixturePaths at h
  unfold Lists
  split_ifs at h ⊢ with stands
  · cases listed : d.list c.packetRoot with
    | error e =>
      rw [listed] at h
      cases h
    | ok folder =>
      rw [listed] at h
      exact ⟨_, ⟨folder, rfl, rfl⟩, (Except.ok.inj h).symm⟩
  · obtain rfl := Except.ok.inj h
    exact ⟨[], rfl, by simp⟩

theorem loadFixtures_ok {fixtures : List Fixture} (h : c.loadFixtures none d = .ok fixtures) :
    ∃ cases, c.Runs d cases ∧ cases.map Prod.snd = fixtures := by
  obtain ⟨paths, found, h⟩ := exists_of_bind_eq_ok h
  obtain ⟨read, loaded, h⟩ := exists_of_bind_eq_ok h
  obtain ⟨files, lists, rfl⟩ := fixturePaths_ok found
  rw [List.mapM_map] at loaded
  obtain ⟨pairs, names, rfl, known⟩ := exists_of_mapM_eq_ok loaded
  have everything : (pairs.map Prod.snd).filter (isWanted none) = pairs.map Prod.snd := by
    simp [isWanted]
  rw [everything] at h
  obtain rfl := Except.ok.inj h
  let before (k l : List Name × Fixture) : Bool := Text.le k.2.caseId l.2.caseId
  have trans : ∀ k l m, before k l → before l m → before k m := fun _ _ _ => Text.le_trans _ _ _
  have total : ∀ k l, before k l || before l k := fun _ _ => Text.le_total _ _
  refine ⟨pairs.mergeSort before, ⟨⟨files, lists, ?_⟩, ?_, ?_⟩, ?_⟩
  · have sorted := (List.mergeSort_perm pairs before).map Prod.fst
    rw [names] at sorted
    exact sorted.trans (List.mergeSort_perm files _)
  · intro k hk
    exact known k (List.mem_mergeSort.mp hk)
  · have byName : pairs.Pairwise fun k l => Path.namesLe k.1 l.1 := by
      have sorted : (files.mergeSort Path.namesLe).Pairwise fun k l => Path.namesLe k l :=
        List.pairwise_mergeSort Path.namesLe_trans Path.namesLe_total files
      rw [← names] at sorted
      exact List.pairwise_map.mp sorted
    apply ((List.pairwise_mergeSort trans total pairs).and
      (pairwise_mergeSort_ties trans total byName)).imp
    rintro k l ⟨le, ties⟩
    refine ⟨le, fun same => ties ?_⟩
    change Text.le l.2.caseId k.2.caseId
    rw [same]
    exact Text.le_refl _
  · exact List.map_mergeSort fun _ _ _ _ => rfl

theorem loadFixtures_eq_filter (packet : Option Text) :
    c.loadFixtures packet d = (c.loadFixtures none d).map (·.filter (isWanted packet)) := by
  have steps (packet : Option Text) : c.loadFixtures packet d =
      (c.fixturePaths d >>= fun paths => paths.mapM (loadFixture d)).map fun read =>
        (read.filter (isWanted packet)).mergeSort fun f g => Text.le f.caseId g.caseId := by
    rw [loadFixtures]
    cases c.fixturePaths d with
    | error e => rfl
    | ok paths =>
      change paths.mapM (loadFixture d) >>= _ = (paths.mapM (loadFixture d)).map _
      cases paths.mapM (loadFixture d) <;> rfl
  rw [steps packet, steps none]
  cases c.fixturePaths d >>= fun paths => paths.mapM (loadFixture d) with
  | error e => rfl
  | ok read =>
    have all : read.filter (isWanted none) = read := by simp [isWanted]
    have sorted := filter_mergeSort (fun f g h => Text.le_trans f.caseId g.caseId h.caseId)
      (fun f g => Text.le_total f.caseId g.caseId) (isWanted packet) read
    simp only [Except.map, all, sorted]

end Cases

/-- The ways to run packets fail together, with one error. Else the reports packet by packet divide
the cases of the report of all packets among them, and the report of one packet is the one that it
has among them, if it has a case. -/
theorem runs_agree [DiskFaults] (c : PacketConfig) (d : Disk) :
    (∃ e, c.runAll d = .error e ∧ c.runGrouped none d = .error e ∧
      ∀ id, c.runPacket id d = .error e ∧ c.runGrouped (some id) d = .error e) ∨
    ∃ cases all reports, c.Runs d cases ∧ c.runAll d = .ok all ∧
      all.results = cases.map (·.2.run) ∧ c.runGrouped none d = .ok reports ∧
      all.Divided reports ∧ (∀ r ∈ all :: reports, r.Counted) ∧
      ∀ id, ∃ r, c.runPacket id d = .ok r ∧ r.Counted ∧
        c.runGrouped (some id) d = .ok (if ∃ k ∈ cases, k.2.packetId = id then [r] else []) ∧
        c.runGrouped (some id) d = .ok (reports.filter (·.packetId = some id)) := by
  cases loaded : c.loadFixtures none d with
  | error e =>
    have fails (packet : Option Text) : c.loadFixtures packet d = .error e := by
      rw [loadFixtures_eq_filter, loaded]
      rfl
    refine .inl ⟨e, ?_, ?_, fun id => ⟨?_, ?_⟩⟩
    · rw [runAll, fails]
      rfl
    · rw [runGrouped, fails]
      rfl
    · rw [runPacket, fails]
      rfl
    · rw [runGrouped, fails]
      rfl
  | ok fixtures =>
    obtain ⟨cases, runs, rfl⟩ := loadFixtures_ok loaded
    have wanted (id : Text) : c.loadFixtures (some id) d =
        .ok ((cases.map Prod.snd).filter (·.packetId = id)) := by
      rw [loadFixtures_eq_filter, loaded]
      rfl
    have has (id : Text) : (∃ f ∈ cases.map Prod.snd, f.packetId = id) ↔
        ∃ k ∈ cases, k.2.packetId = id := by
      simp only [List.mem_map, exists_exists_and_eq_and]
    refine .inr ⟨cases, .ofFixtures allSuite none (cases.map Prod.snd),
      reportsOf (cases.map Prod.snd), runs, ?_, ?_, ?_, reportsOf_divided _ _, ?_, fun id =>
      ⟨reportOf (cases.map Prod.snd) id, ?_, PacketReport.ofFixtures_counted _ _ _, ?_, ?_⟩⟩
    · rw [runAll, loaded]
      rfl
    · exact List.map_map
    · rw [runGrouped, loaded]
      rfl
    · exact List.forall_mem_cons.mpr ⟨PacketReport.ofFixtures_counted _ _ _, reportsOf_counted _⟩
    · rw [runPacket, wanted]
      rfl
    · rw [runGrouped, wanted]
      change Except.ok (reportsOf _) = _
      rw [reportsOf_filter]
      simp only [has]
    · rw [runGrouped, wanted]
      change Except.ok (reportsOf _) = _
      rw [reportsOf_filter, filter_reportsOf]

end PacketConfig

end FormulaMigration
