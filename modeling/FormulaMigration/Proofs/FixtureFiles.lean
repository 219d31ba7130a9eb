import FormulaMigration.Packet.Suite
import FormulaMigration.Proofs.Disk
import FormulaMigration.Proofs.Ordering
import Mathlib.Data.List.Lex
import Mathlib.Data.List.Perm.Basic

namespace FormulaMigration

namespace Folder

variable {f f' : Folder} {name : Name} {names : List Name} {p : Path}

def Proper : Folder → Prop
  | empty => True
  | file name _ rest => Path.Plain name ∧ rest.find? name = none ∧ rest.Proper
  | folder name inner rest =>
    Path.Plain name ∧ rest.find? name = none ∧ inner.Proper ∧ rest.Proper

instance decidableProper : (f : Folder) → Decidable f.Proper
  | empty => isTrue trivial
  | file name _ rest =>
    have := decidableProper rest
    inferInstanceAs (Decidable (Path.Plain name ∧ rest.find? name = none ∧ rest.Proper))
  | folder name inner rest =>
    have := decidableProper inner
    have := decidableProper rest
    inferInstanceAs
      (Decidable (Path.Plain name ∧ rest.find? name = none ∧ inner.Proper ∧ rest.Proper))

def IsFixture (f : Folder) (names : List Name) : Prop :=
  (∃ content, f.look? names = some (some content)) ∧
    ∃ front stem, stem ≠ [] ∧ names = front ++ [stem ++ ".json".toList]

theorem at?_concat {place : List Name} {inner : Folder} (h : f.at? place = some (.folder inner)) :
    f.at? (place ++ [name]) = inner.find? name := by
  induction place generalizing f with
  | nil =>
    obtain rfl : f = inner := by simpa [at?] using h
    rw [List.nil_append, at?]
    cases f.find? name with
    | none => rfl
    | some entry => cases entry <;> rfl
  | cons first place ih =>
    rw [List.cons_append, at?]
    rw [at?] at h
    cases found : f.find? first with
    | none => simp [found] at h
    | some entry =>
      rw [found] at h
      cases entry with
      | folder inner' => exact ih h
      | file content =>
        dsimp only at h
        split_ifs at h
        cases h

theorem isFixtureName_iff :
    isFixtureName name ↔ ∃ stem, stem ≠ [] ∧ name = stem ++ ".json".toList := by
  rw [isFixtureName, decide_eq_true_eq, Path.extensionOf?_eq_some_iff]
  exact and_iff_right (by decide)

theorem isFixture_iff :
    f.IsFixture names ↔ (∃ content, f.look? names = some (some content)) ∧
      ∃ name, names.getLast? = some name ∧ isFixtureName name := by
  rw [IsFixture]
  apply and_congr_right'
  constructor
  · rintro ⟨front, stem, filled, rfl⟩
    exact ⟨_, List.getLast?_concat, isFixtureName_iff.mpr ⟨stem, filled, rfl⟩⟩
  · rintro ⟨name, last, fixture⟩
    obtain ⟨front, rfl⟩ := List.getLast?_eq_some_iff.mp last
    obtain ⟨stem, filled, rfl⟩ := isFixtureName_iff.mp fixture
    exact ⟨front, stem, filled, rfl⟩

theorem not_isFixture_nil : ¬ f.IsFixture [] := by
  rintro ⟨⟨content, look⟩, -⟩
  simp [look?_nil] at look

theorem isFixture_congr (same : f'.find? name = f.find? name) :
    f'.IsFixture (name :: names) ↔ f.IsFixture (name :: names) := by
  rw [IsFixture, IsFixture, look?_cons, look?_cons, same]

theorem not_isFixture (h : f.find? name = none) : ¬ f.IsFixture (name :: names) := by
  rintro ⟨⟨content, look⟩, -⟩
  rw [look?_cons, h] at look
  cases look

theorem isFixture_file {content : Bytes} (h : f.find? name = some (.file content)) :
    f.IsFixture (name :: names) ↔ names = [] ∧ isFixtureName name := by
  rw [isFixture_iff, look?_cons, h]
  by_cases last : names = [] <;> simp [last, Entry.look?]

theorem isFixture_folder {inner : Folder} (h : f.find? name = some (.folder inner)) :
    f.IsFixture (name :: names) ↔ inner.IsFixture names := by
  rw [isFixture_iff, isFixture_iff, look?_cons, h, Option.bind_some, Entry.look?]
  cases names with
  | nil => simp [look?_nil]
  | cons n names => rw [List.getLast?_cons_cons]

theorem mem_fixtureNames (proper : f.Proper) : names ∈ f.fixtureNames ↔ f.IsFixture names := by
  induction f generalizing names with
  | empty =>
    cases names with
    | nil => simp [fixtureNames, not_isFixture_nil]
    | cons m ms => simp [fixtureNames, not_isFixture (f := empty) rfl]
  | file n content rest ih =>
    obtain ⟨-, fresh, proper⟩ := proper
    rw [fixtureNames]
    cases names with
    | nil => split_ifs <;> simp [ih proper, not_isFixture_nil]
    | cons m ms =>
      by_cases own : n = m
      · subst own
        have here : (file n content rest).find? n = some (.file content) := if_pos rfl
        rw [isFixture_file here]
        split_ifs with fixture <;> simp [ih proper, not_isFixture fresh, fixture]
      · have beyond : (file n content rest).find? m = rest.find? m := if_neg own
        rw [isFixture_congr beyond]
        split_ifs <;> simp [ih proper, Ne.symm own]
  | folder n inner rest ihi ihr =>
    obtain ⟨-, fresh, properi, proper⟩ := proper
    rw [fixtureNames, List.mem_append, ihr proper]
    cases names with
    | nil => simp [not_isFixture_nil]
    | cons m ms =>
      by_cases own : n = m
      · subst own
        have here : (folder n inner rest).find? n = some (.folder inner) := if_pos rfl
        rw [isFixture_folder here]
        simp [ihi properi, not_isFixture fresh]
      · have beyond : (folder n inner rest).find? m = rest.find? m := if_neg own
        rw [isFixture_congr beyond]
        simp [own]

theorem fixtureNames_nodup (proper : f.Proper) : f.fixtureNames.Nodup := by
  -- What else is listed starts with another name.
  have other {n : Name} {ms : List Name} {rest : Folder} (proper : rest.Proper)
      (fresh : rest.find? n = none) : n :: ms ∉ rest.fixtureNames := by
    rw [mem_fixtureNames proper]
    exact not_isFixture fresh
  induction f with
  | empty => exact List.nodup_nil
  | file n content rest ih =>
    obtain ⟨-, fresh, proper⟩ := proper
    rw [fixtureNames]
    split_ifs
    · exact List.nodup_cons.mpr ⟨other proper fresh, ih proper⟩
    · exact ih proper
  | folder n inner rest ihi ihr =>
    obtain ⟨-, fresh, properi, proper⟩ := proper
    have apart : (inner.fixtureNames.map (n :: ·)).Disjoint rest.fixtureNames := by
      intro names inside outside
      obtain ⟨ms, -, rfl⟩ := List.mem_map.mp inside
      exact other proper fresh outside
    exact ((ihi properi).map (List.cons_injective)).append (ihr proper) apart

theorem plain_of_mem_fixtureNames (proper : f.Proper) (mem : names ∈ f.fixtureNames) :
    ∀ name ∈ names, Path.Plain name := by
  induction f generalizing names with
  | empty => cases mem
  | file n content rest ih =>
    obtain ⟨plain, -, proper⟩ := proper
    rw [fixtureNames] at mem
    split_ifs at mem
    · rcases List.mem_cons.mp mem with rfl | mem
      · simpa using plain
      · exact ih proper mem
    · exact ih proper mem
  | folder n inner rest ihi ihr =>
    obtain ⟨plain, -, properi, proper⟩ := proper
    rcases List.mem_append.mp mem with mem | mem
    · obtain ⟨ms, below, rfl⟩ := List.mem_map.mp mem
      exact List.forall_mem_cons.mpr ⟨plain, ihi properi below⟩
    · exact ihr proper mem

def entryNames : Folder → List Name
  | empty => []
  | file name _ rest | folder name _ rest => name :: rest.entryNames

def fixturesIn (p : Path) : Folder → List Path
  | empty => []
  | file name _ rest =>
    if isFixtureName name then Path.join p name :: rest.fixturesIn p else rest.fixturesIn p
  | folder _ _ rest => rest.fixturesIn p

def fixturesBelow (p : Path) : Folder → List Path
  | empty => []
  | file _ _ rest => rest.fixturesBelow p
  | folder name inner rest =>
    rest.fixturesBelow p ++
      (inner.fixturesIn (Path.join p name) ++ inner.fixturesBelow (Path.join p name))

theorem fixtures_perm (p : Path) (f : Folder) :
    (f.fixturesIn p ++ f.fixturesBelow p).Perm (f.fixtureNames.map (PacketConfig.pathTo p)) := by
  induction f generalizing p with
  | empty => exact .refl _
  | file n content rest ih =>
    rw [fixturesIn, fixturesBelow, fixtureNames]
    split_ifs
    · exact (ih p).cons _
    · exact ih p
  | folder n inner rest ihi ihr =>
    rw [fixturesIn, fixturesBelow, fixtureNames, List.map_append, List.map_map, ← List.append_assoc]
    exact List.perm_append_comm.trans ((ihi (Path.join p n)).append (ihr p))

end Folder

namespace PacketConfig

variable {p : Path} {names names' : List Name}

theorem isAbsolute_pathTo (plain : ∀ name ∈ names, Path.Plain name) :
    Path.isAbsolute (pathTo p names) = Path.isAbsolute p := by
  induction names generalizing p with
  | nil => rfl
  | cons name names ih =>
    obtain ⟨plain, others⟩ := List.forall_mem_cons.mp plain
    exact (ih others).trans (Path.isAbsolute_join plain.not_isAbsolute p)

theorem components_pathTo (plain : ∀ name ∈ names, Path.Plain name) :
    Path.components (pathTo p names) = Path.components p ++ names.map .into := by
  induction names generalizing p with
  | nil => simp [pathTo]
  | cons name names ih =>
    obtain ⟨plain, others⟩ := List.forall_mem_cons.mp plain
    rw [pathTo, List.foldl_cons, ← pathTo, ih others, Path.components_join plain]
    simp

theorem lex_into (le : Path.namesLe names names') (other : names ≠ names') :
    List.Lex Step.Before (names.map .into) (names'.map .into) := by
  induction names generalizing names' with
  | nil =>
    obtain ⟨name, more, rfl⟩ := List.exists_cons_of_ne_nil other.symm
    exact .nil
  | cons name names ih =>
    cases names' with
    | nil => simp [Path.namesLe] at le
    | cons name' names' =>
      by_cases same : name = name'
      · subst same
        exact .cons (ih (by simpa [Path.namesLe] using le) (by simpa using other))
      · exact .rel (.names (by simpa [Path.namesLe, same] using le) same)

theorem before_pathTo (plain : ∀ name ∈ names, Path.Plain name)
    (plain' : ∀ name ∈ names', Path.Plain name) (le : Path.namesLe names names')
    (other : names ≠ names') : Path.Before (pathTo p names) (pathTo p names') := by
  constructor
  · rw [isAbsolute_pathTo plain, isAbsolute_pathTo plain']
  · rw [components_pathTo plain, components_pathTo plain']
    exact List.Lex.append_left _ (lex_into le other) _

end PacketConfig

namespace Disk

variable {d : Disk} {p : Path} {f : Folder} {name : Name} {place : List Name}
  {names : List Name} {stack found : List Path} {result : Except FileError (List Path)}

theorem resolve_join (plain : Path.Plain name) (h : d.resolve p = .ok place)
    (folder : d.look? place = some none) :
    d.resolve (Path.join p name) = .ok (place ++ [name]) := by
  obtain ⟨way, -, walked, joined⟩ := exists_way d p
  obtain ⟨start, into⟩ := joined name plain.not_isAbsolute
  rw [resolve, if_neg (by simpa using Path.join_ne_nil plain p), start, into, plain.steps_eq,
    walk_append, walked place h]
  exact walk_cons.mpr ⟨folder, rfl⟩

theorem list_eq_ok_iff : d.list p = .ok f ↔ d.entry? p = some (.folder f) := by
  rw [list, entry?]
  cases d.resolve p with
  | error fault => simp [bind, Except.bind]
  | ok place =>
    cases stands : d.at? place with
    | none => simp [bind, Except.bind, stands]
    | some entry => cases entry <;> simp [bind, Except.bind, stands]

theorem read_of_entry? {content : Bytes} (h : d.entry? p = some (.file content)) :
    d.read p = .ok content := by
  rw [ entry?] at h
  cases reached : d.resolve p with
  | error fault => simp [reached] at h
  | ok place =>
    rw [reached] at h
    exact (read_eq_ok_iff reached).mpr (file?_eq_some_iff.mpr h)

theorem entry?_join (plain : Path.Plain name) (h : d.list p = .ok f) :
    d.entry? (Path.join p name) = f.find? name := by
  rw [list_eq_ok_iff, entry?] at h
  cases reached : d.resolve p with
  | error fault => simp [reached] at h
  | ok place =>
    rw [reached] at h
    dsimp only at h
    have folder : d.look? place = some none := look?_eq_some_none_iff.mpr ⟨f, h⟩
    rw [ entry?, resolve_join plain reached folder]
    exact Folder.at?_concat h

theorem entry?_pathTo (plain : ∀ name ∈ names, Path.Plain name) (h : d.list p = .ok f)
    {entry : Entry} (stands : f.at? names = some entry) :
    d.entry? (PacketConfig.pathTo p names) = some entry := by
  induction names generalizing p f with
  | nil => exact Option.some.inj stands ▸ list_eq_ok_iff.mp h
  | cons name names ih =>
    obtain ⟨plain, others⟩ := List.forall_mem_cons.mp plain
    have first := entry?_join plain h
    rw [Folder.at?] at stands
    rw [PacketConfig.pathTo, List.foldl_cons, ← PacketConfig.pathTo]
    cases found : f.find? name with
    | none => simp [found] at stands
    | some entry' =>
      rw [found] at first stands
      cases entry' with
      | folder inner => exact ih others (list_eq_ok_iff.mpr first) stands
      | file content =>
        dsimp only at stands
        split_ifs at stands with last
        obtain rfl := Option.some.inj stands
        rw [last]
        exact first

def isFolderAt (d : Disk) (p : Path) : Bool :=
  match d.entry? p with
  | some (.folder _) => true
  | _ => false

def foldersAt (d : Disk) (p : Path) (f : Folder) : List Path :=
  (f.entryNames.map (Path.join p)).filter d.isFolderAt

def fixturesAt (d : Disk) (p : Path) (f : Folder) : List Path :=
  (f.entryNames.map (Path.join p)).filter fun q =>
    !d.isFolderAt q && Path.extension? q = some "json".toList

inductive Searches (d : Disk) : (stack found : List Path) → Except FileError (List Path) → Prop
  | done {found : List Path} : Searches d [] found (.ok found)
  | refused {p : Path} {stack found : List Path} {fault : FileError}
      (h : d.list p = .error fault) : Searches d (p :: stack) found (.error fault)
  | visited {p : Path} {stack found : List Path} {f : Folder}
      {result : Except FileError (List Path)} (h : d.list p = .ok f)
      (rest : Searches d ((d.foldersAt p f).reverse ++ stack) (found ++ d.fixturesAt p f) result) :
      Searches d (p :: stack) found result

theorem searches_nil_iff : d.Searches [] found result ↔ result = .ok found := by
  constructor
  · rintro ⟨⟩
    rfl
  · rintro rfl
    exact .done

theorem searches_cons_iff (h : d.list p = .ok f) :
    d.Searches (p :: stack) found result ↔
      d.Searches ((d.foldersAt p f).reverse ++ stack) (found ++ d.fixturesAt p f) result := by
  constructor
  · intro searches
    cases searches with
    | refused refused => cases h.symm.trans refused
    | visited visited rest =>
      obtain rfl := Except.ok.inj (h.symm.trans visited)
      exact rest
  · exact .visited h

def Shows (d : Disk) (p : Path) : Folder → Prop
  | .empty => True
  | .file name content rest =>
    Path.Plain name ∧ d.entry? (Path.join p name) = some (.file content) ∧ d.Shows p rest
  | .folder name inner rest =>
    Path.Plain name ∧ d.entry? (Path.join p name) = some (.folder inner) ∧
      d.Shows (Path.join p name) inner ∧ d.Shows p rest

theorem shows_of_find (proper : f.Proper)
    (finds : ∀ name, Path.Plain name → f.find? name ≠ none →
      d.entry? (Path.join p name) = f.find? name) :
    d.Shows p f := by
  -- The names of the entries behind the first are others than its name.
  have behind {n name : Name} {rest : Folder} (fresh : rest.find? n = none)
      (h : rest.find? name ≠ none) : n ≠ name := by
    rintro rfl
    exact h fresh
  induction f generalizing p with
  | empty => trivial
  | file n content rest ih =>
    obtain ⟨plain, fresh, proper⟩ := proper
    refine ⟨plain, ?_, ih proper fun name plain' h => ?_⟩
    · simpa [Folder.find?] using finds n plain
    · simpa [Folder.find?, behind fresh h, h] using finds name plain'
  | folder n inner rest ihi ihr =>
    obtain ⟨plain, fresh, properi, proper⟩ := proper
    have here : d.entry? (Path.join p n) = some (.folder inner) := by
      simpa [Folder.find?] using finds n plain
    refine ⟨plain, here, ihi properi fun name plain' _ => ?_, ihr proper fun name plain' h => ?_⟩
    · exact entry?_join plain' (list_eq_ok_iff.mpr here)
    · simpa [Folder.find?, behind fresh h, h] using finds name plain'

theorem shows_of_list (proper : f.Proper) (h : d.list p = .ok f) : d.Shows p f :=
  shows_of_find proper fun _ plain _ => entry?_join plain h

theorem fixturesAt_eq (shows : d.Shows p f) : d.fixturesAt p f = f.fixturesIn p := by
  have named {name : Name} (plain : Path.Plain name) :
      Path.extension? (Path.join p name) = Path.extensionOf? name := by
    rw [Path.extension?, Path.fileName?_join plain]
    rfl
  induction f with
  | empty => rfl
  | file n content rest ih =>
    obtain ⟨plain, here, shows⟩ := shows
    rw [Folder.fixturesIn, ← ih shows, fixturesAt, Folder.entryNames, List.map_cons,
      List.filter_cons, ← fixturesAt]
    simp [isFolderAt, here, named plain, Folder.isFixtureName]
  | folder n inner rest _ ih =>
    obtain ⟨-, here, -, shows⟩ := shows
    rw [Folder.fixturesIn, ← ih shows, fixturesAt, Folder.entryNames, List.map_cons,
      List.filter_cons, ← fixturesAt]
    simp [isFolderAt, here]

theorem searches_folder_iff (shows : d.Shows p f) :
    d.Searches ((d.foldersAt p f).reverse ++ stack) found result ↔
      d.Searches stack (found ++ f.fixturesBelow p) result := by
  induction f generalizing p stack found with
  | empty =>
    rw [Folder.fixturesBelow, List.append_nil]
    rfl
  | file n content rest ih =>
    obtain ⟨-, here, shows⟩ := shows
    have skipped : d.foldersAt p (.file n content rest) = d.foldersAt p rest := by
      simp [foldersAt, Folder.entryNames, isFolderAt, here]
    rw [skipped, Folder.fixturesBelow, ih shows]
  | folder n inner rest ihi ihr =>
    obtain ⟨-, here, inside, shows⟩ := shows
    have pushed : d.foldersAt p (.folder n inner rest) =
        Path.join p n :: d.foldersAt p rest := by
      simp [foldersAt, Folder.entryNames, isFolderAt, here]
    -- The rest of the folder was pushed later, so it is searched first and the first folder last.
    rw [pushed, List.reverse_cons, List.append_assoc, List.singleton_append, ihr shows,
      searches_cons_iff (list_eq_ok_iff.mpr here), ihi inside, fixturesAt_eq inside,
      Folder.fixturesBelow]
    simp only [List.append_assoc]

end Disk

namespace Folder

variable {f f' : Folder}

def fixturePlaces (f : Folder) : List (List Name) :=
  f.fixtureNames.mergeSort Path.namesLe

theorem mem_fixturePlaces {names : List Name} (proper : f.Proper) :
    names ∈ f.fixturePlaces ↔ f.IsFixture names := by
  rw [fixturePlaces, List.mem_mergeSort, mem_fixtureNames proper]

theorem fixturePlaces_nodup (proper : f.Proper) : f.fixturePlaces.Nodup :=
  (List.mergeSort_perm _ _).nodup_iff.mpr (fixtureNames_nodup proper)

theorem fixturePlaces_pairwise (f : Folder) : f.fixturePlaces.Pairwise (Path.namesLe · ·) :=
  List.pairwise_mergeSort Path.namesLe_trans Path.namesLe_total _

theorem fixturePlaces_eq {places : List (List Name)} (perm : places.Perm f.fixtureNames)
    (sorted : places.Pairwise (Path.namesLe · ·)) : f.fixturePlaces = places :=
  ((List.mergeSort_perm _ _).trans perm.symm).eq_of_pairwise
    (fun _ _ _ _ => Path.namesLe_antisymm) (fixturePlaces_pairwise f) sorted

theorem fixturePlaces_congr (proper : f.Proper) (proper' : f'.Proper)
    (same : ∀ place, f'.look? place = f.look? place) : f'.fixturePlaces = f.fixturePlaces := by
  have members (names : List Name) : names ∈ f.fixturePlaces ↔ names ∈ f'.fixtureNames := by
    rw [mem_fixturePlaces proper, mem_fixtureNames proper', IsFixture, IsFixture, same]
  have perm : f.fixturePlaces.Perm f'.fixtureNames :=
    (List.perm_ext_iff_of_nodup (fixturePlaces_nodup proper) (fixtureNames_nodup proper')).mpr
      members
  exact fixturePlaces_eq perm (fixturePlaces_pairwise f)

end Folder

namespace PacketConfig

section Discovery

variable [DiskFaults] {c : PacketConfig} {d : Disk} {f : Folder}

structure Discovers (c : PacketConfig) (d : Disk) (f : Folder) (paths : List Path) : Prop where
  given : c.fixturePaths d = .ok paths
  searched : ∃ found, paths.Perm found ∧
    ∀ result, d.Searches [c.packetRoot] [] result ↔ result = .ok found
  files : ∃ places : List (List Name), places.Nodup ∧ (∀ names, names ∈ places ↔ f.IsFixture names) ∧
    paths = places.map (pathTo c.packetRoot)
  ordered : paths.Pairwise Path.Before
  read : ∀ names content, f.IsFixture names → f.look? names = some (some content) →
    d.read (pathTo c.packetRoot names) = .ok content

theorem fixturePaths_eq (shown : d.exists? c.packetRoot) (h : d.list c.packetRoot = .ok f) :
    c.fixturePaths d = .ok (f.fixturePlaces.map (pathTo c.packetRoot)) := by
  rw [fixturePaths, if_pos shown, h]
  rfl

omit [DiskFaults] in
theorem searches_packetRoot (proper : f.Proper) (h : d.list c.packetRoot = .ok f)
    (result : Except FileError (List Path)) :
    d.Searches [c.packetRoot] [] result ↔
      result = .ok (f.fixturesIn c.packetRoot ++ f.fixturesBelow c.packetRoot) := by
  have shows := Disk.shows_of_list proper h
  rw [Disk.searches_cons_iff h, Disk.searches_folder_iff shows, Disk.searches_nil_iff,
    Disk.fixturesAt_eq shows, List.nil_append]

theorem discovers_fixturePlaces (proper : f.Proper) (shown : d.exists? c.packetRoot)
    (h : d.list c.packetRoot = .ok f) :
    c.Discovers d f (f.fixturePlaces.map (pathTo c.packetRoot)) where
  given := fixturePaths_eq shown h
  searched := by
    refine ⟨_, ?_, searches_packetRoot proper h⟩
    exact ((List.mergeSort_perm _ _).map _).trans (Folder.fixtures_perm _ f).symm
  files := ⟨_, Folder.fixturePlaces_nodup proper, fun _ => Folder.mem_fixturePlaces proper, rfl⟩
  ordered := by
    have plain : ∀ names ∈ f.fixturePlaces, ∀ name ∈ names, Path.Plain name := fun names mem =>
      Folder.plain_of_mem_fixtureNames proper (List.mem_mergeSort.mp mem)
    rw [List.pairwise_map]
    exact ((Folder.fixturePlaces_pairwise f).and (Folder.fixturePlaces_nodup proper)).imp_of_mem
      fun mem mem' before => before_pathTo (plain _ mem) (plain _ mem') before.1 before.2
  read := by
    intro names content fixture look
    have plain :=
      Folder.plain_of_mem_fixtureNames proper ((Folder.mem_fixtureNames proper).mpr fixture)
    apply Disk.read_of_entry?
    apply Disk.entry?_pathTo plain h
    rw [Folder.look?] at look
    obtain ⟨entry, stands, content?⟩ := Option.map_eq_some_iff.mp look
    cases entry with
    | folder inner => cases content?
    | file content' =>
      obtain rfl := Option.some.inj content?
      exact stands

/-- Without a folder of packets no files are found. Below it each file that can hold a fixture is found
once, in the order of paths, and which order the folders list their entries in does not matter. -/
theorem fixturePaths_discovers (c : PacketConfig) (d : Disk) :
    (d.exists? c.packetRoot = false → c.fixturePaths d = .ok []) ∧
      ∀ f, d.exists? c.packetRoot → d.list c.packetRoot = .ok f → f.Proper →
        ∃ paths, c.Discovers d f paths ∧
          ∀ d' f', d'.exists? c.packetRoot → d'.list c.packetRoot = .ok f' → f'.Proper →
            (∀ place, f'.look? place = f.look? place) → c.Discovers d' f' paths := by
  constructor
  · intro missing
    rw [fixturePaths, missing]
    rfl
  · intro f shown h proper
    refine ⟨_, discovers_fixturePlaces proper shown h, fun d' f' shown' h' proper' same => ?_⟩
    rw [← Folder.fixturePlaces_congr proper proper' same]
    exact discovers_fixturePlaces proper' shown' h'

end Discovery

section Nested

-- A folder with the name of a fixture is entered, and a file that is named `.json` is none. As texts
-- the paths would have another order: `-` comes before `/`.

def nestedSettings : PacketConfig :=
  ⟨"fixtures".toList, "reports".toList, true⟩

def innerFolder : Folder :=
  .folder "x.json".toList (.file "b.json".toList [] .empty) (.file ".json".toList []
    (.folder "a-b".toList (.file "c.json".toList [] .empty) .empty))

def lastFolder : Folder :=
  .file "c.json".toList [] (.file "notes.txt".toList [] .empty)

def packetDisk (f : Folder) : Disk :=
  ⟨.folder "fixtures".toList (.folder "packets".toList f .empty) .empty, []⟩

def nestedPlaces : List (List Name) :=
  [[['a'], "c.json".toList], ["a-b".toList, "c.json".toList], ["x.json".toList, "b.json".toList]]

theorem nestedPlaces_perm :
    nestedPlaces.Perm (Folder.folder ['a'] lastFolder innerFolder).fixtureNames := by
  decide

def nestedPaths : List Path :=
  ["fixtures/packets/a/c.json".toList, "fixtures/packets/a-b/c.json".toList,
    "fixtures/packets/x.json/b.json".toList]

theorem fixturePaths_discovers_nested :
    nestedSettings.fixturePaths ⟨.empty, []⟩ = .ok [] ∧
      nestedSettings.Discovers (packetDisk (.folder ['a'] lastFolder innerFolder))
        (.folder ['a'] lastFolder innerFolder) nestedPaths ∧
      nestedSettings.Discovers (packetDisk (innerFolder.set ['a'] (.folder lastFolder)))
        (innerFolder.set ['a'] (.folder lastFolder)) nestedPaths := by
  have proper : (Folder.folder ['a'] lastFolder innerFolder).Proper := by decide
  have proper' : (innerFolder.set ['a'] (.folder lastFolder)).Proper := by decide
  have same (place : List Name) : (innerFolder.set ['a'] (.folder lastFolder)).look? place =
      (Folder.folder ['a'] lastFolder innerFolder).look? place := by
    cases place with
    | nil => rfl
    | cons name place =>
      rw [Folder.look?_cons, Folder.look?_cons, Folder.find?_set]
      rfl
  obtain ⟨paths, discovers, others⟩ := (fixturePaths_discovers nestedSettings
    (packetDisk (.folder ['a'] lastFolder innerFolder))).2 _ (by decide +kernel) rfl proper
  have known : nestedSettings.fixturePaths (packetDisk (.folder ['a'] lastFolder innerFolder)) =
      .ok nestedPaths := by
    rw [fixturePaths_eq (by decide +kernel) rfl]
    exact congrArg (fun places => Except.ok (places.map (pathTo nestedSettings.packetRoot)))
      (Folder.fixturePlaces_eq nestedPlaces_perm (by decide))
  obtain rfl := Except.ok.inj (discovers.given.symm.trans known)
  exact ⟨(fixturePaths_discovers nestedSettings ⟨.empty, []⟩).1 rfl, discovers,
    others _ _ (by decide +kernel) rfl proper' same⟩

end Nested

end PacketConfig

end FormulaMigration
