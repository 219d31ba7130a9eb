import FormulaMigration.Disk
import FormulaMigration.Proofs.Bind
import FormulaMigration.Proofs.Paths

namespace FormulaMigration

namespace Entry

def content? : Entry → Option Bytes
  | file content => some content
  | folder _ => none

inductive Bare : Entry → Prop
  | file (content : Bytes) : Bare (.file content)
  | folder : Bare (.folder .empty)

end Entry

namespace Folder

def look? (f : Folder) (place : List Name) : Option (Option Bytes) :=
  (f.at? place).map Entry.content?

theorem look?_nil (f : Folder) : f.look? [] = some none := by
  rw [look?, at?]
  rfl

end Folder

def Entry.look? (entry : Entry) (place : List Name) : Option (Option Bytes) :=
  match entry with
  | file content => if place = [] then some (some content) else none
  | folder inner => inner.look? place

namespace Folder

variable {f : Folder} {place parent : List Name} {name : Name} {entry : Entry}

theorem look?_cons (f : Folder) (name : Name) (place : List Name) :
    f.look? (name :: place) = (f.find? name).bind (·.look? place) := by
  rw [look?, at?]
  cases f.find? name with
  | none => rfl
  | some entry =>
    cases entry with
    | file content =>
      dsimp only [Option.bind, Entry.look?]
      split_ifs <;> rfl
    | folder inner => rfl

theorem Entry.Bare.look? (bare : entry.Bare) (place : List Name) :
    entry.look? place = if place = [] then some entry.content? else none := by
  cases bare with
  | file content => rfl
  | folder =>
    cases place with
    | nil => exact look?_nil _
    | cons name place => exact look?_cons _ _ _

theorem look?_parent (h : f.look? (place ++ [name]) ≠ none) : f.look? place = some none := by
  induction place generalizing f with
  | nil => exact look?_nil f
  | cons first place ih =>
    rw [List.cons_append, look?_cons] at h
    rw [look?_cons]
    cases found : f.find? first with
    | none => simp [found] at h
    | some entry =>
      rw [found] at h
      cases entry with
      | file content => simp [Entry.look?] at h
      | folder inner => exact ih h

theorem look?_set (bare : entry.Bare) (free : f.look? [name] ≠ some none) (place : List Name) :
    (f.set name entry).look? place =
      if place = [name] then some entry.content? else f.look? place := by
  cases place with
  | nil => simp [look?_nil]
  | cons first place =>
    rw [look?_cons, find?_set, look?_cons]
    by_cases same : name = first
    · subst same
      rw [if_pos rfl, Option.bind_some, Entry.Bare.look? bare]
      by_cases last : place = []
      · simp [last]
      · -- Below a place that is no folder nothing stands.
        rw [look?_cons] at free
        have below : (f.find? name).bind (·.look? place) = none := by
          cases found : f.find? name with
          | none => rfl
          | some entry' =>
            cases entry' with
            | file content => simp [Entry.look?, last]
            | folder inner => simp [found, Entry.look?, look?_nil] at free
        simp [last, below]
    · simp [same, Ne.symm same]

theorem look?_modify (bare : entry.Bare) (folder : f.look? parent = some none)
    (free : f.look? (parent ++ [name]) ≠ some none) (place : List Name) :
    (f.modify (·.set name entry) parent).look? place =
      if place = parent ++ [name] then some entry.content? else f.look? place := by
  induction parent generalizing f place with
  | nil => exact look?_set bare free place
  | cons first parent ih =>
    rw [List.cons_append, look?_cons] at free
    rw [look?_cons] at folder
    cases found : f.find? first with
    | none => simp [found] at folder
    | some entry' =>
      rw [found] at free folder
      cases entry' with
      | file content =>
        simp only [Option.bind_some, Entry.look?] at folder
        split_ifs at folder
        cases folder
      | folder inner =>
        rw [modify, found]
        cases place with
        | nil => simp [look?_nil]
        | cons other place =>
          have inside := ih folder free place
          rw [look?_cons, find?_set, look?_cons]
          by_cases same : first = other
          · subst same
            rw [if_pos rfl, found]
            simpa [Entry.look?] using inside
          · simp [same, Ne.symm same]

end Folder

namespace Disk

variable {d d' : Disk} {place parent e : List Name} {name : Name} {steps : List Step}

def look? (d : Disk) (place : List Name) : Option (Option Bytes) :=
  d.root.look? place

def file? (d : Disk) (place : List Name) : Option Bytes :=
  (d.look? place).join

def SameFiles (d d' : Disk) : Prop :=
  ∀ place, d'.file? place = d.file? place

theorem SameFiles.refl (d : Disk) : SameFiles d d :=
  fun _ => rfl

theorem SameFiles.trans {d'' : Disk} (h : SameFiles d d') (h' : SameFiles d' d'') :
    SameFiles d d'' :=
  fun place => (h' place).trans (h place)

theorem look?_eq_some_none_iff :
    d.look? place = some none ↔ ∃ inner, d.at? place = some (.folder inner) := by
  rw [look?, Folder.look?, ← at?]
  cases d.at? place with
  | none => simp
  | some entry => cases entry <;> simp [Entry.content?]

theorem file?_eq_some_iff {content : Bytes} :
    d.file? place = some content ↔ d.at? place = some (.file content) := by
  rw [file?, look?, Folder.look?, ← at?]
  cases d.at? place with
  | none => simp
  | some entry => cases entry <;> simp [Entry.content?]

theorem read_eq_ok_iff {p : Path} {content : Bytes} (reached : d.resolve p = .ok place) :
    d.read p = .ok content ↔ d.file? place = some content := by
  rw [file?_eq_some_iff, read, reached]
  simp only [bind, Except.bind]
  cases d.at? place with
  | none => simp
  | some entry => cases entry <;> simp

theorem look?_setEntry {entry : Entry} (bare : entry.Bare) (folder : d.look? parent = some none)
    (free : d.look? (parent ++ [name]) ≠ some none) (place : List Name) :
    (d.setEntry (parent ++ [name]) entry).look? place =
      if place = parent ++ [name] then some entry.content? else d.look? place := by
  rw [setEntry, List.getLast?_concat, List.dropLast_concat]
  exact Folder.look?_modify bare folder free place

theorem current_setEntry (d : Disk) (place : List Name) (entry : Entry) :
    (d.setEntry place entry).current = d.current := by
  unfold setEntry
  cases place.getLast? <;> rfl

theorem walk_cons {step : Step} :
    d.walk place (step :: steps) = .ok e ↔
      d.look? place = some none ∧ d.walk (move place step) steps = .ok e := by
  rw [walk, look?_eq_some_none_iff]
  cases d.at? place with
  | none => simp
  | some entry => cases entry <;> simp

theorem walk_mono (folders : ∀ place, d.look? place = some none → d'.look? place = some none)
    (h : d.walk place steps = .ok e) : d'.walk place steps = .ok e := by
  induction steps generalizing place with
  | nil => exact h
  | cons step steps ih =>
    obtain ⟨folder, rest⟩ := walk_cons.mp h
    exact walk_cons.mpr ⟨folders place folder, ih rest⟩

theorem walk_end (filled : steps ≠ []) (h : d.walk place steps = .ok e) :
    d.look? e = some none ∨ ∃ parent name, e = parent ++ [name] ∧ d.look? parent = some none := by
  induction steps generalizing place with
  | nil => exact absurd rfl filled
  | cons step steps ih =>
    obtain ⟨folder, rest⟩ := walk_cons.mp h
    cases steps with
    | cons step' steps => exact ih (List.cons_ne_nil _ _) rest
    | nil =>
      obtain rfl := Except.ok.inj rest
      cases step with
      | here => exact .inl folder
      | into name => exact .inr ⟨place, name, rfl, folder⟩
      | up =>
        left
        rw [move]
        rcases List.eq_nil_or_concat place with rfl | ⟨parent, name, rfl⟩
        · exact folder
        · rw [List.concat_eq_append] at folder ⊢
          rw [List.dropLast_concat]
          exact Folder.look?_parent (by rw [← look?, folder]; simp)

theorem walk_of_resolve {p : Path} (h : d.resolve p = .ok place) :
    d.walk (d.start p) (Path.steps p) = .ok place := by
  unfold resolve at h
  split_ifs at h
  exact h

theorem target_ok {p : Path} (h : d.target p = .ok place) :
    d.resolve p = .ok place ∧ d.look? place ≠ some none ∧
      ∃ parent name, place = parent ++ [name] ∧ d.look? parent = some none := by
  obtain ⟨place', reached, aimed⟩ := exists_of_bind_eq_ok h
  have free : d.look? place' ≠ some none ∧ Path.hasFinalSlash p = false ∧ place' = place := by
    rw [Ne, look?_eq_some_none_iff]
    cases stands : d.at? place' with
    | none =>
      rw [stands] at aimed
      dsimp only at aimed
      split_ifs at aimed with slash
      exact ⟨by simp, by simpa using slash, Except.ok.inj aimed⟩
    | some entry =>
      rw [stands] at aimed
      cases entry with
      | folder inner => cases aimed
      | file content =>
        dsimp only at aimed
        split_ifs at aimed with slash
        exact ⟨by simp, by simpa using slash, Except.ok.inj aimed⟩
  obtain ⟨free, slashless, rfl⟩ := free
  rw [slashless] at reached
  refine ⟨reached, free, ?_⟩
  rcases walk_end (Path.steps_ne_nil p) (walk_of_resolve reached) with folder | inFolder
  · exact absurd folder free
  · exact inFolder

structure Grows (d d' : Disk) : Prop where
  current : d'.current = d.current
  folders : ∀ place, d.look? place = some none → d'.look? place = some none

theorem Grows.refl (d : Disk) : d.Grows d :=
  ⟨rfl, fun _ => id⟩

theorem Grows.trans {d'' : Disk} (h : d.Grows d') (h' : d'.Grows d'') : d.Grows d'' :=
  ⟨h'.current.trans h.current, fun place folder => h'.folders place (h.folders place folder)⟩

theorem Grows.of_look {content : Option Bytes} (current : d'.current = d.current)
    (free : d.look? place ≠ some none)
    (look : ∀ other, d'.look? other = if other = place then some content else d.look? other) :
    d.Grows d' := by
  refine ⟨current, fun other folder => ?_⟩
  rw [look, if_neg]
  · exact folder
  · rintro rfl
    exact free folder

theorem Grows.resolve {p : Path} (h : d.Grows d') (reached : d.resolve p = .ok place) :
    d'.resolve p = .ok place := by
  have walked := walk_mono h.folders (walk_of_resolve reached)
  unfold Disk.resolve at reached ⊢
  split_ifs at reached ⊢
  rw [start, h.current]
  exact walked

theorem write_look {p : Path} {content : Bytes} (h : d.write p content = .ok d') :
    d'.current = d.current ∧ ∃ place, d.resolve p = .ok place ∧ d.look? place ≠ some none ∧
      ∀ other, d'.look? other = if other = place then some (some content) else d.look? other := by
  obtain ⟨place, aimed, set⟩ := exists_of_bind_eq_ok h
  obtain rfl := Except.ok.inj set
  obtain ⟨reached, free, parent, name, rfl, folder⟩ := target_ok aimed
  exact ⟨current_setEntry d _ _, _, reached, free, look?_setEntry (.file content) folder free⟩

theorem grows_of_write {p : Path} {content : Bytes} (h : d.write p content = .ok d') :
    d.Grows d' := by
  obtain ⟨current, place, -, free, look⟩ := write_look h
  exact .of_look current free look

theorem write_ok {p : Path} {content : Bytes} (h : d.write p content = .ok d') :
    ∃ place, d'.resolve p = .ok place ∧
      ∀ other, d'.look? other = if other = place then some (some content) else d.look? other := by
  obtain ⟨-, place, reached, -, look⟩ := write_look h
  exact ⟨place, (grows_of_write h).resolve reached, look⟩

def Holds (p : Path) (content : Bytes) (d d' : Disk) : Prop :=
  ∃ place, d'.resolve p = .ok place ∧
    ∀ other, d'.file? other = if other = place then some content else d.file? other

theorem holds_of_write {p : Path} {content : Bytes} (h : d.write p content = .ok d') :
    Holds p content d d' := by
  obtain ⟨place, reached, look⟩ := write_ok h
  refine ⟨place, reached, fun other => ?_⟩
  rw [file?, look, file?]
  split_ifs <;> rfl

theorem Holds.of_sameFiles {p : Path} {content : Bytes} {d'' : Disk} (h : SameFiles d d')
    (holds : Holds p content d' d'') : Holds p content d d'' := by
  obtain ⟨place, reached, files⟩ := holds
  refine ⟨place, reached, fun other => ?_⟩
  rw [files, h]

theorem target_of_write {p : Path} {content : Bytes} {fault : FileError}
    (h : d.write p content = .error fault) : d.target p = .error fault := by
  unfold write at h
  cases aimed : d.target p with
  | error fault' =>
    rw [aimed] at h
    exact congrArg Except.error (Except.error.inj h)
  | ok place =>
    rw [aimed] at h
    cases h

/-- Where the steps of a path lead if all folders on the way are there. -/
def placeOf (d : Disk) (p : Path) : List Name :=
  (Path.steps p).foldl move (d.start p)

theorem walk_concat :
    d.walk place (steps ++ [.into name]) = .ok e ↔
      d.walk place steps = .ok (steps.foldl move place) ∧
        d.look? (steps.foldl move place) = some none ∧ e = steps.foldl move place ++ [name] := by
  induction steps generalizing place with
  | nil =>
    rw [List.nil_append, walk_cons, walk, walk, List.foldl_nil]
    simp [move, eq_comm]
  | cons step steps ih =>
    rw [List.cons_append, walk_cons, walk_cons, List.foldl_cons, ih, and_assoc]

theorem walk_append (d : Disk) (place : List Name) (steps steps' : List Step) :
    d.walk place (steps ++ steps') = d.walk place steps >>= (d.walk · steps') := by
  induction steps generalizing place with
  | nil => rfl
  | cons step steps ih =>
    rw [List.cons_append, walk, walk]
    cases d.at? place with
    | none => rfl
    | some entry =>
      cases entry with
      | file content => rfl
      | folder inner => exact ih _

theorem exists_way (d : Disk) (p : Path) :
    ∃ way, way.foldl move (d.start p) = d.placeOf p ∧
      (∀ place, d.resolve p = .ok place → d.walk (d.start p) way = .ok place) ∧
      ∀ q, ¬ Path.isAbsolute q →
        d.start (Path.join p q) = d.start p ∧ Path.steps (Path.join p q) = way ++ Path.steps q := by
  obtain ⟨way, joined, ends⟩ := Path.exists_steps_join p
  refine ⟨way, ?_, fun place reached => ?_, fun q relative => ⟨?_, joined q relative⟩⟩
  · rcases ends with same | slash
    · rw [placeOf, same]
    · rw [placeOf, slash, List.foldl_append]
      rfl
  · have walked := walk_of_resolve reached
    rcases ends with same | slash
    · rwa [← same]
    · rw [slash, walk_append] at walked
      obtain ⟨place', walked', stays⟩ := exists_of_bind_eq_ok walked
      obtain ⟨-, last⟩ := walk_cons.mp stays
      obtain rfl := Except.ok.inj last
      exact walked'
  · rw [Disk.start, Path.isAbsolute_join relative, ← Disk.start]

theorem resolve_beside {p : Path} {other : Name} (plain : Path.Plain name)
    (plain' : Path.Plain other) (h : d.resolve (Path.join p name) = .ok e) :
    e = d.placeOf p ++ [name] ∧ d.resolve (Path.join p other) = .ok (d.placeOf p ++ [other]) := by
  obtain ⟨way, place, -, joined⟩ := exists_way d p
  obtain ⟨start, into⟩ := joined name plain.not_isAbsolute
  obtain ⟨start', into'⟩ := joined other plain'.not_isAbsolute
  have walked := walk_of_resolve h
  rw [start, into, plain.steps_eq, walk_concat, place] at walked
  obtain ⟨there, folder, rfl⟩ := walked
  refine ⟨rfl, ?_⟩
  rw [resolve, if_neg (by simpa using Path.join_ne_nil plain' p), start', into', plain'.steps_eq,
    walk_concat, place]
  exact ⟨there, folder, rfl⟩

theorem placeOf_congr (h : d'.current = d.current) (p : Path) : d'.placeOf p = d.placeOf p := by
  rw [placeOf, placeOf, start, start, h]

theorem write_join_ok {p : Path} {content : Bytes} (plain : Path.Plain name)
    (h : d.write (Path.join p name) content = .ok d') :
    d'.resolve (Path.join p name) = .ok (d.placeOf p ++ [name]) ∧
      ∀ other, d'.file? other = if other = d.placeOf p ++ [name] then some content
        else d.file? other := by
  obtain ⟨place, reached, files⟩ := holds_of_write h
  obtain ⟨rfl, -⟩ := resolve_beside plain plain reached
  rw [placeOf_congr (write_look h).1] at reached files
  exact ⟨reached, files⟩

section Faults

variable [DiskFaults]

theorem makeFolder_look {start : List Name} (filled : steps ≠ [])
    (h : d.makeFolder start steps = .ok d') :
    d'.current = d.current ∧ ∃ place, d.look? place = none ∧
      ∀ other, d'.look? other = if other = place then some none else d.look? other := by
  unfold makeFolder at h
  split at h
  · cases h
  obtain ⟨place, reached, made⟩ := exists_of_bind_eq_ok h
  cases stands : d.at? place with
  | some entry =>
    rw [stands] at made
    cases made
  | none =>
    rw [stands] at made
    obtain rfl := Except.ok.inj made
    have nothing : d.look? place = none := by
      rw [look?, Folder.look?, ← at?, stands]
      rfl
    rcases walk_end filled reached with folder | ⟨parent, name, rfl, folder⟩
    · cases nothing.symm.trans folder
    · have free : d.look? (parent ++ [name]) ≠ some none := by simp [nothing]
      exact ⟨current_setEntry d _ _, _, nothing, look?_setEntry .folder folder free⟩

theorem grows_of_makeFolder {start : List Name} (filled : steps ≠ [])
    (h : d.makeFolder start steps = .ok d') : d.Grows d' := by
  obtain ⟨current, place, nothing, look⟩ := makeFolder_look filled h
  exact .of_look current (by simp [nothing]) look

theorem makeFolder_ok {start : List Name} (filled : steps ≠ [])
    (h : d.makeFolder start steps = .ok d') : SameFiles d d' := by
  obtain ⟨-, place, nothing, look⟩ := makeFolder_look filled h
  intro other
  rw [file?, file?, look]
  split_ifs with same
  · rw [same, nothing]
    rfl
  · rfl

/-- Why a file is not written, and what is left then. -/
inductive Unwritten (p : Path) (content : Bytes) (d : Disk) : FileError → Disk → Prop
  | nowhere {fault : FileError} (aimless : d.target p = .error fault) :
      Unwritten p content d fault d
  | unopened {fault : FileError}
      (refused : DiskFaults.write? d p content = some (.unopened fault)) :
      Unwritten p content d fault d
  | broken {fault : FileError} {kept : Nat} {d' : Disk}
      (refused : DiskFaults.write? d p content = some (.broken fault kept))
      (begun : d.write p (content.take kept) = .ok d') : Unwritten p content d fault d'

theorem Unwritten.left {p : Path} {content : Bytes} {fault : FileError}
    (h : Unwritten p content d fault d') :
    SameFiles d d' ∨ ∃ kept, Holds p (content.take kept) d d' := by
  cases h with
  | nowhere => exact .inl (.refl d)
  | unopened => exact .inl (.refl d)
  | broken refused begun => exact .inr ⟨_, holds_of_write begun⟩

theorem Unwritten.beside {p : Path} {content : Bytes} {fault : FileError} (plain : Path.Plain name)
    (h : Unwritten (Path.join p name) content d fault d') :
    d'.current = d.current ∧
      ∀ other, other ≠ d.placeOf p ++ [name] → d'.file? other = d.file? other := by
  cases h with
  | nowhere => exact ⟨rfl, fun _ _ => rfl⟩
  | unopened => exact ⟨rfl, fun _ _ => rfl⟩
  | broken refused begun =>
    refine ⟨(write_look begun).1, fun other apart => ?_⟩
    rw [(write_join_ok plain begun).2, if_neg apart]

section Actions

open Std.Do

set_option mvcgen.warning false

theorem makeFolders_keeps {P : Disk → Prop}
    (keeps : ∀ {d d' start steps}, steps ≠ [] → makeFolder d start steps = .ok d' → P d → P d')
    (start : List Name) (reversed : List Step) :
    ⦃fun d => ⌜P d⌝⦄
      makeFolders start reversed
    ⦃post⟨fun _ d => ⌜P d⌝, fun _ d => ⌜P d⌝⟩⦄ := by
  induction reversed with
  | nil => mvcgen [makeFolders]
  | cons last reversed ih =>
    have filled : (last :: reversed).reverse ≠ [] := by simp
    mvcgen [makeFolders, ih]
    all_goals
      rename_i holds made built
      exact keeps filled built holds

@[spec]
theorem makeFolders_spec (start : List Name) (reversed : List Step) (before : Disk) :
    ⦃fun d => ⌜SameFiles before d⌝⦄
      makeFolders start reversed
    ⦃post⟨fun _ d => ⌜SameFiles before d⌝, fun _ d => ⌜SameFiles before d⌝⟩⦄ :=
  makeFolders_keeps (fun filled made same => same.trans (makeFolder_ok filled made)) start reversed

@[spec]
theorem writeFile_spec (p : Path) (content : Bytes) (before : Disk) :
    ⦃fun d => ⌜d = before⌝⦄
      writeFile p content
    ⦃post⟨fun _ d => ⌜before.write p content = .ok d⌝,
      fun e d => ⌜Unwritten p content before e d⌝⟩⦄ := by
  mvcgen [writeFile]
  case vc1.h_1 same _ refused =>
    subst same
    exact .unopened refused
  case vc2.h_2.h_1 same _ _ refused _ begun =>
    subst same
    exact .broken refused begun
  case vc3.h_2.h_2 same _ _ _ _ failed =>
    subst same
    exact .nowhere (target_of_write failed)
  case vc4.h_3.h_1 same _ _ written =>
    subst same
    exact written
  case vc5.h_3.h_2 same _ _ failed =>
    subst same
    exact .nowhere (target_of_write failed)

theorem writeFile_ok {p : Path} {content : Bytes} (h : writeFile p content d = .ok () d') :
    d.write p content = .ok d' := by
  have left := run_of_triple (writeFile_spec p content d) (s := d) rfl
  rwa [h] at left

theorem writeFile_error {p : Path} {content : Bytes} {fault : FileError}
    (h : writeFile p content d = .error fault d') : Unwritten p content d fault d' := by
  have left := run_of_triple (writeFile_spec p content d) (s := d) rfl
  rwa [h] at left

end Actions

end Faults

end Disk

end FormulaMigration
