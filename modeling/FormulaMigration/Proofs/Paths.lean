import FormulaMigration.Disk.Path
import Mathlib.Tactic.Common

namespace FormulaMigration

namespace Path

theorem parts_ne_nil (p : Path) : parts p ≠ [] := by
  induction p with
  | nil => simp [parts]
  | cons c p ih =>
    rw [parts]
    split_ifs
    · simp
    · split <;> simp

theorem steps_ne_nil (p : Path) : steps p ≠ [] := by
  simp [steps, parts_ne_nil]

theorem parts_append_slash (p q : Path) : parts (p ++ '/' :: q) = parts p ++ parts q := by
  induction p with
  | nil => rfl
  | cons c p ih =>
    obtain ⟨part, more, first⟩ := List.exists_cons_of_ne_nil (parts_ne_nil p)
    rw [List.cons_append, parts, parts, ih, first]
    split_ifs <;> rfl

structure Plain (name : Name) : Prop where
  whole : '/' ∉ name
  into : stepOf name = .into name

instance (name : Name) : Decidable (Plain name) :=
  decidable_of_iff ('/' ∉ name ∧ stepOf name = .into name)
    ⟨fun h => ⟨h.1, h.2⟩, fun h => ⟨h.whole, h.into⟩⟩

theorem Plain.parts_eq {name : Name} (plain : Plain name) : parts name = [name] := by
  have whole := plain.whole
  clear plain
  induction name with
  | nil => rfl
  | cons c name ih =>
    rw [List.mem_cons, not_or] at whole
    rw [parts, if_neg (Ne.symm whole.1), ih whole.2]

theorem Plain.not_isAbsolute {name : Name} (plain : Plain name) : ¬ isAbsolute name := by
  intro absolute
  exact plain.whole (List.mem_of_mem_head? (beq_iff_eq.mp absolute))

theorem Plain.steps_eq {name : Name} (plain : Plain name) : steps name = [.into name] := by
  rw [steps, plain.parts_eq, List.map_singleton, plain.into]

theorem Plain.ne_nil {name : Name} (plain : Plain name) : name ≠ [] := by
  rintro rfl
  cases plain.into

theorem Plain.ne_point {name : Name} (plain : Plain name) : name ≠ ['.'] := by
  rintro rfl
  cases plain.into

theorem exists_parts_join (p : Path) :
    ∃ front, (∀ q, ¬ isAbsolute q → parts (join p q) = front ++ parts q) ∧
      (parts p = front ∨ parts p = front ++ [[]]) := by
  rcases List.eq_nil_or_concat p with rfl | ⟨p, c, rfl⟩
  · refine ⟨[], fun q relative => ?_, .inr rfl⟩
    rw [join, if_neg relative, if_pos (by simp)]
    rfl
  · rw [List.concat_eq_append]
    by_cases slash : c = '/'
    · subst slash
      refine ⟨parts p, fun q relative => ?_, .inr (parts_append_slash p [])⟩
      rw [join, if_neg relative, if_pos (by simp), List.append_assoc, List.singleton_append,
        parts_append_slash]
    · refine ⟨parts (p ++ [c]), fun q relative => ?_, .inl rfl⟩
      rw [join, if_neg relative, if_neg (by simp [slash]), parts_append_slash]

theorem exists_steps_join (p : Path) :
    ∃ way, (∀ q, ¬ isAbsolute q → steps (join p q) = way ++ steps q) ∧
      (steps p = way ∨ steps p = way ++ [.here]) := by
  obtain ⟨front, joined, ends⟩ := exists_parts_join p
  refine ⟨front.map stepOf, fun q relative => ?_, ?_⟩
  · rw [steps, joined q relative, List.map_append, ← steps]
  · rcases ends with same | slash
    · exact .inl (by rw [steps, same])
    · exact .inr (by rw [steps, slash, List.map_append]; rfl)

theorem isAbsolute_join {q : Path} (relative : ¬ isAbsolute q) (p : Path) :
    isAbsolute (join p q) = isAbsolute p := by
  cases p with
  | nil => simpa [join, relative, isAbsolute] using relative
  | cons c p =>
    rw [join, if_neg relative]
    split_ifs <;> rfl

theorem exists_join_eq {name : Name} (plain : Plain name) (p : Path) :
    ∃ front, join p name = front ++ name := by
  rw [join, if_neg plain.not_isAbsolute]
  split_ifs
  · exact ⟨p, rfl⟩
  · exact ⟨p ++ ['/'], by simp⟩

theorem join_ne_nil {name : Name} (plain : Plain name) (p : Path) : join p name ≠ [] := by
  obtain ⟨front, join⟩ := exists_join_eq plain p
  simp [join, plain.ne_nil]

theorem components_join {name : Name} (plain : Plain name) (p : Path) :
    components (join p name) = components p ++ [.into name] := by
  obtain ⟨front, joined, ends⟩ := exists_parts_join p
  have parts_join := joined name plain.not_isAbsolute
  rw [plain.parts_eq] at parts_join
  have moves : (steps (join p name)).filter (· ≠ .here) =
      (steps p).filter (· ≠ .here) ++ [.into name] := by
    rcases ends with same | slash
    · simp [steps, parts_join, same, plain.into]
    · have stays : stepOf [] = .here := rfl
      simp [steps, parts_join, slash, plain.into, stays]
  -- A first `.` is kept, and joining a name does not make one.
  have first : (parts (join p name)).head? = some ['.'] ↔ (parts p).head? = some ['.'] := by
    rw [parts_join]
    cases front with
    | nil =>
      have empty : parts p = [[]] := by simpa [parts_ne_nil] using ends
      simp [empty, plain.ne_point]
    | cons part front => rcases ends with same | slash <;> simp [*]
  simp only [components, moves, first]
  split_ifs <;> rfl

theorem fileName?_join {name : Name} (plain : Plain name) (p : Path) :
    fileName? (join p name) = some name := by
  simp [fileName?, components_join plain]

theorem extensionOf?_eq_some_iff {name : Name} {extension : Text} :
    extensionOf? name = some extension ↔
      '.' ∉ extension ∧ ∃ stem, stem ≠ [] ∧ name = stem ++ '.' :: extension := by
  constructor
  · intro h
    have free : ∀ c ∈ name.reverse.takeWhile (· ≠ '.'), decide (c ≠ '.') = true :=
      List.all_eq_true.mp List.all_takeWhile
    have parted := List.takeWhile_append_dropWhile (p := (· ≠ '.')) (l := name.reverse)
    have point := List.head?_dropWhile_not (· ≠ '.') name.reverse
    unfold extensionOf? at h
    dsimp only at h
    split_ifs at h with bare
    obtain rfl := Option.some.inj h
    constructor
    · intro mem
      simpa using free _ (List.mem_reverse.mp mem)
    · generalize name.reverse.takeWhile (· ≠ '.') = behind at parted
      generalize name.reverse.dropWhile (· ≠ '.') = rest at parted point bare
      cases rest with
      | nil => simp at bare
      | cons c before =>
        obtain rfl : c = '.' := by simpa using point
        refine ⟨before.reverse, by simpa using bare, ?_⟩
        rw [← List.reverse_inj, ← parted]
        simp
  · rintro ⟨free, stem, filled, rfl⟩
    have behind : ∀ c ∈ extension.reverse, decide (c ≠ '.') = true := by
      intro c hc
      rw [decide_eq_true_eq]
      rintro rfl
      exact free (List.mem_reverse.mp hc)
    have shape : (stem ++ '.' :: extension).reverse = extension.reverse ++ '.' :: stem.reverse := by
      simp
    rw [extensionOf?, shape, List.takeWhile_append_of_pos behind,
      List.dropWhile_append_of_pos behind, List.takeWhile_cons_of_neg (by simp),
      List.dropWhile_cons_of_neg (by simp)]
    simp [filled]

end Path

inductive Step.Before : Step → Step → Prop
  | here_up : Before .here .up
  | here_into (name : Name) : Before .here (.into name)
  | up_into (name : Name) : Before .up (.into name)
  | names {m n : Name} (le : Text.le m n) (other : m ≠ n) : Before (.into m) (.into n)

def Path.Before (p q : Path) : Prop :=
  isAbsolute p = isAbsolute q ∧ List.Lex Step.Before (components p) (components q)

end FormulaMigration
