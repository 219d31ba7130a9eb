import FormulaMigration.Json
import Mathlib.Data.List.Nodup

namespace FormulaMigration

namespace Text

theorem isDigit_of_mem_ofNat {n : Nat} {c : Char} (h : c ∈ ofNat n) : c.isDigit :=
  Nat.isDigit_of_mem_toDigits (by decide) (by decide) h

theorem ofNat_ne_nil (n : Nat) : ofNat n ≠ [] :=
  Nat.toDigits_ne_nil

theorem eq_zero_of_head?_ofNat {n : Nat} (h : (ofNat n).head? = some '0') : n = 0 := by
  induction n using Nat.strongRecOn with
  | ind n ih =>
    rw [ofNat, Nat.toDigits_eq_if (by decide)] at h
    split_ifs at h with small
    · have digit : ∀ n < 10, [n.digitChar].head? = some '0' → n = 0 := by decide
      exact digit n small h
    · rw [List.head?_append, Option.or_eq_some_iff, List.head?_eq_none_iff] at h
      have leading := h.resolve_right fun h => Nat.toDigits_ne_nil h.1
      have := ih (n / 10) (by omega) leading
      omega

def Printed (t : Text) : Prop :=
  ∀ c ∈ t, 0x20 ≤ c.toNat

@[simp]
theorem printed_nil : Printed [] := by
  simp [Printed]

@[simp]
theorem printed_cons {c : Char} {t : Text} : Printed (c :: t) ↔ 0x20 ≤ c.toNat ∧ Printed t := by
  simp [Printed]

@[simp]
theorem printed_append {s t : Text} : Printed (s ++ t) ↔ Printed s ∧ Printed t := by
  simp only [Printed, List.forall_mem_append]

@[simp]
theorem printed_ofNat (n : Nat) : Printed (ofNat n) := by
  intro c hc
  have digit := Char.isDigit_iff_toNat.mp (isDigit_of_mem_ofNat hc)
  exact Nat.le_trans (by decide) digit.1

theorem Printed.notMem_newline {t : Text} (h : Printed t) : '\n' ∉ t := by
  intro newline
  exact absurd (h '\n' newline) (by decide)

end Text

structure Layout where
  line : Nat → Text
  space : Text
  isBlank_line : ∀ depth, ∀ c ∈ line depth, isBlank c
  isBlank_space : ∀ c ∈ space, isBlank c

namespace Layout

theorem isBlank_beforeEnd (l : Layout) (depth : Nat) (bare : Bool) :
    ∀ c ∈ if bare then [] else l.line depth, isBlank c := by
  cases bare with
  | true => simp
  | false => exact l.isBlank_line depth

def compact : Layout :=
  ⟨fun _ => [], [], by simp, by simp⟩

def pretty : Layout where
  line := Json.newLine
  space := [' ']
  isBlank_line := by
    intro depth c hc
    simp only [Json.newLine, List.mem_cons, List.mem_replicate] at hc
    rcases hc with rfl | ⟨-, rfl⟩ <;> rfl
  isBlank_space := by simp [isBlank]

@[simp]
theorem line_compact (depth : Nat) : compact.line depth = [] := rfl

@[simp]
theorem space_compact : compact.space = [] := rfl

@[simp]
theorem line_pretty (depth : Nat) : pretty.line depth = Json.newLine depth := rfl

@[simp]
theorem space_pretty : pretty.space = [' '] := rfl

end Layout

namespace Json

mutual
def laid (l : Layout) (depth : Nat) : Json → Text
  | null => ['n', 'u', 'l', 'l']
  | bool true => ['t', 'r', 'u', 'e']
  | bool false => ['f', 'a', 'l', 's', 'e']
  | number n => n.text
  | string t => stringText t
  | array items =>
    '[' :: laidItems l (depth + 1) true items ++
      ((if items.isEmpty then [] else l.line depth) ++ [']'])
  | object members =>
    '\x7b' :: laidMembers l (depth + 1) true members ++
      ((if members.isEmpty then [] else l.line depth) ++ ['\x7d'])
def laidItems (l : Layout) (depth : Nat) (first : Bool) : List Json → Text
  | [] => []
  | v :: rest =>
    (if first then [] else [',']) ++
      (l.line depth ++ (laid l depth v ++ laidItems l depth false rest))
def laidMembers (l : Layout) (depth : Nat) (first : Bool) : List (Text × Json) → Text
  | [] => []
  | (k, v) :: rest =>
    (if first then [] else [',']) ++
      (l.line depth ++ (stringText k ++ ':' :: (l.space ++
        (laid l depth v ++ laidMembers l depth false rest))))
end

mutual
theorem compact_eq_laid (depth : Nat) : ∀ v : Json, compact v = laid .compact depth v
  | null => rfl
  | bool true => rfl
  | bool false => rfl
  | number _ => rfl
  | string _ => rfl
  | array items => by
    rw [compact, laid, compactItems_eq_laidItems (depth + 1) items]
    simp
  | object members => by
    rw [compact, laid, compactMembers_eq_laidMembers (depth + 1) members]
    simp
theorem compactItems_eq_laidItems (depth : Nat) :
    ∀ items : List Json, compactItems items = laidItems .compact depth true items
  | [] => rfl
  | [v] => by simp [compactItems, laidItems, compact_eq_laid depth v]
  | v :: w :: rest => by
    rw [compactItems, laidItems, compact_eq_laid depth v,
      compactItems_eq_laidItems depth (w :: rest)]
    simp [laidItems]
theorem compactMembers_eq_laidMembers (depth : Nat) :
    ∀ members : List (Text × Json),
      compactMembers members = laidMembers .compact depth true members
  | [] => rfl
  | [(k, v)] => by simp [compactMembers, laidMembers, compact_eq_laid depth v]
  | (k, v) :: w :: rest => by
    rw [compactMembers, laidMembers, compact_eq_laid depth v,
      compactMembers_eq_laidMembers depth (w :: rest)]
    simp [laidMembers]
end

mutual
theorem prettyAt_eq_laid (depth : Nat) : ∀ v : Json, prettyAt depth v = laid .pretty depth v
  | null => rfl
  | bool true => rfl
  | bool false => rfl
  | number _ => rfl
  | string _ => rfl
  | array items => by
    rw [prettyAt, laid, prettyItems_eq_laidItems (depth + 1) items]
    cases items <;> simp [laidItems]
  | object members => by
    rw [prettyAt, laid, prettyMembers_eq_laidMembers (depth + 1) members]
    cases members <;> simp [laidMembers]
theorem prettyItems_eq_laidItems (depth : Nat) :
    ∀ items : List Json, prettyItems depth items = laidItems .pretty depth true items
  | [] => rfl
  | [v] => by simp [prettyItems, laidItems, prettyAt_eq_laid depth v]
  | v :: w :: rest => by
    rw [prettyItems, laidItems, prettyAt_eq_laid depth v,
      prettyItems_eq_laidItems depth (w :: rest)]
    simp [laidItems]
theorem prettyMembers_eq_laidMembers (depth : Nat) :
    ∀ members : List (Text × Json),
      prettyMembers depth members = laidMembers .pretty depth true members
  | [] => rfl
  | [(k, v)] => by simp [prettyMembers, laidMembers, prettyAt_eq_laid depth v]
  | (k, v) :: w :: rest => by
    rw [prettyMembers, laidMembers, prettyAt_eq_laid depth v,
      prettyMembers_eq_laidMembers depth (w :: rest)]
    simp [laidMembers]
end

mutual
/-- A document that its text gives back in full: its numbers are natural, no object holds a key
twice, and its arrays and objects nest at most `depth` deep. -/
def Legible : (depth : Nat) → Json → Prop
  | _, null => True
  | _, bool _ => True
  | _, number (.natural _) => True
  | _, number (.negative _) => False
  | _, number (.double _) => False
  | _, string _ => True
  | 0, array _ => False
  | depth + 1, array items => LegibleItems depth items
  | 0, object _ => False
  | depth + 1, object members => (members.map Prod.fst).Nodup ∧ LegibleMembers depth members
def LegibleItems : (depth : Nat) → List Json → Prop
  | _, [] => True
  | depth, v :: rest => Legible depth v ∧ LegibleItems depth rest
def LegibleMembers : (depth : Nat) → List (Text × Json) → Prop
  | _, [] => True
  | depth, (_, v) :: rest => Legible depth v ∧ LegibleMembers depth rest
end

theorem legibleItems_iff {depth : Nat} {items : List Json} :
    LegibleItems depth items ↔ ∀ v ∈ items, v.Legible depth := by
  induction items with
  | nil => simp [LegibleItems]
  | cons v items ih => simp [LegibleItems, ih]

theorem legibleMembers_iff {depth : Nat} {members : List (Text × Json)} :
    LegibleMembers depth members ↔ ∀ m ∈ members, m.2.Legible depth := by
  induction members with
  | nil => simp [LegibleMembers]
  | cons m members ih => simp [LegibleMembers, ih]

theorem legible_record {depth : Nat} {members : List (String × Json)}
    (distinct : (members.map Prod.fst).Nodup) (values : ∀ m ∈ members, m.2.Legible depth) :
    (record members).Legible (depth + 1) := by
  refine ⟨?_, legibleMembers_iff.mpr ?_⟩
  · have keys : (members.map fun m => (m.1.toList, m.2)).map Prod.fst =
        (members.map Prod.fst).map String.toList := by
      simp
    rw [keys]
    exact distinct.map fun _ _ => String.toList_inj.mp
  · intro m hm
    obtain ⟨member, inside, rfl⟩ := List.mem_map.mp hm
    exact values member inside

theorem le_hexDigit (n : Nat) : 0x20 ≤ (hexDigit n).toNat := by
  have digit : ∀ n < 16, 0x20 ≤ n.digitChar.toNat := by decide
  exact digit (n % 16) (Nat.mod_lt _ (by decide))

theorem printed_escape (c : Char) : (escape c).Printed := by
  unfold escape
  split_ifs with quote slash back feed line carriage tab control
  case neg => simpa using control
  all_goals simp [le_hexDigit]

@[simp]
theorem printed_stringText (t : Text) : (stringText t).Printed := by
  have inside : Text.Printed (t.flatMap escape) := by
    intro c hc
    obtain ⟨d, -, hc⟩ := List.mem_flatMap.mp hc
    exact printed_escape d c hc
  simp [stringText, Text.quote, inside]

mutual
theorem printed_laid (depth : Nat) {nest : Nat} :
    ∀ {v : Json}, v.Legible nest → (laid .compact depth v).Printed
  | null, _ => by simp [laid]
  | bool true, _ => by simp [laid]
  | bool false, _ => by simp [laid]
  | number (.natural n), _ => Text.printed_ofNat n.toNat
  | string t, _ => printed_stringText t
  | array items, legible => by
    cases nest with
    | zero => exact legible.elim
    | succ nest => simp [laid, printed_laidItems (depth + 1) true legible]
  | object members, legible => by
    cases nest with
    | zero => exact legible.elim
    | succ nest => simp [laid, printed_laidMembers (depth + 1) true legible.2]
theorem printed_laidItems (depth : Nat) (first : Bool) {nest : Nat} :
    ∀ {items : List Json}, LegibleItems nest items → (laidItems .compact depth first items).Printed
  | [], _ => Text.printed_nil
  | v :: items, legible => by
    have here := printed_laid depth legible.1
    have further := printed_laidItems depth false legible.2
    cases first <;> simp_all [laidItems]
theorem printed_laidMembers (depth : Nat) (first : Bool) {nest : Nat} :
    ∀ {members : List (Text × Json)}, LegibleMembers nest members →
      (laidMembers .compact depth first members).Printed
  | [], _ => Text.printed_nil
  | (k, v) :: members, legible => by
    have here := printed_laid depth legible.1
    have further := printed_laidMembers depth false legible.2
    cases first <;> simp_all [laidMembers]
end

theorem printed_compact {nest : Nat} {v : Json} (legible : v.Legible nest) : v.compact.Printed := by
  rw [compact_eq_laid 0]
  exact printed_laid 0 legible

end Json

end FormulaMigration
