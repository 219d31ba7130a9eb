import Mathlib.Algebra.Order.Field.Rat
import Mathlib.Tactic.NormNum
import FormulaMigration.Json.Document
import FormulaMigration.Proofs.Migration

namespace FormulaMigration

def Double.worth (x : Double) : ℚ :=
  (if x.negative then -1 else 1) * x.significand * 2 ^ x.exponent

def JsonNumber.worth : JsonNumber → ℚ
  | natural n => n.toNat
  | negative n => n.toInt
  | double x => x.worth

def JsonNumber.IsWord (v : JsonNumber) : Prop :=
  ∃ n, v = natural n

namespace Numeral

def worth (n : Numeral) : ℚ :=
  (if n.negative then -1 else 1) * ofDigits (n.whole ++ n.fraction.getD []) *
    10 ^ (n.writtenExponent - (n.fraction.getD []).length)

structure IsWord (n : Numeral) : Prop where
  unsigned : n.negative = false
  whole : n.fraction = none
  plain : n.exponent = none
  small : ofDigits n.whole < wordSize

variable {n : Numeral}

theorem IsWord.value? (word : n.IsWord) :
    n.value? = some (.natural (UInt64.ofNat (ofDigits n.whole))) := by
  simp [Numeral.value?, word.unsigned, word.whole, word.plain, word.small]

theorem IsWord.worth_eq (word : n.IsWord) : n.worth = ofDigits n.whole := by
  simp [worth, writtenExponent, word.unsigned, word.whole, word.plain]

theorem isWord_iff {v : JsonNumber} (h : n.value? = some v) : n.IsWord ↔ v.IsWord := by
  constructor
  · intro word
    exact ⟨_, Option.some.inj (h.symm.trans word.value?)⟩
  · rintro ⟨w, rfl⟩
    rw [Numeral.value?] at h
    split_ifs at h with word negative
    · simp only [Bool.and_eq_true, Option.isNone_iff_eq_none, Bool.not_eq_true',
        decide_eq_true_eq] at word
      exact ⟨word.1.2, word.1.1.1, word.1.1.2, word.2⟩
    · cases h
    · simp at h

end Numeral

/-- What a version is taken to be worth: as it is kept, or as it was written. -/
inductive JsonNumber.Worth : JsonNumber → ℚ → Prop
  | kept (v : JsonNumber) : Worth v v.worth
  | written {n : Numeral} {v : JsonNumber} (read : n.value? = some v) : Worth v n.worth

theorem JsonNumber.Worth.eq {n : UInt64} {q : ℚ} (h : Worth (natural n) q) : q = n.toNat := by
  cases h with
  | kept => rfl
  | @written m _ read =>
    have word := (Numeral.isWord_iff read).mpr ⟨n, rfl⟩
    have same := JsonNumber.natural.inj (Option.some.inj (read.symm.trans word.value?))
    rw [word.worth_eq, same, UInt64.toNat_ofNat_of_lt' word.small]

namespace Plan

variable {plan : Plan} {members : List (Text × Json)} {v : JsonNumber}

theorem isMigrated_iff (h : (Json.object members).member? plan.versionKey = some (.number v)) :
    plan.isMigrated (.object members) ↔ ∃ n, v = .natural n ∧ plan.scriptVersion ≤ n := by
  rw [isMigrated, version?, h]
  cases v <;> simp

theorem isMigrated_iff_worth (h : (Json.object members).member? plan.versionKey = some (.number v))
    {q : ℚ} (hq : v.Worth q) :
    plan.isMigrated (.object members) ↔ v.IsWord ∧ plan.scriptVersion.toNat ≤ q := by
  rw [isMigrated_iff h]
  constructor
  · rintro ⟨n, rfl, le⟩
    rw [hq.eq]
    exact ⟨⟨n, rfl⟩, Nat.cast_le.mpr (UInt64.le_iff_toNat_le.mp le)⟩
  · rintro ⟨⟨n, rfl⟩, le⟩
    rw [hq.eq] at le
    exact ⟨n, rfl, UInt64.le_iff_toNat_le.mpr (Nat.cast_le.mp le)⟩

theorem member?_stamp (plan : Plan) (members : List (Text × Json)) :
    (plan.stamp (.object members)).member? plan.versionKey =
      some (.number (.natural plan.scriptVersion)) :=
  Json.lookup_setMember _ _ _

/-- How a migration treats a document with the version `v`, whose version is `w` afterwards. -/
structure Versions (plan : Plan) (document : Json) (v w : JsonNumber) : Prop where
  left : (plan.migrate document).document.member? plan.versionKey = some (.number w)
  compared : ∀ q, v.Worth q → (plan.isMigrated document ↔ v.IsWord ∧ plan.scriptVersion.toNat ≤ q)
  untouched : plan.isMigrated document → plan.migrate document = idle document ∧ w = v
  stamped : ¬ plan.isMigrated document → w = .natural plan.scriptVersion ∧
    (plan.migrate document).document = plan.stamp (plan.walk document).value
  greater : ∀ q, v.Worth q → (w.worth = max q plan.scriptVersion.toNat ↔
    v.IsWord ∨ q ≤ plan.scriptVersion.toNat)
  spelled : ∀ n : Numeral, n.value? = some v → (v.IsWord ↔ n.IsWord)

theorem versions_of_isMigrated
    (h : (Json.object members).member? plan.versionKey = some (.number v))
    (found : plan.isMigrated (.object members)) : plan.Versions (.object members) v v where
  left := by
    rw [migrate_of_isMigrated found]
    exact h
  compared q hq := isMigrated_iff_worth h hq
  untouched _ := ⟨migrate_of_isMigrated found, rfl⟩
  stamped unfound := absurd found unfound
  greater q hq := by
    obtain ⟨⟨n, rfl⟩, le⟩ := (isMigrated_iff_worth h hq).mp found
    rw [max_eq_left le, hq.eq]
    exact ⟨fun _ => .inl ⟨n, rfl⟩, fun _ => rfl⟩
  spelled n read := (Numeral.isWord_iff read).symm

theorem versions_of_not_isMigrated
    (h : (Json.object members).member? plan.versionKey = some (.number v))
    (unfound : ¬ plan.isMigrated (.object members)) :
    plan.Versions (.object members) v (.natural plan.scriptVersion) where
  left := by
    rw [migrate_of_not_isMigrated unfound, walk]
    exact member?_stamp plan _
  compared q hq := isMigrated_iff_worth h hq
  untouched found := absurd found unfound
  stamped _ := ⟨rfl, by rw [migrate_of_not_isMigrated unfound]⟩
  greater q hq := by
    have lower : v.IsWord → q ≤ plan.scriptVersion.toNat := fun word =>
      le_of_not_ge fun le => unfound ((isMigrated_iff_worth h hq).mpr ⟨word, le⟩)
    rw [JsonNumber.worth, eq_comm, max_eq_right_iff]
    exact ⟨.inr, fun either => either.elim lower id⟩
  spelled n read := (Numeral.isWord_iff read).symm

/-- The version of an object is the greater of its own and that of the plan after a migration, unless
its own is the greater one and no whole number of 64 bits. Such a document is migrated again, and its
version is lowered. -/
theorem versions_migrate (h : (Json.object members).member? plan.versionKey = some (.number v)) :
    ∃ w, plan.Versions (.object members) v w := by
  by_cases found : plan.isMigrated (.object members)
  · exact ⟨v, versions_of_isMigrated h found⟩
  · exact ⟨_, versions_of_not_isMigrated h found⟩

theorem versions_migrate_fraction :
    ∃ v w, (⟨false, ['4'], some ['5'], none⟩ : Numeral).value? = some v ∧
      (Json.record [("version", .number v)]).member? legacy.versionKey = some (.number v) ∧
      legacy.Versions (Json.record [("version", .number v)]) v w := by
  obtain ⟨w, versions⟩ := @versions_migrate legacy
    [("version".toList, .number (.double ⟨false, 5066549580791808, -50⟩))] _ rfl
  exact ⟨_, w, by decide +kernel, rfl, versions⟩

theorem version_lowered :
    ∃ document v, document = Json.record [("version", .number v), ("expression", .ofString "2 ** 3")] ∧
      (⟨false, ['6'], some ['0'], none⟩ : Numeral).value? = some v ∧ v.worth = 6 ∧
      legacy.scriptVersion = 5 ∧ ¬ legacy.isMigrated document ∧
      legacy.version? (legacy.migrate document).document = some 5 ∧
      (legacy.migrate document).document.compact =
        "\x7b\"version\":5,\"expression\":\"2 * 3\"\x7d".toList := by
  refine ⟨_, .double ⟨false, 6755399441055744, -50⟩, rfl, by decide +kernel, ?_, rfl,
    by decide +kernel, by decide +kernel, by decide +kernel⟩
  norm_num [JsonNumber.worth, Double.worth]

end Plan

end FormulaMigration
