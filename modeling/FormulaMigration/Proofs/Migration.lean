import FormulaMigration.Migration
import FormulaMigration.Proofs.Operand

namespace FormulaMigration

namespace Text

theorem trim_eq_nil_iff {t : Text} : trim t = [] ↔ ∀ c ∈ t, isWhiteSpace c := by
  constructor
  · intro h
    obtain ⟨s, s', whole, hs, hs'⟩ := t.exists_trim
    rw [whole, h]
    intro c hc
    exact (List.mem_append.mp hc).elim (hs c) (hs' c)
  · exact trim_eq_nil

theorem includes_iff {t part : Text} : t.includes part ↔ part <:+: t := by
  induction t with
  | nil => simp [includes]
  | cons c t ih => simp [includes, ih, List.infix_cons_iff, List.isPrefixOf_iff_prefix]

end Text

namespace Json

def children : Json → List (Option Text × Json)
  | array items => items.map fun v => (none, v)
  | object members => members.map fun (key, v) => (some key, v)
  | _ => []

/-- What stands at a place of a value that has a key or none itself. A place is told by the position
at every depth. -/
def at? (key : Option Text) (v : Json) : List Nat → Option (Option Text × Json)
  | [] => some (key, v)
  | i :: path =>
    match v.children[i]? with
    | some (key, v) => v.at? key path
    | none => none

def outline : Json → Json
  | array items => array (items.map fun _ => null)
  | object members => object (members.map fun (key, _) => (key, null))
  | v => v

end Json

namespace Plan

def Spares (plan : Plan) (kind : FieldKind) (t : Text) : Prop :=
  (∀ c ∈ t, isWhiteSpace c) ∨
    (kind = .embedded ∧ plan.skipConverted ∧ Embedded.scriptStart <:+: t)

/-- How a place may change that has a key or none: a string that the plan names is converted, and
nothing else is, apart from what is inside. -/
inductive Changes (plan : Plan) : Option Text × Json → Option Text × Json → Prop
  | expression {key t : Text} (named : plan.kindOf? key = some .expression)
      (taken : ¬ plan.Spares .expression t) :
      Changes plan (some key, .string t) (some key, .string (Formula.convert t).output)
  | embedded {key t : Text} (named : plan.kindOf? key = some .embedded)
      (taken : ¬ plan.Spares .embedded t) :
      Changes plan (some key, .string t) (some key, .string (Embedded.convert t).output)
  | kept {key : Option Text} {v v' : Json} (same : v'.outline = v.outline)
      (spared : ∀ name ∈ key, ∀ kind ∈ plan.kindOf? name, ∀ t, v = .string t →
        plan.Spares kind t) : Changes plan (key, v) (key, v')

inductive Stamps (plan : Plan) : Json → Json → Prop
  | replaced {v : Json} {before after : List (Text × Json)}
      (absent : ∀ member ∈ before, member.1 ≠ plan.versionKey) :
      Stamps plan (.object (before ++ (plan.versionKey, v) :: after))
        (.object (before ++ (plan.versionKey, .number (.natural plan.scriptVersion)) :: after))
  | appended {members : List (Text × Json)}
      (absent : ∀ member ∈ members, member.1 ≠ plan.versionKey) :
      Stamps plan (.object members)
        (.object (members ++ [(plan.versionKey, .number (.natural plan.scriptVersion))]))
  | unversioned {v : Json} (other : ∀ members, v ≠ .object members) : Stamps plan v v

def renewed (plan : Plan) (key : Option Text) (v : Json) : Json :=
  match key.bind plan.kindOf?, v with
  | some kind, .string t => .string (plan.migrateField kind t).value
  | _, v => (plan.walk v).value

variable {plan : Plan}

theorem renewed_none (v : Json) : plan.renewed none v = (plan.walk v).value := by
  cases v <;> rfl

theorem renewed_other {key : Option Text} {v : Json}
    (h : ∀ kind t, key.bind plan.kindOf? = some kind → v ≠ .string t) :
    plan.renewed key v = (plan.walk v).value := by
  unfold renewed
  split
  next kind t named => exact absurd rfl (h kind t named)
  next => rfl

theorem renewed_container {v : Json} (h : ∀ t, v ≠ .string t) (key : Option Text) :
    plan.renewed key v = (plan.walk v).value :=
  renewed_other fun _ t _ => h t

theorem renewed_unnamed {key : Option Text} (h : key.bind plan.kindOf? = none) (v : Json) :
    plan.renewed key v = (plan.walk v).value :=
  renewed_other fun kind _ named => by cases h.symm.trans named

theorem renewed_named {key : Option Text} {kind : FieldKind} (h : key.bind plan.kindOf? = some kind)
    (t : Text) : plan.renewed key (.string t) = .string (plan.migrateField kind t).value := by
  rw [renewed.eq_def, h]

theorem value_walkItems (items : List Json) :
    (plan.walkItems items).value = items.map (plan.renewed none) := by
  induction items with
  | nil => rfl
  | cons v items ih =>
    rw [List.map_cons, ← ih, renewed_none, walkItems]
    rfl

theorem value_walkMembers (members : List (Text × Json)) :
    (plan.walkMembers members).value =
      members.map fun (key, v) => (key, plan.renewed (some key) v) := by
  induction members with
  | nil => rfl
  | cons member members ih =>
    obtain ⟨key, v⟩ := member
    -- The equations of `walkMembers` tell named strings apart; here both cases go together.
    rw [List.map_cons, ← ih, walkMembers.eq_def]
    dsimp only
    rw [renewed.eq_def, Option.bind_some]
    cases plan.kindOf? key <;> cases v <;> rfl

theorem migrateField_spared {kind : FieldKind} {t : Text} (h : plan.Spares kind t) :
    (plan.migrateField kind t).value = t := by
  unfold migrateField
  rcases h with blank | ⟨rfl, skips, script⟩
  · rw [if_pos (Text.trim_eq_nil blank)]
  · have holds : Embedded.hasScript t := Text.includes_iff.mpr script
    split_ifs with blank skipped
    · rfl
    · rfl
    · simp [skips, holds] at skipped

theorem migrateField_taken {kind : FieldKind} {t : Text} (h : ¬ plan.Spares kind t) :
    (plan.migrateField kind t).value = (convertField kind t).output := by
  unfold migrateField
  split_ifs with blank skipped
  · exact absurd (.inl (Text.trim_eq_nil_iff.mp blank)) h
  · simp only [Bool.and_eq_true, decide_eq_true_eq] at skipped
    obtain ⟨⟨skips, embedded⟩, holds⟩ := skipped
    exact absurd (.inr ⟨embedded, skips, Text.includes_iff.mp holds⟩) h
  · rfl

theorem children_renewed (key : Option Text) (v : Json) :
    (plan.renewed key v).children =
      v.children.map fun (key, child) => (key, plan.renewed key child) := by
  cases v with
  | string t =>
    unfold renewed
    cases key.bind plan.kindOf? <;> rfl
  | array items =>
    rw [renewed_container (by simp), walk]
    simp [Migrated.map, value_walkItems, Json.children, Function.comp_def]
  | object members =>
    rw [renewed_container (by simp), walk]
    simp [Migrated.map, value_walkMembers, Json.children, Function.comp_def]
  | _ =>
    rw [renewed_container (by simp)]
    rfl

theorem outline_walk (v : Json) : (plan.walk v).value.outline = v.outline := by
  cases v with
  | array items =>
    rw [walk]
    simp [Migrated.map, value_walkItems, Json.outline, Function.comp_def]
  | object members =>
    rw [walk]
    simp [Migrated.map, value_walkMembers, Json.outline, Function.comp_def]
  | _ => rfl

theorem changes_renewed (key : Option Text) (v : Json) :
    plan.Changes (key, v) (key, plan.renewed key v) := by
  by_cases string : ∃ t, v = .string t
  · obtain ⟨t, rfl⟩ := string
    cases named : key.bind plan.kindOf? with
    | none =>
      rw [renewed_unnamed named]
      apply Changes.kept (outline_walk _)
      intro name hn kind hk
      rw [Option.mem_def.mp hn, Option.bind_some, Option.mem_def.mp hk] at named
      cases named
    | some kind =>
      obtain ⟨name, rfl, hk⟩ := Option.bind_eq_some_iff.mp named
      rw [renewed_named named]
      by_cases spared : plan.Spares kind t
      · rw [migrateField_spared spared]
        apply Changes.kept rfl
        intro name' hn kind' hk' t' ht
        cases hn
        cases hk.symm.trans hk'
        cases ht
        exact spared
      · rw [migrateField_taken spared]
        cases kind with
        | expression => exact .expression hk spared
        | embedded => exact .embedded hk spared
  · have other : ∀ t, v ≠ .string t := fun t ht => string ⟨t, ht⟩
    rw [renewed_container other]
    apply Changes.kept (outline_walk v)
    intro name _ kind _ t ht
    exact absurd ht (other t)

theorem at?_renewed_eq (key : Option Text) (v : Json) (path : List Nat) :
    (plan.renewed key v).at? key path =
      (v.at? key path).map fun (key, v) => (key, plan.renewed key v) := by
  induction path generalizing key v with
  | nil => rfl
  | cons i path ih =>
    rw [Json.at?, Json.at?, children_renewed, List.getElem?_map]
    cases v.children[i]? with
    | none => rfl
    | some child => exact ih child.1 child.2

theorem at?_renewed (key : Option Text) (v : Json) (path : List Nat) :
    Option.Rel plan.Changes (v.at? key path) ((plan.renewed key v).at? key path) := by
  rw [at?_renewed_eq]
  cases v.at? key path with
  | none => exact .none
  | some found => exact .some (changes_renewed found.1 found.2)

theorem exists_setMember (key : Text) (value : Json) (members : List (Text × Json)) :
    (∃ before v after, members = before ++ (key, v) :: after ∧
      (∀ member ∈ before, member.1 ≠ key) ∧
      Json.setMember key value members = before ++ (key, value) :: after) ∨
    ((∀ member ∈ members, member.1 ≠ key) ∧
      Json.setMember key value members = members ++ [(key, value)]) := by
  induction members with
  | nil => exact .inr ⟨by simp, rfl⟩
  | cons member members ih =>
    obtain ⟨k, v⟩ := member
    rw [Json.setMember]
    by_cases found : k = key
    · subst found
      exact .inl ⟨[], v, members, rfl, by simp, by simp⟩
    rw [if_neg found]
    rcases ih with ⟨before, v', after, rfl, absent, set⟩ | ⟨absent, set⟩
    · refine .inl ⟨(k, v) :: before, v', after, rfl, ?_, by rw [set, List.cons_append]⟩
      exact List.forall_mem_cons.mpr ⟨found, absent⟩
    · refine .inr ⟨List.forall_mem_cons.mpr ⟨found, absent⟩, by rw [set, List.cons_append]⟩

theorem stamps_stamp (v : Json) : plan.Stamps v (plan.stamp v) := by
  cases v with
  | object members =>
    rw [stamp]
    rcases exists_setMember plan.versionKey (.number (.natural plan.scriptVersion)) members with
      ⟨before, v, after, rfl, absent, set⟩ | ⟨absent, set⟩
    · rw [set]
      exact .replaced absent
    · rw [set]
      exact .appended absent
  | _ => exact .unversioned (by simp)

/-- Apart from the version, a migration changes no place of a document but the strings that the plan
names; a document that has the version stays as it is. -/
theorem document_migrate (plan : Plan) (document : Json) :
    (plan.isMigrated document → (plan.migrate document).document = document) ∧
      (¬ plan.isMigrated document → ∃ converted : Json,
        (∀ path, Option.Rel plan.Changes (document.at? none path) (converted.at? none path)) ∧
          plan.Stamps converted (plan.migrate document).document) := by
  constructor
  · intro migrated
    rw [migrate, if_pos migrated]
  · intro unmigrated
    rw [migrate, if_neg unmigrated]
    refine ⟨(plan.walk document).value, ?_, stamps_stamp _⟩
    intro path
    rw [← renewed_none]
    exact at?_renewed none document path

def passes (plan : Plan) : List UInt64 → Json → Ledger → List Migration × Ledger
  | [], _, l => ([], l)
  | time :: times, document, l =>
    let migration := plan.migrate document
    let (later, l) := plan.passes times migration.document (l.extend time migration.issues)
    (migration :: later, l)

def idle (document : Json) : Migration :=
  ⟨document, ⟨.zero, true, .zero⟩, []⟩

theorem migrate_of_isMigrated {document : Json} (h : plan.isMigrated document) :
    plan.migrate document = idle document := by
  rw [migrate, if_pos h, idle]

theorem migrate_of_not_isMigrated {document : Json} (h : ¬ plan.isMigrated document) :
    plan.migrate document = ⟨plan.stamp (plan.walk document).value,
      ⟨(plan.walk document).tally, false, .ofIssues (plan.walk document).issues⟩,
      (plan.walk document).issues⟩ := by
  rw [migrate, if_neg h]

theorem passes_of_unchanged {document : Json} (same : (plan.migrate document).document = document)
    (clean : (plan.migrate document).issues = []) (times : List UInt64) (l : Ledger) :
    plan.passes times document l = (times.map fun _ => plan.migrate document, l) := by
  induction times generalizing l with
  | nil => rfl
  | cons time times ih =>
    have nothing : l.extend time [] = l := by simp [Ledger.extend]
    rw [passes]
    simp only [same, clean, nothing, ih, List.map_cons]

theorem passes_of_isMigrated {document : Json} (h : plan.isMigrated document)
    (times : List UInt64) (l : Ledger) :
    plan.passes times document l = (times.map fun _ => idle document, l) := by
  have found := migrate_of_isMigrated h
  rw [passes_of_unchanged (by rw [found]; rfl) (by rw [found]; rfl), found]

theorem isMigrated_migrate (plan : Plan) (members : List (Text × Json)) :
    plan.isMigrated (plan.migrate (.object members)).document := by
  rw [migrate]
  split_ifs with migrated
  · exact migrated
  · exact isMigrated_stamp plan _

/-- An object has the version after one migration, and all later ones change neither it nor the
ledger. -/
theorem passes_object (plan : Plan) (members : List (Text × Json)) (time : UInt64)
    (times : List UInt64) (l : Ledger) :
    let first := plan.migrate (.object members)
    plan.isMigrated first.document ∧
      plan.passes (time :: times) (.object members) l =
        (first :: times.map fun _ => ⟨first.document, ⟨.zero, true, .zero⟩, []⟩,
          l.extend time first.issues) := by
  have migrated := plan.isMigrated_migrate members
  refine ⟨migrated, ?_⟩
  rw [passes, passes_of_isMigrated migrated]
  rfl

end Plan

end FormulaMigration
