import FormulaMigration.Proofs.MigrationSummary
import FormulaMigration.Proofs.RemainingSpans

namespace FormulaMigration

namespace Embedded

theorem convert_of_not_hasSpan {t : Text} (h : hasSpan t = false) : convert t = ⟨t, []⟩ := by
  have cut : Segments t [] t := .last (hasSpan_eq_false_iff.mp h)
  rw [cut.convert_eq]
  rfl

theorem scriptStart_infix_convert {t : Text} (h : hasSpan t = true) :
    scriptStart <:+: (convert t).output := by
  obtain ⟨segments, last, cut⟩ := exists_segments t
  rw [cut.convert_eq]
  cases cut with
  | last free =>
    rw [hasSpan_eq_false_iff.mpr free] at h
    cases h
  | @more gap formula rest last segments free filled barless tail =>
    rw [List.flatMap_cons]
    simp only [script, List.append_assoc]
    exact ⟨gap, _, List.append_assoc _ _ _⟩

end Embedded

theorem Json.eq_of_children {v w : Json} (outline : v.outline = w.outline)
    (children : v.children = w.children) : v = w := by
  have unkeyed : Function.Injective fun v : Json => ((none : Option Text), v) := fun _ _ h =>
    (Prod.mk.inj h).2
  have keyed : Function.Injective fun (member : Text × Json) => (some member.1, member.2) :=
    fun _ _ h => Prod.ext (Option.some.inj (Prod.mk.inj h).1) (Prod.mk.inj h).2
  cases v with
  | array items =>
    cases w with
    | array items' => rw [List.map_injective_iff.mpr unkeyed children]
    | _ => cases outline
  | object members =>
    cases w with
    | object members' => rw [List.map_injective_iff.mpr keyed children]
    | _ => cases outline
  | _ => cases w <;> first | exact outline | cases outline

namespace Plan

variable {plan : Plan}

structure Settled (plan : Plan) (s : NamedString) : Prop where
  value : (plan.fieldOf s).value = s.text
  issues : (plan.fieldOf s).issues = []

theorem Settled.of_spares {s : NamedString} (h : plan.Spares s.kind s.text) : plan.Settled s where
  value := migrateField_spared h
  issues := by rw [issues_fieldOf, issuesOf, if_pos h]

theorem settled_migrateField (skips : plan.skipConverted) (place : List Nat) (t : Text) :
    plan.Settled ⟨place, .embedded, (plan.migrateField .embedded t).value⟩ := by
  by_cases spared : plan.Spares .embedded (plan.migrateField .embedded t).value
  · exact .of_spares spared
  have taken : ¬ plan.Spares .embedded t := by
    intro before
    rw [migrateField_spared before] at spared
    exact spared before
  rw [migrateField_taken taken] at spared ⊢
  cases span : Embedded.hasSpan t with
  | true =>
    exact absurd (.inr ⟨rfl, skips, Embedded.scriptStart_infix_convert span⟩) spared
  | false =>
    have same : convertField .embedded t = ⟨t, []⟩ := Embedded.convert_of_not_hasSpan span
    rw [same]
    constructor
    · rw [fieldOf, migrateField_taken taken, same]
    · rw [issues_fieldOf, issuesOf, if_neg taken]
      exact congrArg Conversion.issues same

theorem eq_embedded_of_kindOf? (embedded : plan.expressionKeys = []) {key : Text} {kind : FieldKind}
    (h : plan.kindOf? key = some kind) : kind = .embedded := by
  rw [kindOf?, embedded, if_neg List.not_mem_nil] at h
  split_ifs at h
  exact (Option.some.inj h).symm

theorem settled_of_mem_strings (skips : plan.skipConverted) (embedded : plan.expressionKeys = [])
    {document : Json} {s : NamedString} (h : s ∈ plan.strings (plan.walk document).value) :
    plan.Settled s := by
  obtain ⟨place, kind, t⟩ := s
  rw [← stringsOf_none, mem_stringsOf, ← renewed_none, at?_renewed_eq] at h
  obtain ⟨name, here, named⟩ := h
  obtain rfl := eq_embedded_of_kindOf? embedded named
  obtain ⟨⟨key, v⟩, -, renewal⟩ := Option.map_eq_some_iff.mp here
  obtain ⟨rfl, string⟩ := Prod.mk.inj renewal
  have known : (some name).bind plan.kindOf? = some .embedded := named
  cases v with
  | string t' =>
    rw [renewed_named known] at string
    obtain rfl := Json.string.inj string
    exact settled_migrateField skips place t'
  | _ =>
    rw [renewed_container (by simp)] at string
    cases string

theorem renewed_eq_self {key : Option Text} {v : Json}
    (h : ∀ s ∈ plan.stringsOf key v, (plan.fieldOf s).value = s.text) : plan.renewed key v = v := by
  induction hn : sizeOf v using Nat.strongRecOn generalizing key v with
  | ind n ih =>
    by_cases named : ∃ kind t, key.bind plan.kindOf? = some kind ∧ v = .string t
    · obtain ⟨kind, t, known, rfl⟩ := named
      rw [stringsOf_named known] at h
      rw [renewed_named known]
      exact congrArg Json.string (h _ (List.mem_singleton_self _))
    have other (kind t) (known : key.bind plan.kindOf? = some kind) : v ≠ .string t :=
      fun string => named ⟨kind, t, known, string⟩
    rw [stringsOf_other other] at h
    have inside : ∀ child ∈ v.children, plan.renewed child.1 child.2 = child.2 := by
      rintro ⟨key, child⟩ mem
      apply ih _ (hn ▸ Json.sizeOf_lt_of_mem_children mem) _ rfl
      rintro ⟨place, kind, t⟩ hs
      obtain ⟨i, here⟩ := List.mem_iff_getElem?.mp mem
      exact h ⟨i :: place, kind, t⟩ (mem_strings.mpr ⟨key, child, here, hs⟩)
    apply Json.eq_of_children
    · rw [renewed_other other, outline_walk]
    · rw [children_renewed]
      conv_rhs => rw [← List.map_id v.children]
      exact List.map_congr_left fun child mem => Prod.ext rfl (inside child mem)

theorem walk_of_settled {document : Json} (h : ∀ s ∈ plan.strings document, plan.Settled s) :
    (plan.walk document).value = document ∧ (plan.walk document).issues = [] := by
  constructor
  · rw [← renewed_none]
    apply renewed_eq_self
    intro s mem
    exact (h s (by rwa [stringsOf_none] at mem)).value
  · rw [(walk_consists plan document).issues, List.flatMap_eq_nil_iff]
    exact fun s mem => (h s mem).issues

theorem stamp_of_not_isMigrated {v : Json} (h : ¬ plan.isMigrated (plan.stamp v)) :
    plan.stamp v = v := by
  cases v with
  | object members => exact absurd (isMigrated_stamp plan members) h
  | _ => rfl

theorem unchanged_of_settled {document : Json} (h : ∀ s ∈ plan.strings document, plan.Settled s)
    (kept : plan.stamp document = document) :
    (plan.migrate document).document = document ∧ (plan.migrate document).issues = [] := by
  obtain ⟨value, issues⟩ := walk_of_settled h
  by_cases found : plan.isMigrated document
  · rw [migrate_of_isMigrated found]
    exact ⟨rfl, rfl⟩
  · rw [migrate_of_not_isMigrated found]
    exact ⟨by rw [value, kept], issues⟩

theorem unchanged_migrate (skips : plan.skipConverted) (embedded : plan.expressionKeys = [])
    (document : Json) :
    (plan.migrate (plan.migrate document).document).document = (plan.migrate document).document ∧
      (plan.migrate (plan.migrate document).document).issues = [] := by
  by_cases found : plan.isMigrated (plan.migrate document).document
  · rw [migrate_of_isMigrated found]
    exact ⟨rfl, rfl⟩
  have unstamped : ¬ plan.isMigrated document := by
    intro before
    rw [migrate_of_isMigrated before] at found
    exact found before
  have stamped : (plan.migrate document).document = plan.stamp (plan.walk document).value := by
    rw [migrate_of_not_isMigrated unstamped]
  -- What has no version after the stamp has no place for one.
  rw [stamped] at found ⊢
  have kept := stamp_of_not_isMigrated found
  rw [kept]
  exact unchanged_of_settled (fun _ => settled_of_mem_strings skips embedded) kept

/-- Where no key names a formula and scripts are left alone, all migrations after the first change
neither the document, whatever it is, nor the ledger. -/
theorem passes_embedded (skips : plan.skipConverted) (embedded : plan.expressionKeys = [])
    (document : Json) (time : UInt64) (times : List UInt64) (l : Ledger) :
    let first := plan.migrate document
    let again := plan.migrate first.document
    again.document = first.document ∧ again.issues = [] ∧
      plan.passes (time :: times) document l =
        (first :: times.map fun _ => again, l.extend time first.issues) := by
  obtain ⟨same, clean⟩ := unchanged_migrate skips embedded document
  refine ⟨same, clean, ?_⟩
  rw [passes, passes_of_unchanged same clean]

theorem passes_embedded_array :
    ∃ plan document, plan = { blank with embeddedKeys := ["notes".toList] } ∧
      document = Json.array [.record [("notes", .ofString "||b)||")],
        .record [("notes", .ofString "||||a||||")], .record [("notes", .ofString " ")]] ∧
      plan.skipConverted = true ∧ plan.expressionKeys = [] ∧
      let first := plan.migrate document
      let again := plan.migrate first.document
      first.document.compact = "[\x7b\"notes\":\"<script>b)</script>\"\x7d,".toList ++
        "\x7b\"notes\":\"||<script>\\\"a\\\"</script>||\"\x7d,\x7b\"notes\":\" \"\x7d]".toList ∧
      first.issues.length = 1 ∧ again.document = first.document ∧ again.issues = [] ∧
      plan.passes [1, 2, 3] document .empty =
        ([first, again, again], Ledger.empty.extend 1 first.issues) :=
  ⟨_, _, rfl, rfl, rfl, rfl, by decide +kernel, by decide +kernel,
    passes_embedded rfl rfl _ 1 [2, 3] .empty⟩

end Plan

end FormulaMigration
