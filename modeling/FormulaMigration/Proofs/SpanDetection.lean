import FormulaMigration.Proofs.RepeatedMigration

namespace FormulaMigration

namespace Embedded

theorem hasSpan_iff_exists {t : Text} :
    hasSpan t = true ↔
      ∃ l formula r, t = l ++ (span formula ++ r) ∧ formula ≠ [] ∧ '|' ∉ formula := by
  rw [hasSpan_eq_true_iff]
  constructor
  · rintro ⟨l, _, rfl, formula, r, rfl, filled, barless⟩
    exact ⟨l, formula, r, rfl, filled, barless⟩
  · rintro ⟨l, formula, r, rfl, filled, barless⟩
    exact ⟨l, _, rfl, formula, r, rfl, filled, barless⟩

theorem hasScript_convert_iff {t : Text} :
    hasScript (convert t).output = true ↔ hasScript t = true ∨ hasSpan t = true := by
  cases span : hasSpan t with
  | true => simp [hasScript, Text.includes_iff, scriptStart_infix_convert span]
  | false => simp [convert_of_not_hasSpan span]

end Embedded

namespace Plan

variable {plan : Plan}

theorem value_fieldOf_ne_iff {place : List Nat} {t : Text} :
    (plan.fieldOf ⟨place, .embedded, t⟩).value ≠ t ↔
      ¬ plan.Spares .embedded t ∧ Embedded.hasSpan t = true := by
  by_cases spared : plan.Spares .embedded t
  · simp [fieldOf, migrateField_spared spared, spared]
  · have changes : (convertField .embedded t).output = t ↔ Embedded.hasSpan t = false :=
      Embedded.convert_eq_self_iff
    rw [fieldOf, migrateField_taken spared]
    simp [changes, spared]

theorem tally_eq_oneConverted_iff {s : NamedString} :
    (plan.fieldOf s).tally = .oneConverted ↔ (plan.fieldOf s).value ≠ s.text := by
  obtain ⟨candidates, converted, -, parts⟩ := plan.tally_fieldOf s
  constructor
  · intro same kept
    rw [same, if_neg (not_not.mpr kept)] at converted
    cases converted
  · intro changed
    rw [if_pos changed] at converted
    generalize (plan.fieldOf s).tally = tally at candidates converted parts ⊢
    cases tally
    simp only [Tally.oneConverted, Tally.mk.injEq] at candidates converted parts ⊢
    omega

theorem converted_walk (document : Json) :
    (plan.walk document).tally.converted =
      (plan.strings document).countP (fun s => s.kind = .embedded ∧
        ¬ plan.Spares .embedded s.text ∧ Embedded.hasSpan s.text = true) +
      (plan.strings document).countP (fun s => s.kind = .expression ∧
        (plan.fieldOf s).value ≠ s.text) := by
  rw [(plan.walk_consists document).tally, (plan.total_fieldOf _).2.1,
    List.countP_eq_countP_filter_add _ _ (fun s => decide (s.kind = .embedded)),
    List.countP_filter, List.countP_filter]
  congr 1
  · apply List.countP_congr
    rintro ⟨place, kind, t⟩ -
    cases kind with
    | expression => simp
    | embedded =>
      have changes : (plan.fieldOf ⟨place, .embedded, t⟩).value ≠ t ↔ _ := value_fieldOf_ne_iff
      simp [changes]
  · apply List.countP_congr
    rintro ⟨place, kind, t⟩ -
    cases kind <;> simp

/-- A text is changed exactly when it has a span, and then it has a script. Free text that is
neither blank nor skipped counts as converted exactly when it has a span, whatever became of the
formulas in it. -/
theorem converted_iff_hasSpan (plan : Plan) (t : Text) :
    (Embedded.hasSpan t = true ↔ ∃ l formula r, t = l ++ (Embedded.span formula ++ r) ∧
      formula ≠ [] ∧ '|' ∉ formula) ∧
    ((Embedded.convert t).output = t ↔ Embedded.hasSpan t = false) ∧
    (Embedded.hasScript (Embedded.convert t).output = true ↔
      Embedded.hasScript t = true ∨ Embedded.hasSpan t = true) ∧
    (∀ place, (plan.fieldOf ⟨place, .embedded, t⟩).tally = .oneConverted ↔
      ¬ plan.Spares .embedded t ∧ Embedded.hasSpan t = true) ∧
    ∀ document, (plan.walk document).tally.converted =
      (plan.strings document).countP (fun s => s.kind = .embedded ∧
        ¬ plan.Spares .embedded s.text ∧ Embedded.hasSpan s.text = true) +
      (plan.strings document).countP (fun s => s.kind = .expression ∧
        (plan.fieldOf s).value ≠ s.text) :=
  ⟨Embedded.hasSpan_iff_exists, Embedded.convert_eq_self_iff, Embedded.hasScript_convert_iff,
    fun _ => tally_eq_oneConverted_iff.trans value_fieldOf_ne_iff, converted_walk⟩

example : (legacy.migrateField .embedded "||)|| or ||abs(||".toList).value =
      "<script>)</script> or <script>abs(</script>".toList ∧
    (legacy.migrateField .embedded "||)|| or ||abs(||".toList).tally = .oneConverted ∧
    (legacy.migrateField .embedded "||)|| or ||abs(||".toList).issues.length = 2 :=
  ⟨rfl, rfl, rfl⟩

end Plan

end FormulaMigration
