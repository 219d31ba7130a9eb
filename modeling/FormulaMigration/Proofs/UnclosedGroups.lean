import FormulaMigration.Proofs.SignedGroups
import FormulaMigration.Proofs.Surplus

namespace FormulaMigration

namespace Formula

theorem exists_stacks {e : Text} {k : Nat} {f : Formula} (reading : ofText e = .ok f)
    (matching : Text.Balanced (e ++ List.replicate k ')')) (outside : e.NegatesOutside) :
    ∃ s, (Lexeme.ofText e).foldlM Stacks.read Stacks.empty = .ok s ∧
      s.finish (Text.byteLength e) = .ok f ∧ s.Sound ∧ opened s.frames = k ∧
      (s.operands.flatMap operators).count .openGroup = 0 := by
  obtain ⟨s, run, finished⟩ := exists_of_bind_eq_ok reading
  obtain ⟨sound, -⟩ := Stacks.run_signed run
  have deep := (lexes_ofText_iff.mpr rfl).count_eq (List.nil_append e).symm rfl
    (List.Subset.refl _) outside rfl (Stacks.run_opened run)
  have even := matching.2
  simp only [List.count_append, List.count_replicate, beq_self_eq_true, if_true] at even
  have open' : opened s.frames = k := by
    simp at even
    omega
  obtain ⟨total, -⟩ := count_operators reading
  rw [(tallies_operators .openGroup).finish finished, collect, List.count_append,
    ← opened_eq_count] at total
  exact ⟨s, run, finished, sound, open', by omega⟩

theorem ofText_append_closes {e : Text} {s : Stacks}
    (run : (Lexeme.ofText e).foldlM Stacks.read Stacks.empty = .ok s) (k : Nat) :
    ∃ ls : List Lexeme, ls.map Lexeme.token? = List.replicate k (some (.operator .closeGroup)) ∧
      ofText (e ++ List.replicate k ')') =
        ls.foldlM Stacks.read s >>=
          Stacks.finish (Text.byteLength (e ++ List.replicate k ')')) := by
  obtain ⟨ls, whole, tokens⟩ := Lexeme.ofText_append_closes (unclosed_notMem_of_run run) k
  refine ⟨ls, tokens, ?_⟩
  rw [ofText, whole, List.foldlM_append, run]
  rfl

theorem output_convert? (t o : Text) :
    (convert? t).map Conversion.output = .ok o ↔
      ∃ f, ofText t = .ok f ∧ (Script.ofFormula f).text = o := by
  rw [convert?]
  cases ofText t <;> simp [Except.map, bind, Except.bind]

/-- A text whose open groups are closed behind it is converted as before exactly when none of these
groups joins two sides or stands directly in another one, and no sign at the start stands before
one of them. -/
theorem convert?_unclosed {e : Text} {k : Nat} {c : Conversion} (left : 0 < k)
    (matching : Text.Balanced (e ++ List.replicate k ')')) (outside : e.NegatesOutside)
    (conversion : convert? e = .ok c) :
    ∃ f, ofText e = .ok f ∧
      ((convert? (e ++ List.replicate k ')')).map Conversion.output = .ok c.output ↔
        f.Closable ∧ ¬ e.SignsOpenGroup) ∧
      (f.Closable ∧ ¬ e.SignsOpenGroup → convert? (e ++ List.replicate k ')') = .ok c ∧
        ∃ g, ofText (e ++ List.replicate k ')') = .ok g ∧ g.joints = f.joints ∧
          .openGroup ∉ f.joints) := by
  obtain ⟨f, reading, written⟩ := exists_of_bind_eq_ok conversion
  cases written
  obtain ⟨s, run, finished, sound, rfl, fresh⟩ := exists_stacks reading matching outside
  obtain ⟨ls, tokens, whole⟩ := ofText_append_closes run (opened s.frames)
  rw [output_convert?]
  refine ⟨f, reading, ?_⟩
  rcases Stacks.finish_cases finished sound left fresh tokens
    (Text.byteLength (e ++ List.replicate (opened s.frames) ')')) with
    joins | ⟨g, parentheses, signs, closing, differs, joints, closable, free⟩
  · -- A `(` between two sides is written, and no script of a balanced text has one too many.
    have open' : ¬ f.Closable := fun closable => closable.joints joins
    refine ⟨iff_of_false ?_ (fun both => open' both.1), fun both => absurd both.1 open'⟩
    rintro ⟨g, reading', same⟩
    exact text_ne_of_joints reading joins matching reading' same
  · rw [← whole] at closing
    have differs : Script.Differs parentheses signs (Script.ofFormula f) (Script.ofFormula g) :=
      differs _
    rw [signFree_iff outside run] at free
    refine ⟨?_, ?_⟩
    · rw [closable, free, ← differs.text_eq_iff, closing]
      simp [eq_comm]
    · rintro ⟨closes, unsigned⟩
      have same := differs.same (closable.mp closes) (free.mp unsigned)
      refine ⟨?_, g, closing, joints, closes.joints⟩
      rw [convert?, closing, same]
      rfl

theorem convert?_unclosed_nested :
    ∃ (e : Text) (c : Conversion), e = "(*(max(1, (2)) - (a)".toList ∧
      Text.Balanced (e ++ List.replicate 2 ')') ∧ e.NegatesOutside ∧ convert? e = .ok c ∧
      ∃ f, ofText e = .ok f ∧
        ((convert? (e ++ List.replicate 2 ')')).map Conversion.output = .ok c.output ↔
          f.Closable ∧ ¬ e.SignsOpenGroup) ∧
        (f.Closable ∧ ¬ e.SignsOpenGroup → convert? (e ++ List.replicate 2 ')') = .ok c ∧
          ∃ g, ofText (e ++ List.replicate 2 ')') = .ok g ∧ g.joints = f.joints ∧
            .openGroup ∉ f.joints) := by
  have matching : Text.Balanced ("(*(max(1, (2)) - (a)".toList ++ List.replicate 2 ')') :=
    Text.balanced_iff.mpr rfl
  have outside : Text.NegatesOutside "(*(max(1, (2)) - (a)".toList := by
    intro l r whole
    have mem : '!' ∈ "(*(max(1, (2)) - (a)".toList := by simp [whole]
    exact absurd mem (by decide)
  exact ⟨_, _, rfl, matching, outside, rfl, convert?_unclosed Nat.two_pos matching outside rfl⟩

-- A group that takes the `1` for its left side, one that stands directly in another, and one with a
-- sign before it.
theorem convert?_unclosed_apart :
    (Text.Balanced "1+(2)".toList ∧
      (convert? "1+(2".toList).map Conversion.output = .ok "1 ( 2".toList ∧
      (convert? "1+(2)".toList).map Conversion.output = .ok "1 + 2".toList) ∧
    (Text.Balanced "((a))".toList ∧
      (convert? "((a".toList).map Conversion.output = .ok "(\"a\")".toList ∧
      (convert? "((a))".toList).map Conversion.output = .ok "\"a\"".toList) ∧
    Text.Balanced "-(a)".toList ∧
      (convert? "-(a".toList).map Conversion.output = .ok "\"a\"".toList ∧
      (convert? "-(a)".toList).map Conversion.output = .ok "-\"a\"".toList := by
  have matching : Text.Balanced "1+(2)".toList ∧ Text.Balanced "((a))".toList ∧
      Text.Balanced "-(a)".toList :=
    ⟨Text.balanced_iff.mpr rfl, Text.balanced_iff.mpr rfl, Text.balanced_iff.mpr rfl⟩
  exact ⟨⟨matching.1, rfl, rfl⟩, ⟨matching.2.1, rfl, rfl⟩, matching.2.2, rfl, rfl⟩

end Formula

end FormulaMigration
