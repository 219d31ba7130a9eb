import FormulaMigration.Proofs.Calls

namespace FormulaMigration

namespace Text

theorem isQuoted_quote (s : Text) : s.quote.isQuoted = true := by
  simp [isQuoted, quote, List.getLast?_cons]

theorem balanced_quote {s : Text} : s.quote.balances 0 ↔ s.Balanced := by
  have mark : Plain ['\x22'] := plain_iff.mpr rfl
  have front : balances 0 s.quote = balances 0 (s ++ ['\x22']) :=
    balances_append (balances_of_plain mark) 0 _
  rw [front, balances_append_plain mark, balanced_iff]

theorem sheltered_quote {s : Text} : s.quote.Sheltered ↔ s.Sheltered := by
  constructor
  · intro h l r hs even
    apply h ('\x22' :: l) (r ++ ['\x22']) (by simp [quote, hs])
    simpa using even
  · intro h l r hs even
    cases l with
    | nil => simp [quote] at hs
    | cons c l =>
      rw [quote, List.cons_append, List.cons_append, List.cons.injEq] at hs
      obtain ⟨rfl, hs⟩ := hs
      rcases List.eq_nil_or_concat r with rfl | ⟨r, d, rfl⟩
      · have last := congrArg List.getLast? hs
        simp at last
      · have whole : s ++ ['\x22'] = (l ++ ',' :: r) ++ [d] := by simpa using hs
        apply h l r (List.append_inj_left' whole rfl)
        simpa using even

end Text

theorem Script.copied?_quote {function s : Text}
    (dice : takesDiceLiterals function → '(' ∉ s) :
    copied? function 0 s.quote = some s.quote := by
  unfold copied?
  split_ifs with literal unopened quoted
  · rw [diceLiteral, Text.trim_quote, Text.isQuoted_quote, Bool.or_true]
    rfl
  · refine absurd ⟨.inl rfl, ?_⟩ unopened
    simpa [Text.quote] using dice literal
  · rfl
  · exact absurd s.isQuoted_quote quoted

namespace Formula

theorem ofText_quote {s : Text} :
    ofText s.quote = .ok (.operand s.quote none) ↔ Operator.next? s.quote 0 = none := by
  rw [Operator.next?, Operator.nextFrom_eq_none_iff]
  constructor
  · intro reading
    obtain ⟨ts, reads, -, leaves⟩ := exists_reads reading
    have whole := leaves.operand_mem (List.mem_map_of_mem List.mem_cons_self)
    exact reads.inert (by simp [Operator.Edge]) whole [] [] (by simp)
  · intro absent
    have filled : s.quote ≠ [] := List.cons_ne_nil _ _
    have reads := @Reads.last false [] s.quote absent
    rw [Token.ofGap_eq (by rwa [Text.trim_quote]), Text.trim_quote] at reads
    have marked : Grammar.Marked none false 1 [.operand s.quote] (.operand s.quote none) :=
      (Grammar.Marked.operand filled).lower (by decide)
    exact marked.ofText_plain reads

theorem convert?_quote_alone {s : Text} (absent : Operator.next? s.quote 0 = none) :
    convert? s.quote = .ok ⟨s.quote, []⟩ := by
  rw [convert?, ofText_quote.mpr absent]
  have literal : Literal.ofOperand s.quote = s.quote := if_pos (Literal.isScript_quote s)
  change Except.ok (Conversion.mk (Literal.ofOperand s.quote) []) = _
  rw [literal]

theorem convert?_call_quote {name function s : Text} (h : scriptCall? name = some function)
    (balanced : s.Balanced) (sheltered : s.Sheltered)
    (dice : takesDiceLiterals function → '(' ∉ s) :
    convert? (Text.call name s.quote) = .ok ⟨Text.call function s.quote, []⟩ := by
  have matching := Text.balanced_iff.mpr (Text.balanced_quote.mpr balanced)
  have whole : Arguments.Whole s.quote :=
    ⟨List.cons_ne_nil _ _, matching, Text.sheltered_quote.mpr sheltered⟩
  have copied : Script.argument Script.nested function 0 s.quote = ⟨[s.quote], []⟩ :=
    Script.argument_of_copied (Script.copied?_quote dice)
  have written : Script.separate (Script.argumentsFrom Script.nested function 0 [s.quote]) =
      ⟨[s.quote], []⟩ := by
    rw [Script.argumentsFrom, copied]
    rfl
  exact convert?_call h (List.forall_mem_singleton.mpr whole) written

/-- Quoted text is read whole exactly when no operator stands in it, and as the one argument of a
call exactly when its parentheses match and every comma stands in them. It is then written as it
stands; calls that take dice as text copy only what has no parentheses. -/
theorem convert?_quote (s : Text) :
    (ofText s.quote = .ok (.operand s.quote none) ↔ Operator.next? s.quote 0 = none) ∧
      (Operator.next? s.quote 0 = none → convert? s.quote = .ok ⟨s.quote, []⟩) ∧
      ∀ name function, scriptCall? name = some function →
        (ofText (Text.call name s.quote) = .ok (.call function s.quote none) ∧
          Arguments.ofText s.quote = [s.quote] ↔ s.Balanced ∧ s.Sheltered) ∧
        (s.Balanced → s.Sheltered → (takesDiceLiterals function → '(' ∉ s) →
          convert? (Text.call name s.quote) = .ok ⟨Text.call function s.quote, []⟩) := by
  refine ⟨ofText_quote, convert?_quote_alone, ?_⟩
  intro name function h
  constructor
  · rw [ofText_call h, Text.balanced_quote, Arguments.ofText_eq_singleton_iff, Text.sheltered_quote]
    have filled : s.quote ≠ [] := List.cons_ne_nil _ _
    simp [filled]
  · exact convert?_call_quote h

theorem convert?_quote_exponent :
    convert? "\"1e-2, x\"".toList = .ok ⟨"\"1e-2, x\"".toList, []⟩ ∧
      convert? "has_trait(\"a+!(b, c)\")".toList =
        .ok ⟨"entity.hasTrait(\"a+!(b, c)\")".toList, []⟩ ∧
      convert? "dice_count(\"2d6-1\")".toList = .ok ⟨"dice.count(\"2d6-1\")".toList, []⟩ := by
  have nested : Text.Sheltered "a+!(b, c)".toList := by
    have single : Arguments.ofText "a+!(b, c)".toList = ["a+!(b, c)".toList] := rfl
    exact (Arguments.ofText_eq_singleton_iff.mp single).2
  have dice : Text.Sheltered "2d6-1".toList := by
    have single : Arguments.ofText "2d6-1".toList = ["2d6-1".toList] := rfl
    exact (Arguments.ofText_eq_singleton_iff.mp single).2
  refine ⟨?_, ?_, ?_⟩
  · exact (convert?_quote "1e-2, x".toList).2.1 rfl
  · exact ((convert?_quote "a+!(b, c)".toList).2.2 "has_trait".toList _ rfl).2
      (Text.balanced_iff.mpr rfl) nested (by decide)
  · exact ((convert?_quote "2d6-1".toList).2.2 "dice_count".toList _ rfl).2
      (Text.balanced_iff.mpr rfl) dice (by decide)

theorem convert?_quote_torn :
    (∀ s ∈ ["a+b".toList, "a,b".toList, "a)b".toList, "a(b)".toList], '\x22' ∉ s) ∧
      convert? (Text.quote "a+b".toList) = .ok ⟨"\"\"a\" + \"b\"\"".toList, []⟩ ∧
      convert? (Text.call "has_trait".toList (Text.quote "a,b".toList)) =
        .ok ⟨"entity.hasTrait(\"\"a\", \"b\"\")".toList, []⟩ ∧
      convert? (Text.call "has_trait".toList (Text.quote "a)b".toList)) =
        .error (.unmatchedClose 15) ∧
      convert? (Text.call "dice_count".toList (Text.quote "a(b)".toList)) =
        .ok ⟨"dice.count(<error>)".toList, [⟨.argumentPlaceholder, "\"a(b)\"".toList,
          "function not defined: \"a".toList⟩]⟩ := by
  refine ⟨by decide, rfl, rfl, rfl, rfl⟩

end Formula

end FormulaMigration
