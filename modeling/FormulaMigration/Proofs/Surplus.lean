import FormulaMigration.Proofs.OpenFrames

namespace FormulaMigration

theorem Operator.count_token (op : Operator) :
    op.token.count '(' = [op].count .openGroup ∧ op.token.count ')' = [op].count .closeGroup := by
  cases op <;> decide

namespace Formula

def leafSign : Formula → Option Operator
  | operand _ sign => sign
  | call _ _ sign => sign
  | _ => none

namespace Stacks

def Signed (s : Stacks) : Prop :=
  ∀ leaf ∈ stacked s.operands, ∀ op ∈ leaf.leafSign, op.isUnary

theorem empty_signed : Stacks.empty.Signed := by
  simp [Signed, Stacks.empty, stacked]

theorem close_stacked {index : Nat} {s s' : Stacks} (h : s.close index = .ok s')
    (sound : s.Sound) : stacked s'.operands = stacked s.operands := by
  obtain ⟨operands, sign, frames, hr, closed⟩ := close_ok h
  obtain ⟨-, same, -⟩ := reduceWhile_built hr sound.built
  rcases closed with ⟨-, rfl⟩ | ⟨op, inner, rest, -, rfl, rfl⟩
  · exact same
  · rw [← same, stacked_cons, stacked_cons, Formula.leaves, Formula.leaves, List.append_nil]

theorem readOperator_stacked {start : Nat} {op : Operator} {s s' : Stacks}
    (h : s.readOperator start op = .ok s') (sound : s.Sound) :
    stacked s'.operands = stacked s.operands := by
  cases readOperator_ok h with
  | sign => rfl
  | opens => rfl
  | closes group closed => exact close_stacked closed sound
  | joins opens closes later pushed =>
    obtain ⟨operands, frames, hr, rfl⟩ := pushOperator_ok pushed
    exact (reduceWhile_built hr sound.built).2.1

theorem read_signed {l : Lexeme} {s s' : Stacks} (h : s.read l = .ok s') (sound : s.Sound)
    (signed : s.Signed) : s'.Sound ∧ s'.Signed := by
  cases l with
  | operand start t =>
    refine ⟨(readOperand_sound h sound).1, ?_⟩
    obtain ⟨-, rfl⟩ := readOperand_ok h
    rw [Signed, stacked_cons]
    exact List.forall_mem_append.mpr ⟨signed, List.forall_mem_singleton.mpr sound.sign⟩
  | operator start op =>
    refine ⟨(readOperator_sound h sound).1, ?_⟩
    rw [Signed, readOperator_stacked h sound]
    exact signed
  | arguments opening closing a =>
    refine ⟨(readArguments_sound h sound).1, ?_⟩
    obtain ⟨name, sign, rest, function, -, named, rfl⟩ := readArguments_ok h
    rw [Signed, named, stacked_cons] at signed
    obtain ⟨others, called⟩ := List.forall_mem_append.mp signed
    rw [Signed, stacked_cons]
    exact List.forall_mem_append.mpr
      ⟨others, List.forall_mem_singleton.mpr (List.forall_mem_singleton.mp called)⟩
  | unclosed opening => cases h

theorem run_signed {ls : List Lexeme} {s : Stacks} (run : ls.foldlM read Stacks.empty = .ok s) :
    s.Sound ∧ s.Signed :=
  foldlM_invariant (P := fun s => s.Sound ∧ s.Signed)
    (fun _ _ _ _ h both => read_signed h both.1 both.2) run ⟨empty_sound, empty_signed⟩

end Stacks

end Formula

namespace Script

theorem surplus_enclosed {s : Script} {n : Nat} (filled : s.tokens ≠ [])
    (count : s.text.count '(' = s.text.count ')' + n) (grouped : Bool) :
    (s.enclosed grouped).text.count '(' = (s.enclosed grouped).text.count ')' + n := by
  cases grouped with
  | false => exact count
  | true =>
    rw [text_enclosed filled]
    simp [count]
    omega

end Script

namespace Formula

theorem Matched.of_unsigned {leaf : Formula} (h : leaf.unsigned.Matched)
    (sign : ∀ op ∈ leaf.leafSign, op.isUnary) : leaf.Matched := by
  have plain {sign : Option Operator} (unary : ∀ op ∈ sign, op.isUnary) :
      (Script.signToken sign).Plain := by
    apply plain_signToken
    intro op mem
    have := unary op (by simpa using mem)
    cases op <;> simp_all [Operator.isUnary]
  cases leaf with
  | missing => trivial
  | operand value s => exact ⟨h.1, plain sign⟩
  | call function a s => exact ⟨h.1, h.2.1, plain sign⟩
  | node left right op s grouped => exact h

theorem even_of_mem_leaves {t : Text} {f leaf : Formula} (h : ofText t = .ok f)
    (mem : leaf ∈ f.leaves) : Script.Even (Script.ofFormula leaf).tokens := by
  obtain ⟨ts, reads, built, leaves⟩ := exists_reads h
  obtain ⟨s, run, finished⟩ := exists_of_bind_eq_ok h
  obtain ⟨sound, signed⟩ := Stacks.run_signed run
  have unsigned := matched_of_token leaves reads.matched _ (List.mem_map_of_mem mem)
  have sign : ∀ op ∈ leaf.leafSign, op.isUnary := by
    rw [(finish_stacked finished sound).2] at mem
    exact signed leaf mem
  have tells : (Script.ofFormula leaf).Tells (.formula leaf) :=
    Script.formula_tells fun _ _ _ _ _ _ _ hg => Script.ofFormula_tells hg
  obtain ⟨rs, written, -⟩ := tells
  exact written.even (Matched.of_unsigned unsigned sign)

theorem Built.surplus {f : Formula} (h : Built f) {formula : Text → Script}
    (even : ∀ leaf ∈ f.leaves, Script.Even (Script.ofFormulaWith formula leaf).tokens)
    (other : .closeGroup ∉ f.joints) :
    (Script.ofFormulaWith formula f).tokens ≠ [] ∧
      (Script.ofFormulaWith formula f).text.count '(' =
        (Script.ofFormulaWith formula f).text.count ')' + f.joints.count .openGroup := by
  induction h with
  | operand value sign =>
    have leaf := Text.count_eq_of_balances (even _ List.mem_cons_self)
    exact ⟨List.cons_ne_nil _ _, leaf⟩
  | call function a sign =>
    have leaf := Text.count_eq_of_balances (even _ List.mem_cons_self)
    exact ⟨List.cons_ne_nil _ _, leaf⟩
  | @node f g op grouped left right ihl ihr =>
    simp only [joints, left.isPresent, right.isPresent, Bool.and_self, if_true,
      Option.toList_some, List.mem_append, List.mem_singleton, not_or] at other
    obtain ⟨evenl, evenr⟩ := List.forall_mem_append.mp even
    obtain ⟨filled, count⟩ := ihl evenl other.1.1
    obtain ⟨filled', count'⟩ := ihr evenr other.2
    have script := Script.ofFormulaWith_node formula left.isPresent right.isPresent op grouped
      rfl rfl
    generalize Script.ofFormulaWith formula f = l at filled count script
    generalize Script.ofFormulaWith formula g = r at filled' count' script
    -- Both sides and the operator between them count, parentheses around all of it do not.
    rw [script]
    have filled'' : l.tokens ++ op.token :: r.tokens ≠ [] := by simp
    refine ⟨Script.enclosed_ne_nil (s := ⟨_, l.issues ++ r.issues⟩) filled'' grouped, ?_⟩
    apply Script.surplus_enclosed (s := ⟨_, l.issues ++ r.issues⟩) filled''
    have text : Script.text ⟨l.tokens ++ op.token :: r.tokens, l.issues ++ r.issues⟩ =
        l.text ++ [' '] ++ (op.token ++ [' '] ++ r.text) := by
      rw [Script.text, Script.join_append filled (by simp), Script.join_cons _ _ filled']
      rfl
    obtain ⟨opens, closes⟩ := op.count_token
    have plain : [op].count .closeGroup = 0 := List.count_eq_zero.mpr (by simpa using other.1.2)
    have blank : [' '].count '(' = 0 ∧ [' '].count ')' = 0 := ⟨rfl, rfl⟩
    rw [text]
    simp only [List.count_append, joints, left.isPresent, right.isPresent, Bool.and_self, if_true,
      Option.toList_some, opens, closes, plain, blank, count, count']
    omega
  | @right g op grouped right ih =>
    obtain ⟨filled, count⟩ := ih even (by simpa [joints, Formula.isPresent] using other)
    rw [Script.ofFormulaWith_right]
    refine ⟨Script.enclosed_ne_nil filled grouped, ?_⟩
    simpa [joints, Formula.isPresent] using Script.surplus_enclosed filled count grouped
  | @signed f sign unary inner ih =>
    obtain ⟨filled, count⟩ := ih (by simpa [Formula.leaves] using even)
      (by simpa [joints, Formula.isPresent] using other)
    change (Script.ofFormulaWith formula (Grammar.withSign (some sign) f)).tokens ≠ [] ∧
      (Script.ofFormulaWith formula (Grammar.withSign (some sign) f)).text.count '(' =
        (Script.ofFormulaWith formula (Grammar.withSign (some sign) f)).text.count ')' + _
    rw [Script.ofFormulaWith_withSign, Script.text_signed filled]
    refine ⟨Script.mapFirst_ne_nil filled, ?_⟩
    obtain ⟨opens, closes⟩ := sign.count_token
    have plain : [sign].count .openGroup = 0 ∧ [sign].count .closeGroup = 0 := by
      cases sign <;> first | (cases unary; done) | decide
    simp [Script.signToken, opens, closes, plain, count, joints, Formula.isPresent]

theorem joints_subset (f : Formula) : f.joints ⊆ f.operators := by
  induction f with
  | node left right op sign grouped ihl ihr =>
    intro p mem
    simp only [joints, operators, List.mem_append] at mem ⊢
    rcases mem with (mem | mem) | mem
    · exact .inl (.inl (.inl (ihl mem)))
    · split_ifs at mem with both
      · exact .inl (.inl (.inr mem))
      · cases mem
    · exact .inr (ihr mem)
  | _ => exact List.nil_subset _

theorem surplus_ofText {t : Text} {f : Formula} (h : ofText t = .ok f) :
    (Script.ofFormula f).text.count '(' =
      (Script.ofFormula f).text.count ')' + f.joints.count .openGroup := by
  obtain ⟨-, -, built, -⟩ := exists_reads h
  have closes : .closeGroup ∉ f.joints := by
    intro mem
    exact List.count_eq_zero.mp (count_operators h).2 (joints_subset f mem)
  exact (built.surplus (fun leaf mem => even_of_mem_leaves h mem) closes).2

theorem text_ne_of_joints {t t' : Text} {f g : Formula} (reading : ofText t = .ok f)
    (joins : .openGroup ∈ f.joints) (matching : t'.Balanced) (reading' : ofText t' = .ok g) :
    (Script.ofFormula g).text ≠ (Script.ofFormula f).text := by
  intro same
  have more := surplus_ofText reading
  have even := surplus_ofText reading'
  have none : .openGroup ∉ g.joints := fun mem =>
    (operators_of_balances reading' (Text.balanced_iff.mp matching) _ (joints_subset g mem)).1 rfl
  have some := List.count_pos_iff.mpr joins
  rw [← same, even, List.count_eq_zero.mpr none] at more
  omega

end Formula

end FormulaMigration
