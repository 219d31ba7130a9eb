import FormulaMigration.Proofs.Grouping
import FormulaMigration.Proofs.Spelling

namespace FormulaMigration

namespace Formula

/-- The formula with literals for operands; a sign in front of a group of one operand goes to the
operand. -/
def settled : Formula → Formula
  | missing => missing
  | operand value sign => operand (Literal.ofOperand value) sign
  | call function a sign => call function a sign
  | node (operand value none) missing none (some sign) _ =>
    operand (Literal.ofOperand value) (some sign)
  | node left right op sign grouped => node left.settled right.settled op sign grouped

def written : Formula → List Token
  | missing => []
  | operand value _ => [.operand value]
  | call _ _ _ => []
  | node left right op _ grouped =>
    let ts := left.written ++ (op.map Token.operator).toList ++ right.written
    if grouped then .operator .openGroup :: (ts ++ [.operator .closeGroup]) else ts

theorem settled_sign {f : Formula} (h : ∀ value, f ≠ operand value none) (sign : Operator) :
    (node f missing none (some sign) false).settled =
      node f.settled missing none (some sign) false := by
  cases f with
  | operand value sign' =>
    cases sign' with
    | none => exact absurd rfl (h value)
    | some sign' => rfl
  | _ => rfl

theorem written_withSign (sign : Option Operator) (f : Formula) :
    (Grammar.withSign sign f).settled.written = f.settled.written := by
  cases sign with
  | none => rfl
  | some sign =>
    by_cases alone : ∃ value, f = operand value none
    · obtain ⟨value, rfl⟩ := alone
      rfl
    · rw [Grammar.withSign, settled_sign fun value hf => alone ⟨value, hf⟩]
      simp [written]

theorem settled_node (f g : Formula) (op : Operator) (grouped : Bool) :
    (node f g (some op) none grouped).settled =
      node f.settled g.settled (some op) none grouped := by
  simp [settled]

theorem eq_missing_of_settled {f : Formula} (h : f.settled = missing) : f = missing := by
  unfold settled at h
  split at h <;> simp_all

theorem eq_operand_of_settled {f : Formula} {value : Text} (h : f.settled = operand value none) :
    ∃ value', f = operand value' none := by
  unfold settled at h
  split at h <;> simp_all

theorem settled_settled (f : Formula) : f.settled.settled = f.settled := by
  induction f using settled.induct with
  | case1 => rfl
  | case2 value sign => simp [settled, Literal.ofOperand_ofOperand]
  | case3 => rfl
  | case4 value sign grouped => simp [settled, Literal.ofOperand_ofOperand]
  | case5 left right op sign grouped other ihl ihr =>
    rw [settled.eq_5 _ _ _ _ _ other, settled.eq_5, ihl, ihr]
    intro value sign' hl hr ho hs
    obtain ⟨value', rfl⟩ := eq_operand_of_settled hl
    exact other value' sign' rfl (eq_missing_of_settled hr) ho hs

end Formula

namespace Grammar

open Formula

inductive Enclosed : Formula → Prop
  | operand {value : Text} (h : value ≠ []) : Enclosed (.operand value none)
  | node {f g : Formula} {op : Operator} {ts : List Token}
      (tokens : (Formula.node f g (some op) none true).written =
        .operator .openGroup :: (ts ++ [.operator .closeGroup]))
      (marked : Marked none true 1 ts (.node f g (some op) none true)) :
      Enclosed (.node f g (some op) none true)

variable {sign : Option Operator} {inGroup : Bool} {level : Nat} {ts : List Token} {f : Formula}

theorem Enclosed.marked (h : Enclosed f) (inGroup : Bool) :
    Marked none inGroup 8 f.written f := by
  cases h with
  | operand h => exact .operand h
  | node tokens marked =>
    rw [tokens]
    exact .group marked

theorem Marked.lower (h : Marked sign inGroup level ts f) {lower : Nat} (hl : lower ≤ level) :
    Marked sign inGroup lower ts f := by
  induction hl with
  | refl => exact h
  | step hl ih => exact ih h.lift

theorem Marked.settled (h : Marked sign inGroup level ts f) (uncalled : ∀ a, .arguments a ∉ ts)
    (unsigned : inGroup = true → sign = none) :
    Marked sign inGroup level f.settled.written f.settled ∧
      (inGroup = true → Enclosed f.settled) := by
  induction h with
  | @operand sign inGroup value h =>
    have literal := Literal.ofOperand_ne_nil h
    refine ⟨.operand literal, fun hg => ?_⟩
    rw [unsigned hg]
    exact .operand literal
  | call h a => exact absurd (by simp) (uncalled a)
  | @group sign inGroup ts f h ih =>
    obtain ⟨marked, enclosed⟩ := ih (fun a ha => uncalled a (by simp [ha])) fun _ => rfl
    have inner := enclosed rfl
    cases sign with
    | none => exact ⟨inner.marked inGroup, fun _ => inner⟩
    | some sign =>
      refine ⟨?_, fun hg => absurd (unsigned hg) (by simp)⟩
      generalize hs : f.settled = f' at inner
      cases inner with
      | operand nonempty =>
        obtain ⟨value', rfl⟩ := eq_operand_of_settled hs
        simp only [Formula.settled, Formula.operand.injEq] at hs
        exact .operand (hs.1 ▸ nonempty)
      | node tokens marked =>
        have outside : ∀ value, f ≠ .operand value none := by
          rintro value rfl
          cases hs
        rw [written_withSign, withSign, settled_sign outside, hs, tokens]
        exact .group marked
  | lift h ih =>
    obtain ⟨marked, enclosed⟩ := ih uncalled unsigned
    exact ⟨marked.lift, enclosed⟩
  | @node sign inGroup op ts us f g left binary right ihl ihr =>
    obtain ⟨hf, -⟩ := ihl (fun a ha => uncalled a (by simp [ha])) unsigned
    obtain ⟨hg, -⟩ := ihr (fun a ha => uncalled a (by simp [ha])) fun _ => rfl
    have joined := Marked.node hf binary hg
    rw [settled_node]
    cases inGroup with
    | false => exact ⟨by simpa [written] using joined, by simp⟩
    | true =>
      obtain rfl := unsigned rfl
      have whole : Enclosed (.node f.settled g.settled (some op) none true) :=
        .node rfl (by simpa using joined.lower (by omega))
      have level := precedence_lt op
      exact ⟨(whole.marked true).lower (by omega), fun _ => whole⟩

theorem Marked.mem_written (h : Marked sign inGroup level ts f) {t : Token}
    (ht : t ∈ f.settled.written) :
    (∃ value, t = .operand (Literal.ofOperand value) ∧ .operand value ∈ ts) ∨
      ∃ op, t = .operator op ∧ (op.precedence = 0 ∨ .operator op ∈ ts) := by
  induction h with
  | @operand sign inGroup value h =>
    obtain rfl : t = .operand (Literal.ofOperand value) := by
      simpa [Formula.settled, written] using ht
    exact .inl ⟨value, rfl, by simp⟩
  | call h a => simp [Formula.settled, written] at ht
  | @group sign inGroup ts f h ih =>
    rw [written_withSign] at ht
    rcases ih ht with ⟨value, hv, hm⟩ | ⟨op, ho, hm⟩
    · exact .inl ⟨value, hv, by simp [hm]⟩
    · exact .inr ⟨op, ho, hm.imp_right fun hm => by simp [hm]⟩
  | lift h ih => exact ih ht
  | @node sign inGroup op ts us f g left binary right ihl ihr =>
    rw [settled_node] at ht
    have parts : t = .operator .openGroup ∨ t = .operator .closeGroup ∨ t = .operator op ∨
        t ∈ f.settled.written ∨ t ∈ g.settled.written := by
      cases inGroup with
      | false =>
        simp only [written, Option.map_some, Option.toList_some, List.mem_append,
          List.mem_singleton, Bool.false_eq_true, if_false] at ht
        rcases ht with (ht | ht) | ht <;> simp [ht]
      | true =>
        simp only [written, Option.map_some, Option.toList_some, List.mem_append, List.mem_cons,
          List.not_mem_nil, or_false, if_true] at ht
        rcases ht with ht | ((ht | ht) | ht) | ht <;> simp [ht]
    rcases parts with rfl | rfl | rfl | ht | ht
    · exact .inr ⟨_, rfl, .inl rfl⟩
    · exact .inr ⟨_, rfl, .inl rfl⟩
    · exact .inr ⟨op, rfl, .inr (by simp)⟩
    · rcases ihl ht with ⟨value, hv, hm⟩ | ⟨op', ho, hm⟩
      · exact .inl ⟨value, hv, by simp [hm]⟩
      · exact .inr ⟨op', ho, hm.imp_right fun hm => by simp [hm]⟩
    · rcases ihr ht with ⟨value, hv, hm⟩ | ⟨op', ho, hm⟩
      · exact .inl ⟨value, hv, by simp [hm]⟩
      · exact .inr ⟨op', ho, hm.imp_right fun hm => by simp [hm]⟩

theorem Marked.arguments_notMem (h : Marked sign inGroup level ts f) (a : Text) :
    .arguments a ∉ f.settled.written := by
  intro ha
  rcases h.mem_written ha with ⟨value, hv, -⟩ | ⟨op, ho, -⟩
  · cases hv
  · cases ho

theorem Marked.power_notMem (h : Marked sign inGroup level ts f)
    (powerless : .operator .power ∉ ts) : .operator .power ∉ f.settled.written := by
  intro hp
  rcases h.mem_written hp with ⟨value, hv, -⟩ | ⟨op, ho, hz | hm⟩
  · cases hv
  · cases ho
    cases hz
  · cases ho
    exact powerless hm

theorem Marked.isPresent (h : Marked sign inGroup level ts f) : f.isPresent = true := by
  induction h with
  | @group sign inGroup ts f h ih => cases sign <;> simp_all [withSign, Formula.isPresent]
  | lift h ih => exact ih
  | _ => rfl

theorem Marked.text (formula : Text → Script) (h : Marked sign inGroup level ts f)
    (uncalled : ∀ a, .arguments a ∉ ts) (powerless : .operator .power ∉ ts)
    (unsigned : inGroup = true → sign = none) :
    (Script.ofFormulaWith formula f).tokens ≠ [] ∧
      (Script.ofFormulaWith formula f).issues = [] ∧
      (Script.ofFormulaWith formula f).text =
        Script.signToken sign ++ Token.spell f.settled.written := by
  induction h with
  | @operand sign inGroup value h =>
    refine ⟨by simp [Script.ofFormulaWith, Script.token], rfl, ?_⟩
    simp [Script.ofFormulaWith, Script.token, Script.text, Text.join, Formula.settled, written,
      Token.spell, Token.spelling]
  | call h a => exact absurd (by simp) (uncalled a)
  | @group sign inGroup ts f h ih =>
    obtain ⟨filled, clean, text⟩ := ih (fun a ha => uncalled a (by simp [ha]))
      (fun hp => powerless (by simp [hp])) fun _ => rfl
    rw [written_withSign]
    cases sign with
    | none => exact ⟨filled, clean, text⟩
    | some sign =>
      have signed := Script.join_mapFirst [' '] (Script.signToken (some sign)) filled
      rw [Script.text, Script.signToken, List.nil_append] at text
      simp [withSign, Script.ofFormulaWith, Script.operatorTokens, Formula.isPresent, clean,
        Script.empty, Script.text, Script.withSign, signed, text, Script.mapFirst_ne_nil filled]
  | lift h ih => exact ih uncalled powerless unsigned
  | @node sign inGroup op ts us f g left binary right ihl ihr =>
    obtain ⟨filled, clean, text⟩ := ihl (fun a ha => uncalled a (by simp [ha]))
      (fun hp => powerless (by simp [hp])) unsigned
    obtain ⟨filled', clean', text'⟩ := ihr (fun a ha => uncalled a (by simp [ha]))
      (fun hp => powerless (by simp [hp])) fun _ => rfl
    have token : op.token = op.symbol := by
      cases op <;> first | rfl | exact absurd (by simp) powerless
    generalize hl : Script.ofFormulaWith formula f = l at filled clean text
    generalize hr : Script.ofFormulaWith formula g = r at filled' clean' text'
    rw [Script.text] at text text'
    have joined : Text.join [' '] (l.tokens ++ op.symbol :: r.tokens) =
        Script.signToken sign ++
          Token.spell (f.settled.written ++ .operator op :: g.settled.written) := by
      rw [Script.join_append filled (by simp), Script.join_cons _ _ filled', text, text']
      simp [Script.signToken, Token.spell, Token.spelling, Nat.ne_of_gt binary]
    have script :=
      Script.ofFormulaWith_node formula left.isPresent right.isPresent op inGroup hl hr
    rw [token, clean, clean'] at script
    rw [settled_node, script]
    cases inGroup with
    | false => exact ⟨by simp, rfl, by simpa [Script.text, written] using joined⟩
    | true =>
      obtain rfl := unsigned rfl
      have tokens : l.tokens ++ op.symbol :: r.tokens ≠ [] := by simp
      have enclosed := Script.join_inParentheses [' '] tokens
      rw [joined] at enclosed
      refine ⟨Script.inParentheses_ne_nil tokens, rfl, ?_⟩
      simpa [Script.text, written, Token.spell, Token.spelling, Script.signToken, Operator.symbol,
        Operator.precedence] using enclosed

theorem Marked.alternates (h : Marked sign inGroup level ts f) (uncalled : ∀ a, .arguments a ∉ ts)
    (operands : ∀ value, .operand value ∈ ts → Operator.Inert value ∧ value.trim = value)
    {rest : List Token} (tail : Token.Alternates true rest) :
    Token.Alternates false (ts ++ rest) := by
  induction h generalizing rest with
  | @operand sign inGroup value h =>
    obtain ⟨inert, trimmed⟩ := operands value (by simp)
    exact .operand inert trimmed h tail
  | call h a => exact absurd (by simp) (uncalled a)
  | group h ih =>
    have inner := ih (fun a ha => uncalled a (by simp [ha]))
      (fun value hv => operands value (by simp [hv])) (.closes tail)
    simpa using Token.Alternates.opens inner
  | lift h ih => exact ih uncalled operands tail
  | node left binary right ihl ihr =>
    have after := ihr (fun a ha => uncalled a (by simp [ha]))
      (fun value hv => operands value (by simp [hv])) tail
    have before := ihl (fun a ha => uncalled a (by simp [ha]))
      (fun value hv => operands value (by simp [hv])) (.binary binary after)
    simpa using before

theorem WellFormed.operand {t : Text} (h : WellFormed t sign ts) {value : Text}
    (hv : .operand value ∈ ts) : Operator.Inert value ∧ value.trim = value := by
  have edge : Operator.Edge [] := by simp [Operator.Edge]
  cases h with
  | plain reads chain => exact ⟨reads.inert edge hv, reads.trim_operand hv⟩
  | @signed sign _ unary start reads chain =>
    have later := List.mem_cons_of_mem (.operator sign) hv
    exact ⟨reads.inert edge later, reads.trim_operand later⟩

theorem WellFormed.unary {t : Text} (h : WellFormed t sign ts) : ∀ op ∈ sign, op.isUnary := by
  cases h with
  | plain reads chain => simp
  | signed unary start reads chain => simpa using unary

theorem WellFormed.literal {t : Text} (h : WellFormed t sign ts)
    (marked : Marked sign false 1 ts f) {literal : Text}
    (hl : .operand literal ∈ f.settled.written) :
    (Operator.Inert literal ∧ literal.trim = literal) ∧ literal.head? ≠ some '=' := by
  rcases marked.mem_written hl with ⟨value, hv, hm⟩ | ⟨op, ho, -⟩
  · cases hv
    obtain ⟨inert, trimmed⟩ := h.operand hm
    exact ⟨⟨Literal.inert_ofOperand inert, Literal.trim_ofOperand trimmed⟩,
      Literal.head?_ofOperand value⟩
  · cases ho

theorem Marked.convert?_eq (h : Marked sign false 1 ts f) {t : Text} (reading : ofText t = .ok f)
    (uncalled : ∀ a, .arguments a ∉ ts) (powerless : .operator .power ∉ ts) :
    convert? t = .ok ⟨Script.signToken sign ++ Token.spell f.settled.written, []⟩ := by
  obtain ⟨-, clean, text⟩ := h.text (fun t => Script.ofArgument (Text.byteLength t / 3 + 1) t)
    uncalled powerless (by simp)
  rw [convert?, reading, ← text, ← clean]
  rfl

end Grammar

namespace Formula

open Grammar

theorem ofText_spell {sign : Option Operator} {ts : List Token} {f : Formula}
    (h : Marked sign false 1 ts f) (unary : ∀ op ∈ sign, op.isUnary)
    (alternates : Token.Alternates false ts)
    (plain : ∀ value, .operand value ∈ ts → value.head? ≠ some '=') :
    ofText (Script.signToken sign ++ Token.spell ts) = .ok f := by
  have reads (before : Text) : Reads false before (Token.spell ts) ts :=
    @Reads.of_alternates false ts alternates false before [] [] (by simp) Operator.inert_nil
      fun _ => ⟨rfl, rfl⟩
  cases sign with
  | none => exact h.ofText_plain (reads [])
  | some sign =>
    have unary := unary sign rfl
    have first := Operator.at?_unary unary (alternates.head?_ne plain)
    rw [Script.signToken, Operator.token_of_isUnary unary]
    apply h.ofText_signed unary (List.prefix_append _ _)
    have open' : sign ≠ .openGroup ∧ sign ≠ .closeGroup := by
      constructor <;> rintro rfl <;> cases unary
    exact Reads.operator (Operator.absentFrom_nil [] _) first (fun ho => absurd ho open'.1)
      (by simpa [open'.2] using reads sign.symbol.reverse)

/-- What is written for a well-formed text without calls and powers is read as the same formula over
its literals, and is written as it stands. -/
theorem convert?_settled {t : Text} {sign : Option Operator} {ts : List Token}
    (h : WellFormed t sign ts) (uncalled : ∀ a, .arguments a ∉ ts)
    (powerless : .operator .power ∉ ts) :
    ∃ f out, ofText t = .ok f ∧ convert? t = .ok ⟨out, []⟩ ∧ ofText out = .ok f.settled ∧
      convert out = ⟨out, []⟩ := by
  obtain ⟨g, tree⟩ := h.exists_tree
  obtain ⟨f, marked, -⟩ := tree.exists_marked false
  have reading := h.ofText_eq marked
  have uncalled' := marked.arguments_notMem
  have powerless' := marked.power_notMem powerless
  obtain ⟨settled, -⟩ := marked.settled uncalled (by simp)
  have alternates := settled.alternates uncalled' (fun literal hl => (h.literal marked hl).1) .nil
  rw [List.append_nil] at alternates
  have again := ofText_spell settled h.unary alternates fun literal hl => (h.literal marked hl).2
  have fixed := settled.convert?_eq again uncalled' powerless'
  rw [settled_settled] at fixed
  refine ⟨f, _, reading, marked.convert?_eq reading uncalled powerless, again, ?_⟩
  rw [convert, fixed]

theorem convert?_settled_signed :
    ∃ f out, ofText "-(a+2)*(x) - c".toList = .ok f ∧
      convert? "-(a+2)*(x) - c".toList = .ok ⟨out, []⟩ ∧ ofText out = .ok f.settled ∧
      convert out = ⟨out, []⟩ := by
  have a : Derives .primary [.operand ['a']] := .operand (by decide)
  have two : Derives .primary [.operand ['2']] := .operand (by decide)
  have x : Derives .primary [.operand ['x']] := .operand (by decide)
  have c : Derives .primary [.operand ['c']] := .operand (by decide)
  have sum := @Derives.join _ _ .plus (.single a) (by decide) two
  have product := @Derives.join _ _ .times (.single (.group sum)) (by decide) (.group (.single x))
  have difference := @Derives.join _ _ .minus product (by decide) c
  have whole : WellFormed "-(a+2)*(x) - c".toList (some .minus) _ :=
    .signed rfl (by decide) (reads_ofText_iff.mpr (by decide)) difference
  exact convert?_settled whole (by simp) (by simp)

end Formula

end FormulaMigration
