import FormulaMigration.Proofs.Grouping
import FormulaMigration.Proofs.Operand
import FormulaMigration.Proofs.Stacks

namespace FormulaMigration

def Lexeme.joining : Lexeme → List Operator
  | operator start op => if op.isUnary && start = 0 then [] else [op]
  | _ => []

namespace Formula

def joined : Formula → List Operator
  | node left right op _ _ => left.joined ++ op.toList ++ right.joined
  | _ => []

def joints : Formula → List Operator
  | node left right op _ _ =>
    left.joints ++ (if left.isPresent && right.isPresent then op.toList else []) ++ right.joints
  | _ => []

theorem joints_sublist (f : Formula) : f.joints.Sublist f.joined := by
  induction f with
  | node left right op sign grouped ihl ihr =>
    apply (ihl.append ?_).append ihr
    split_ifs
    · exact .refl _
    · exact List.nil_sublist _
  | _ => exact .slnil

variable {p : Operator}

theorem tallies_joined (p : Operator) : Tallies joined p := by
  constructor
  · rfl
  · intro left right op grouped
    simp only [joined, List.count_append, Option.toList_some]

namespace Stacks

def awaiting (s : Stacks) : List Operator :=
  collect joined s.operands s.frames

theorem readArguments_awaiting {closing : Nat} {a : Text} {s s' : Stacks}
    (h : s.readArguments closing a = .ok s') : s'.awaiting = s.awaiting := by
  obtain ⟨name, sign, rest, function, -, named, rfl⟩ := readArguments_ok h
  rw [Stacks.awaiting, Stacks.awaiting, named]
  rfl

theorem readOperator_awaiting (opens : p ≠ .openGroup) (closes : p ≠ .closeGroup) {start : Nat}
    {op : Operator} {s s' : Stacks} (h : s.readOperator start op = .ok s') :
    s'.awaiting.count p =
      s.awaiting.count p + (Lexeme.operator start op).joining.count p := by
  rw [Lexeme.joining]
  cases readOperator_ok h with
  | sign unary first free =>
    -- A sign waits beside the stacks.
    rw [if_pos (by simp [unary, first])]
    rfl
  | opens group =>
    subst group
    exact count_collect_frame s.operands _ s.frames
  | closes group closed =>
    have closed := (tallies_joined p).close closed fun frame mem sign signed f => by simp [joined]
    have opened : [Operator.openGroup].count p = 0 := by simp [opens.symm]
    have other : [op].count p = 0 := by simp [group, closes.symm]
    rw [awaiting, awaiting, ← closed, opened, Nat.add_zero]
    split_ifs <;> simp [other]
  | joins opens' closes' later pushed =>
    rw [if_neg (by simpa using fun unary => (later unary).1)]
    exact (tallies_joined p).pushOperator pushed

theorem read_awaiting (opens : p ≠ .openGroup) (closes : p ≠ .closeGroup) {l : Lexeme}
    {s s' : Stacks} (h : s.read l = .ok s') :
    s'.awaiting.count p = s.awaiting.count p + l.joining.count p := by
  cases l with
  | operand start t =>
    obtain ⟨-, rfl⟩ := readOperand_ok h
    rfl
  | operator start op => exact readOperator_awaiting opens closes h
  | arguments opening closing a =>
    rw [readArguments_awaiting h]
    rfl
  | unclosed opening => cases h

theorem run_awaiting (opens : p ≠ .openGroup) (closes : p ≠ .closeGroup) {ls : List Lexeme}
    {s s' : Stacks} (run : ls.foldlM Stacks.read s = .ok s') :
    s'.awaiting.count p = s.awaiting.count p + (ls.flatMap Lexeme.joining).count p := by
  induction ls generalizing s with
  | nil =>
    cases run
    rfl
  | cons l ls ih =>
    rw [List.foldlM_cons] at run
    obtain ⟨s'', read, run⟩ := exists_of_bind_eq_ok run
    rw [ih run, read_awaiting opens closes read, List.flatMap_cons, List.count_append,
      Nat.add_assoc]

end Stacks

theorem Unsigned.count_joining {ls : List Lexeme} {ts : List Token} (unsigned : Unsigned ls)
    (tokens : ls.map Lexeme.token? = ts.map some) :
    (ls.flatMap Lexeme.joining).count p = ts.count (.operator p) := by
  induction ls generalizing ts with
  | nil =>
    obtain rfl := List.map_eq_nil_iff.mp tokens.symm
    rfl
  | cons l ls ih =>
    obtain ⟨t, ts, rfl, token, tokens⟩ := List.map_eq_cons_iff.mp tokens.symm
    obtain ⟨first, rest⟩ := Unsigned.cons.mp unsigned
    have head : l.joining.count p = [t].count (.operator p) := by
      cases l with
      | operator start op =>
        cases token
        have later := isSign_eq_false (first start op List.mem_cons_self)
        simp [Lexeme.joining, later, List.count_cons]
      | unclosed opening => cases token
      | _ =>
        cases token
        rfl
    rw [List.flatMap_cons, List.count_append, head, ih rest tokens.symm, ← List.count_append]
    rfl

theorem count_joining {t : Text} {ts : List Token} (reads : Reads false [] t ts) :
    ((Lexeme.ofText t).flatMap Lexeme.joining).count p +
        (if Operator.at? [] t = some p ∧ p.isUnary then 1 else 0) = ts.count (.operator p) := by
  have tokens := reads_ofText_iff.mp reads
  rcases Lexeme.signed_or_unsigned t with ⟨op, ls, unary, start, cut, later⟩ | ⟨unsigned, absent⟩
  · rw [cut] at tokens ⊢
    obtain ⟨u, us, rfl, token, following⟩ := List.map_eq_cons_iff.mp tokens.symm
    obtain rfl := Option.some.inj token
    have rest := later.count_joining (p := p) following.symm
    have sign : (Lexeme.operator 0 op).joining = [] := by simp [Lexeme.joining, unary]
    rw [List.flatMap_cons, sign, List.nil_append, rest, start]
    by_cases same : op = p
    · subst same
      simp [unary]
    · simp [same]
  · rw [unsigned.count_joining tokens, if_neg fun sign => absent p sign.1 sign.2, Nat.add_zero]

theorem count_joined (opens : p ≠ .openGroup) (closes : p ≠ .closeGroup) {t : Text} {f : Formula}
    (h : ofText t = .ok f) :
    f.joined.count p = ((Lexeme.ofText t).flatMap Lexeme.joining).count p := by
  obtain ⟨s, run, finished⟩ := exists_of_bind_eq_ok h
  have ran := Stacks.run_awaiting opens closes run
  rw [(tallies_joined p).finish finished, ← Stacks.awaiting, ran]
  exact Nat.zero_add _

end Formula

theorem Operator.Inert.getLast?_ne {value : Text} (h : Inert value) :
    value.getLast? ≠ some '!' := by
  intro last
  obtain ⟨l, rfl⟩ := List.getLast?_eq_some_iff.mp last
  have absent := h [] [] (by simp) l ['!'] rfl (by simp)
  have sign : at? (l.reverse ++ []) ['!'] = some .negation := rfl
  cases absent.symm.trans sign

namespace Script

def Ends (t : Text) : Prop :=
  ∃ c ∈ t.getLast?, c ≠ '!'

theorem Ends.prepend {t : Text} (h : Ends t) (s : Text) : Ends (s ++ t) := by
  obtain ⟨c, last, plain⟩ := h
  exact ⟨c, by rw [List.getLast?_append, last]; rfl, plain⟩

theorem ends_append (t : Text) {c : Char} (plain : c ≠ '!') : Ends (t ++ [c]) :=
  ⟨c, List.getLast?_concat, plain⟩

theorem ends_ofOperand {value : Text} (inert : Operator.Inert value) :
    Ends (Literal.ofOperand value) := by
  have quoted : Ends value.quote := ends_append ('\x22' :: value) (by decide)
  rcases Literal.ofOperand_cases value with same | quote
  · rw [same]
    cases last : value.getLast? with
    | none =>
      obtain rfl := List.getLast?_eq_none_iff.mp last
      cases same
    | some c =>
      refine ⟨c, last, ?_⟩
      rintro rfl
      exact inert.getLast?_ne last
  · rwa [quote]

inductive Weaves : List Operator → List Text → Prop
  | last {t : Text} (ends : Ends t) : Weaves [] [t]
  | more {t : Text} {ops : List Operator} {ts : List Text} (ends : Ends t) (op : Operator)
      (tail : Weaves ops ts) : Weaves (op :: ops) (t :: op.token :: ts)

variable {ops ops' : List Operator} {ts us : List Text}

theorem Weaves.append (h : Weaves ops ts) (op : Operator) (h' : Weaves ops' us) :
    Weaves (ops ++ op :: ops') (ts ++ op.token :: us) := by
  induction h with
  | last ends => exact .more ends op h'
  | more ends op' tail ih => exact .more ends op' ih

theorem Weaves.mapFirst (h : Weaves ops ts) (s : Text) : Weaves ops (mapFirst (s ++ ·) ts) := by
  cases h with
  | last ends => exact .last (ends.prepend s)
  | more ends op tail => exact .more (ends.prepend s) op tail

theorem Weaves.mapLast (h : Weaves ops ts) : Weaves ops (mapLast (· ++ [')']) ts) := by
  induction h with
  | @last t ends => exact .last (ends_append t (by decide))
  | @more t ops ts ends op tail ih =>
    cases ts with
    | nil => cases tail
    | cons u ts => exact .more ends op ih

theorem Weaves.grouped (h : Weaves ops ts) (grouped : Bool) :
    Weaves ops (if grouped then inParentheses ts else ts) := by
  cases grouped with
  | false => exact h
  | true =>
    have opened := h.mapFirst ['(']
    exact opened.mapLast

theorem Weaves.count (h : Weaves ops ts) : ts.count ['!'] = ops.count .negation := by
  have other {t : Text} (ends : Ends t) : t ≠ ['!'] := by
    rintro rfl
    obtain ⟨c, last, plain⟩ := ends
    exact plain (Option.some.inj last).symm
  induction h with
  | last ends => simp [other ends]
  | @more t ops ts ends op tail ih =>
    have sign : op.token = ['!'] ↔ op = .negation := by cases op <;> decide
    rw [List.count_cons_of_ne (other ends), List.count_cons, List.count_cons, ih]
    simp [sign]

end Script

namespace Formula

theorem Built.weaves {f : Formula} (h : Built f) (formula : Text → Script)
    (inert : ∀ value sign, .operand value sign ∈ f.leaves → Operator.Inert value) :
    Script.Weaves f.joints (Script.ofFormulaWith formula f).tokens := by
  induction h with
  | operand value sign =>
    have ends := Script.ends_ofOperand (inert value sign List.mem_cons_self)
    exact .last (ends.prepend _)
  | call function a sign => exact .last (Script.ends_append _ (by decide))
  | @node f g op grouped left right ihl ihr =>
    have inertLeft := ihl fun value sign mem => inert value sign (List.mem_append_left _ mem)
    have inertRight := ihr fun value sign mem => inert value sign (List.mem_append_right _ mem)
    rw [Script.ofFormulaWith_node formula left.isPresent right.isPresent op grouped rfl rfl, joints,
      left.isPresent, right.isPresent]
    apply Script.Weaves.grouped
    simpa using inertLeft.append op inertRight
  | @right g op grouped right ih =>
    simp only [Script.ofFormulaWith, Script.operatorTokens, Formula.isPresent, Bool.false_and,
      Bool.false_eq_true, if_false, joints, Script.empty, List.nil_append]
    apply Script.Weaves.grouped
    exact (ih inert).mapFirst _
  | @signed f sign unary inner ih =>
    simp only [Script.ofFormulaWith, Script.operatorTokens, Formula.isPresent, Bool.and_false,
      Bool.false_eq_true, if_false, joints, Script.empty, List.append_nil]
    exact (ih fun value sign mem => inert value sign (List.mem_append_left _ mem)).mapFirst _

end Formula

namespace Formula

/-- Every `!` of a text is the operator of a node, but a sign at the very start; it is written
between two sides where its node has both. -/
theorem count_negation {t : Text} {f : Formula} (h : ofText t = .ok f) :
    ∃ ts, (∀ us, Reads false [] t us ↔ us = ts) ∧
      f.joined.count .negation + (if Operator.at? [] t = some .negation then 1 else 0) =
        ts.count (.operator .negation) ∧
      f.joints.Sublist f.joined ∧
      (Script.ofFormula f).tokens.count ['!'] = f.joints.count .negation := by
  obtain ⟨ts, reads, built, leaves⟩ := exists_reads h
  have start : Operator.Edge [] := by simp [Operator.Edge]
  have inert : ∀ value sign, operand value sign ∈ f.leaves → Operator.Inert value := by
    intro value sign mem
    have unsigned := List.mem_map_of_mem (f := unsigned) mem
    exact reads.inert start (leaves.operand_mem unsigned)
  refine ⟨ts, fun us => reads.eq_iff, ?_, joints_sublist f, (built.weaves _ inert).count⟩
  rw [count_joined (by decide) (by decide) h]
  simpa [Operator.isUnary] using count_joining (p := .negation) reads

theorem count_negation_signed :
    ∃ f ts, ofText "!a * b ! c".toList = .ok f ∧
      (∀ us, Reads false [] "!a * b ! c".toList us ↔ us = ts) ∧
      f.joined.count .negation +
          (if Operator.at? [] "!a * b ! c".toList = some .negation then 1 else 0) =
        ts.count (.operator .negation) ∧
      f.joints.Sublist f.joined ∧
      (Script.ofFormula f).tokens.count ['!'] = f.joints.count .negation := by
  obtain ⟨ts, rest⟩ := count_negation (t := "!a * b ! c".toList) rfl
  exact ⟨_, ts, rfl, rest⟩

theorem ofText_negation_between :
    ∃ f l r, ofText "a && !b".toList = .ok f ∧ f = node l r (some .negation) none false ∧
      l.isPresent ∧ r.isPresent ∧ (Script.ofFormula f).text = "\"a\" ! \"b\"".toList :=
  ⟨_, _, _, rfl, rfl, rfl, rfl, rfl⟩

end Formula

end FormulaMigration
