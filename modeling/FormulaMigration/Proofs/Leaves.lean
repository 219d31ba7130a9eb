import FormulaMigration.Proofs.Steps
import FormulaMigration.Proofs.Token
import FormulaMigration.Script

namespace FormulaMigration

namespace Token

def argumentsNext : List Token → Option Text
  | .operator op :: ts => if op = .closeGroup then argumentsNext ts else none
  | .arguments a :: _ => some a
  | _ => none

inductive Leaves : List Token → List Formula → Prop
  | nil : Leaves [] []
  | operand {value : Text} {ts : List Token} {fs : List Formula} (alone : argumentsNext ts = none)
      (tail : Leaves ts fs) : Leaves (.operand value :: ts) (.operand value none :: fs)
  | call {name function a : Text} {ts : List Token} {fs : List Formula}
      (next : argumentsNext ts = some a) (h : scriptCall? name = some function)
      (tail : Leaves ts fs) : Leaves (.operand name :: ts) (.call function a none :: fs)
  | operator (op : Operator) {ts : List Token} {fs : List Formula} (tail : Leaves ts fs) :
      Leaves (.operator op :: ts) fs
  | arguments (a : Text) {ts : List Token} {fs : List Formula} (tail : Leaves ts fs) :
      Leaves (.arguments a :: ts) fs

theorem Leaves.operand_mem {ts : List Token} {fs : List Formula} (h : Leaves ts fs)
    {value : Text} {sign : Option Operator} (mem : .operand value sign ∈ fs) :
    .operand value ∈ ts := by
  induction h with
  | nil => cases mem
  | operand alone tail ih =>
    rcases List.mem_cons.mp mem with same | mem
    · cases same
      exact List.mem_cons_self
    · exact List.mem_cons_of_mem _ (ih mem)
  | call next h tail ih =>
    rcases List.mem_cons.mp mem with same | mem
    · cases same
    · exact List.mem_cons_of_mem _ (ih mem)
  | operator op tail ih => exact List.mem_cons_of_mem _ (ih mem)
  | arguments a tail ih => exact List.mem_cons_of_mem _ (ih mem)

inductive Called : (named : Bool) → List Token → Prop
  | nil {named : Bool} : Called named []
  | operand {named : Bool} (value : Text) {ts : List Token} (tail : Called true ts) :
      Called named (.operand value :: ts)
  | operator {named : Bool} (op : Operator) {ts : List Token}
      (tail : Called (op = .closeGroup && named) ts) : Called named (.operator op :: ts)
  | arguments (a : Text) {ts : List Token} (tail : Called false ts) :
      Called true (.arguments a :: ts)

theorem Called.argumentsNext {ts : List Token} (h : Called false ts) : argumentsNext ts = none := by
  generalize hn : false = named at h
  induction h with
  | nil => rfl
  | operand value tail ih => rfl
  | operator op tail ih =>
    subst hn
    by_cases closes : op = .closeGroup
    · simpa [Token.argumentsNext, closes] using ih (by simp)
    · simp [Token.argumentsNext, closes]
  | arguments a tail ih => cases hn

theorem Called.ofGap_append {named : Bool} {gap : Text} {ts : List Token}
    (h : Called (named || Lexeme.isOperand gap) ts) : Called named (ofGap gap ++ ts) := by
  unfold ofGap
  split_ifs with filled
  · rw [filled, Bool.or_true] at h
    exact .operand _ h
  · simpa [filled] using h

end Token

theorem Reads.called {named : Bool} {before t : Text} {ts : List Token}
    (h : Reads named before t ts) : Token.Called named ts := by
  induction h with
  | last absent => simpa using Token.Called.ofGap_append .nil
  | operator absent first uncalled tail ih => exact .ofGap_append (.operator _ ih)
  | @call named before gap a rest ts absent called matching tail ih =>
    apply Token.Called.ofGap_append
    rw [called]
    exact .arguments a ih

namespace Formula

def unsigned : Formula → Formula
  | operand value _ => operand value none
  | call function a _ => call function a none
  | f => f

inductive Built : Formula → Prop
  | operand (value : Text) (sign : Option Operator) : Built (.operand value sign)
  | call (function a : Text) (sign : Option Operator) : Built (.call function a sign)
  | node {f g : Formula} (op : Operator) (grouped : Bool) (left : Built f) (right : Built g) :
      Built (.node f g (some op) none grouped)
  | right {g : Formula} (op : Operator) (grouped : Bool) (right : Built g) :
      Built (.node .missing g (some op) none grouped)
  | signed {f : Formula} {sign : Operator} (unary : sign.isUnary) (inner : Built f) :
      Built (.node f .missing none (some sign) false)

theorem Built.isPresent {f : Formula} (h : Built f) : f.isPresent = true := by
  cases h <;> rfl

def stacked (operands : List Formula) : List Formula :=
  operands.reverse.flatMap leaves

theorem stacked_cons (f : Formula) (operands : List Formula) :
    stacked (f :: operands) = stacked operands ++ f.leaves := by
  simp [stacked]

theorem combine_built {index : Nat} {op : Operator} {grouped : Bool}
    {operands operands' : List Formula} (h : combine index op grouped operands = .ok operands')
    (built : ∀ f ∈ operands, Built f) :
    (∀ f ∈ operands', Built f) ∧ stacked operands' = stacked operands := by
  match operands with
  | [] => cases h
  | [right] =>
    obtain rfl := Except.ok.inj h
    have top := Built.right op grouped (built right List.mem_cons_self)
    exact ⟨List.forall_mem_singleton.mpr top, by simp [stacked, leaves]⟩
  | right :: left :: rest =>
    obtain rfl := Except.ok.inj h
    obtain ⟨hr, others⟩ := List.forall_mem_cons.mp built
    obtain ⟨hl, others⟩ := List.forall_mem_cons.mp others
    have top := Built.node op grouped hl hr
    exact ⟨List.forall_mem_cons.mpr ⟨top, others⟩, by simp [stacked, leaves]⟩

theorem reduceWhile_built {index : Nat} {p : Frame → Bool} {frames frames' : List Frame}
    {operands operands' : List Formula}
    (h : reduceWhile index p frames operands = .ok (operands', frames'))
    (built : ∀ f ∈ operands, Built f) :
    (∀ f ∈ operands', Built f) ∧ stacked operands' = stacked operands ∧ frames' ⊆ frames := by
  induction frames generalizing operands with
  | nil =>
    cases h
    exact ⟨built, rfl, List.Subset.refl _⟩
  | cons frame frames ih =>
    rw [reduceWhile] at h
    split_ifs at h with folds
    · obtain ⟨operands'', hc, hr⟩ := exists_of_bind_eq_ok h
      obtain ⟨built'', same⟩ := combine_built hc built
      obtain ⟨built', same', sub⟩ := ih hr built''
      exact ⟨built', same'.trans same, List.subset_cons_of_subset frame sub⟩
    · cases h
      exact ⟨built, rfl, List.Subset.refl _⟩

namespace Stacks

structure Sound (s : Stacks) : Prop where
  built : ∀ f ∈ s.operands, Built f
  frames : ∀ frame ∈ s.frames, ∀ op ∈ frame.sign, op.isUnary
  sign : ∀ op ∈ s.sign, op.isUnary

theorem empty_sound : Stacks.empty.Sound := by
  constructor <;> simp [Stacks.empty]

def leaves (s : Stacks) : List Formula :=
  (stacked s.operands).map unsigned

theorem close_sound {index : Nat} {s s' : Stacks} (h : s.close index = .ok s') (sound : s.Sound) :
    s'.Sound ∧ s'.leaves = s.leaves := by
  obtain ⟨operands, sign, frames, hr, closed⟩ := close_ok h
  obtain ⟨built, same, sub⟩ := reduceWhile_built hr sound.built
  have signs : ∀ frame ∈ ⟨.openGroup, sign⟩ :: frames, ∀ op ∈ frame.sign, op.isUnary :=
    fun frame hf => sound.frames frame (sub hf)
  obtain ⟨unary, below⟩ := List.forall_mem_cons.mp signs
  rcases closed with ⟨-, rfl⟩ | ⟨op, inner, rest, rfl, rfl, rfl⟩
  · refine ⟨⟨built, below, by simp⟩, ?_⟩
    rw [leaves, same, leaves]
  · obtain ⟨hi, others⟩ := List.forall_mem_cons.mp built
    have top := Built.signed (unary op rfl) hi
    refine ⟨⟨List.forall_mem_cons.mpr ⟨top, others⟩, below, by simp⟩, ?_⟩
    rw [stacked_cons] at same
    rw [leaves, stacked_cons, Formula.leaves, Formula.leaves, List.append_nil, same, leaves]

theorem pushOperator_sound {index : Nat} {op : Operator} {s s' : Stacks}
    (h : s.pushOperator index op = .ok s') (sound : s.Sound) :
    s'.Sound ∧ s'.leaves = s.leaves := by
  obtain ⟨operands, frames, hr, rfl⟩ := pushOperator_ok h
  obtain ⟨built, same, sub⟩ := reduceWhile_built hr sound.built
  have signs : ∀ frame ∈ frames, ∀ op ∈ frame.sign, op.isUnary :=
    fun frame hf => sound.frames frame (sub hf)
  refine ⟨⟨built, List.forall_mem_cons.mpr ⟨sound.sign, signs⟩, by simp⟩, ?_⟩
  rw [leaves, same, leaves]

theorem readOperator_sound {start : Nat} {op : Operator} {s s' : Stacks}
    (h : s.readOperator start op = .ok s') (sound : s.Sound) :
    s'.Sound ∧ s'.leaves = s.leaves := by
  cases readOperator_ok h with
  | sign unary first free => exact ⟨⟨sound.built, sound.frames, by simpa using unary⟩, rfl⟩
  | opens group =>
    exact ⟨⟨sound.built, List.forall_mem_cons.mpr ⟨sound.sign, sound.frames⟩, by simp⟩, rfl⟩
  | closes group closed => exact close_sound closed sound
  | joins opens closes later pushed => exact pushOperator_sound pushed sound

theorem readOperand_sound {start : Nat} {t : Text} {s s' : Stacks}
    (h : s.readOperand start t = .ok s') (sound : s.Sound) :
    s'.Sound ∧ s'.leaves = s.leaves ++ [operand t.trim none] := by
  obtain ⟨-, rfl⟩ := readOperand_ok h
  have top := Built.operand t.trim s.sign
  refine ⟨⟨List.forall_mem_cons.mpr ⟨top, sound.built⟩, sound.frames, by simp⟩, ?_⟩
  simp [leaves, stacked_cons, Formula.leaves, unsigned]

theorem readArguments_sound {closing : Nat} {a : Text} {s s' : Stacks}
    (h : s.readArguments closing a = .ok s') (sound : s.Sound) :
    s'.Sound ∧ ∃ fs name function, scriptCall? name = some function ∧
      s.leaves = fs ++ [operand name none] ∧ s'.leaves = fs ++ [call function a none] := by
  obtain ⟨name, sign, rest, function, known, named, rfl⟩ := readArguments_ok h
  have built := sound.built
  rw [named] at built
  have all := List.forall_mem_cons.mpr
    ⟨Built.call function a sign, (List.forall_mem_cons.mp built).2⟩
  refine ⟨⟨all, sound.frames, by simp⟩, (stacked rest).map unsigned, name, function, known, ?_, ?_⟩
  · simp [leaves, named, stacked_cons, Formula.leaves, unsigned]
  · simp [leaves, stacked_cons, Formula.leaves, unsigned]

end Stacks

/-- Leaves when the arguments that come next, if any, turn the latest of them into a call. -/
inductive Settles : Option Text → List Formula → List Formula → Prop
  | alone (fs : List Formula) : Settles none fs fs
  | called {name function : Text} (h : scriptCall? name = some function) (a : Text)
      (fs : List Formula) :
      Settles (some a) (fs ++ [operand name none]) (fs ++ [call function a none])

theorem Settles.append_leaves {value : Text} {ts : List Token} {fs fs' us : List Formula}
    (h : Settles (Token.argumentsNext ts) (fs ++ [operand value none]) fs')
    (tail : Token.Leaves ts us) :
    ∃ us', Token.Leaves (.operand value :: ts) us' ∧ fs' ++ us = fs ++ us' := by
  generalize hn : Token.argumentsNext ts = next at h
  generalize hf : fs ++ [operand value none] = fs'' at h
  cases h with
  | alone => exact ⟨_, .operand hn tail, by simp [← hf]⟩
  | called h a fs'' =>
    obtain ⟨rfl, same⟩ := List.append_inj' hf rfl
    cases same
    exact ⟨_, .call hn h tail, by simp⟩

theorem unclosed_notMem_of_run {ls : List Lexeme} {s s' : Stacks}
    (h : ls.foldlM Stacks.read s = .ok s') (opening : Nat) : .unclosed opening ∉ ls := by
  induction ls generalizing s with
  | nil => simp
  | cons l ls ih =>
    rw [List.foldlM_cons] at h
    obtain ⟨s'', read, run⟩ := exists_of_bind_eq_ok h
    intro hm
    rcases List.mem_cons.mp hm with rfl | hm
    · cases read
    · exact ih run hm

theorem run_leaves {named : Bool} {ts : List Token} (called : Token.Called named ts)
    {ls : List Lexeme} (tokens : ls.map Lexeme.token? = ts.map some) {s s' : Stacks}
    (run : ls.foldlM Stacks.read s = .ok s') (sound : s.Sound) :
    s'.Sound ∧ ∃ fs us, Settles (Token.argumentsNext ts) s.leaves fs ∧ Token.Leaves ts us ∧
      s'.leaves = fs ++ us := by
  induction called generalizing ls s with
  | nil =>
    obtain rfl := List.map_eq_nil_iff.mp tokens
    cases run
    exact ⟨sound, _, [], .alone _, .nil, by simp⟩
  | operand value tail ih =>
    obtain ⟨l, ls, rfl, hl, hls⟩ := List.map_eq_cons_iff.mp tokens
    obtain ⟨start, t, rfl, rfl⟩ := Lexeme.eq_operand_of_token? hl
    rw [List.foldlM_cons] at run
    obtain ⟨s'', read, run⟩ := exists_of_bind_eq_ok run
    obtain ⟨sound'', added⟩ := Stacks.readOperand_sound read sound
    obtain ⟨sound', fs, us, settles, leaves, all⟩ := ih hls run sound''
    rw [added] at settles
    obtain ⟨us', leaves', same⟩ := settles.append_leaves leaves
    exact ⟨sound', _, us', .alone _, leaves', all.trans same⟩
  | @operator named op ts tail ih =>
    obtain ⟨l, ls, rfl, hl, hls⟩ := List.map_eq_cons_iff.mp tokens
    obtain ⟨start, rfl⟩ := Lexeme.eq_operator_of_token? hl
    rw [List.foldlM_cons] at run
    obtain ⟨s'', read, run⟩ := exists_of_bind_eq_ok run
    obtain ⟨sound'', same⟩ := Stacks.readOperator_sound read sound
    obtain ⟨sound', fs, us, settles, leaves, all⟩ := ih hls run sound''
    rw [same] at settles
    refine ⟨sound', fs, us, ?_, .operator op leaves, all⟩
    by_cases closes : op = .closeGroup
    · simpa [Token.argumentsNext, closes] using settles
    · -- Only a `)` keeps an operand ready for arguments.
      rw [Token.Called.argumentsNext (by simpa [closes] using tail)] at settles
      simpa [Token.argumentsNext, closes] using settles
  | @arguments a ts tail ih =>
    obtain ⟨l, ls, rfl, hl, hls⟩ := List.map_eq_cons_iff.mp tokens
    obtain ⟨opening, closing, rfl⟩ := Lexeme.eq_arguments_of_token? hl
    rw [List.foldlM_cons] at run
    obtain ⟨s'', read, run⟩ := exists_of_bind_eq_ok run
    obtain ⟨sound'', fs, name, function, hf, before, after⟩ :=
      Stacks.readArguments_sound read sound
    obtain ⟨sound', fs', us, settles, leaves, all⟩ := ih hls run sound''
    rw [tail.argumentsNext, after] at settles
    cases settles
    refine ⟨sound', _, us, ?_, .arguments a leaves, all⟩
    rw [before]
    exact .called hf a fs

theorem finish_stacked {index : Nat} {s : Stacks} {f : Formula} (h : s.finish index = .ok f)
    (sound : s.Sound) : Built f ∧ f.leaves = stacked s.operands := by
  obtain ⟨built, same, -⟩ := reduceWhile_built (Stacks.finish_ok h) sound.built
  refine ⟨built f List.mem_cons_self, ?_⟩
  rw [← same]
  simp [stacked]

theorem exists_reads {t : Text} {f : Formula} (h : ofText t = .ok f) :
    ∃ ts, Reads false [] t ts ∧ Built f ∧ Token.Leaves ts (f.leaves.map unsigned) := by
  obtain ⟨s, run, finished⟩ := exists_of_bind_eq_ok h
  rcases Reads.exists_of_closed 0 false [] t with ⟨ts, reads⟩ | ⟨opening, hu⟩
  · obtain ⟨sound, fs, us, settles, leaves, all⟩ :=
      run_leaves reads.called (reads_ofText_iff.mp reads) run Stacks.empty_sound
    rw [reads.called.argumentsNext] at settles
    cases settles
    obtain ⟨built, same⟩ := finish_stacked finished sound
    refine ⟨ts, reads, built, ?_⟩
    rw [same]
    change Token.Leaves ts s.leaves
    rw [all]
    simpa [Stacks.empty, Stacks.leaves, stacked] using leaves
  · exact absurd hu (unclosed_notMem_of_run run opening)

end Formula

namespace Script

/-- Whether a token is another one with signs and `(` in front of it and `)` after it. -/
def Wraps (u t : Text) : Prop :=
  ∃ before after, u = before ++ (t ++ after) ∧ (∀ c ∈ before, c ∈ ['(', '!', '+', '-']) ∧
    ∀ c ∈ after, c = ')'

theorem Wraps.refl (t : Text) : Wraps t t :=
  ⟨[], [], by simp, by simp, by simp⟩

theorem Wraps.opening {u t s : Text} (h : Wraps u t) (hs : ∀ c ∈ s, c ∈ ['(', '!', '+', '-']) :
    Wraps (s ++ u) t := by
  obtain ⟨before, after, rfl, opening, closing⟩ := h
  refine ⟨s ++ before, after, by simp, ?_, closing⟩
  intro c hc
  exact (List.mem_append.mp hc).elim (hs c) (opening c)

theorem Wraps.closing {u t : Text} (h : Wraps u t) : Wraps (u ++ [')']) t := by
  obtain ⟨before, after, rfl, opening, closing⟩ := h
  refine ⟨before, after ++ [')'], by simp, opening, ?_⟩
  intro c hc
  rcases List.mem_append.mp hc with hc | hc
  · exact closing c hc
  · exact List.mem_singleton.mp hc

inductive Lists (write : Formula → Script) : List Formula → List Text → Prop
  | last {leaf : Formula} {t u : Text} (h : (write leaf).tokens = [t]) (wraps : Wraps u t) :
      Lists write [leaf] [u]
  | more {leaf : Formula} {t u : Text} {fs : List Formula} {ts : List Text}
      (h : (write leaf).tokens = [t]) (wraps : Wraps u t) (op : Operator)
      (tail : Lists write fs ts) : Lists write (leaf :: fs) (u :: op.token :: ts)

variable {write : Formula → Script}

theorem Lists.append {fs gs : List Formula} {ts us : List Text} (h : Lists write fs ts)
    (op : Operator) (h' : Lists write gs us) : Lists write (fs ++ gs) (ts ++ op.token :: us) := by
  induction h with
  | last h wraps => exact .more h wraps op h'
  | more h wraps op' tail ih => exact .more h wraps op' ih

theorem Lists.mapFirst {fs : List Formula} {ts : List Text} (h : Lists write fs ts) {s : Text}
    (hs : ∀ c ∈ s, c ∈ ['(', '!', '+', '-']) : Lists write fs (mapFirst (s ++ ·) ts) := by
  cases h with
  | last h wraps => exact .last h (wraps.opening hs)
  | more h wraps op tail => exact .more h (wraps.opening hs) op tail

theorem Lists.mapLast {fs : List Formula} {ts : List Text} (h : Lists write fs ts) :
    Lists write fs (mapLast (· ++ [')']) ts) := by
  induction h with
  | last h wraps => exact .last h wraps.closing
  | @more leaf t u fs ts h wraps op tail ih =>
    cases ts with
    | nil => cases tail
    | cons v ts => exact .more h wraps op ih

theorem Lists.inParentheses {fs : List Formula} {ts : List Text} (h : Lists write fs ts) :
    Lists write fs (inParentheses ts) := by
  have opened := @Lists.mapFirst _ _ _ h ['('] (by simp)
  exact opened.mapLast

end Script

namespace Formula

theorem Built.lists {f : Formula} (h : Built f) (formula : Text → Script) :
    Script.Lists (Script.ofFormulaWith formula) f.leaves
      (Script.ofFormulaWith formula f).tokens := by
  have wrap {fs : List Formula} {ts : List Text} (grouped : Bool)
      (h : Script.Lists (Script.ofFormulaWith formula) fs ts) :
      Script.Lists (Script.ofFormulaWith formula) fs
        (if grouped then Script.inParentheses ts else ts) := by
    cases grouped with
    | false => exact h
    | true => exact h.inParentheses
  induction h with
  | operand value sign => exact .last rfl (.refl _)
  | call function a sign => exact .last rfl (.refl _)
  | @node f g op grouped left right ihl ihr =>
    rw [Script.ofFormulaWith_node formula left.isPresent right.isPresent op grouped rfl rfl, leaves]
    apply wrap
    exact ihl.append op ihr
  | @right g op grouped right ih =>
    simp only [Script.ofFormulaWith, Script.operatorTokens, Formula.isPresent, Bool.false_and,
      Bool.false_eq_true, if_false, leaves, Script.empty, List.nil_append]
    apply wrap
    exact ih.mapFirst (by simp [Script.signToken])
  | @signed f sign unary inner ih =>
    simp only [Script.ofFormulaWith, Script.operatorTokens, Formula.isPresent, Bool.and_false,
      Bool.false_eq_true, if_false, leaves, Script.empty, List.append_nil]
    apply ih.mapFirst
    cases sign <;> simp_all [Operator.isUnary, Script.signToken, Operator.token,
      Operator.replacement, Operator.symbol]

theorem Built.tokens_ne_nil {f : Formula} (h : Built f) (formula : Text → Script) :
    (Script.ofFormulaWith formula f).tokens ≠ [] := by
  intro none
  have lists := h.lists formula
  rw [none] at lists
  generalize f.leaves = fs at lists
  cases lists

/-- The leaves of a formula are the operands and calls of its text, signs aside, in their order, and
its script has one token for each. -/
theorem leaves_ofText {t : Text} {f : Formula} (h : ofText t = .ok f) :
    ∃ ts, (∀ us, Reads false [] t us ↔ us = ts) ∧ Token.Leaves ts (f.leaves.map unsigned) ∧
      Script.Lists Script.ofFormula f.leaves (Script.ofFormula f).tokens := by
  obtain ⟨ts, reads, built, leaves⟩ := exists_reads h
  exact ⟨ts, fun us => reads.eq_iff, leaves, built.lists _⟩

theorem leaves_ofText_unclosed :
    ∃ f ts, ofText "((a)*!(abs)(-1+2)".toList = .ok f ∧
      (∀ us, Reads false [] "((a)*!(abs)(-1+2)".toList us ↔ us = ts) ∧
      Token.Leaves ts (f.leaves.map unsigned) ∧
      Script.Lists Script.ofFormula f.leaves (Script.ofFormula f).tokens := by
  obtain ⟨ts, rest⟩ := leaves_ofText (t := "((a)*!(abs)(-1+2)".toList) rfl
  exact ⟨_, ts, rfl, rest⟩

end Formula

end FormulaMigration
