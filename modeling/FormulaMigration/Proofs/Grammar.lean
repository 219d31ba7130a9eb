import FormulaMigration.Proofs.Token

/-!
The grammar of formulas, twice: the plain one of operands joined by operators, and the one with a
level for each precedence, which also says what tree the tokens stand for. Every formula of the
first has a tree in the second.
-/

namespace FormulaMigration

namespace Grammar

inductive Symbol
  | chain
  | primary

inductive Derives : Symbol → List Token → Prop
  | operand {value : Text} (h : value ≠ []) : Derives .primary [.operand value]
  | call {name function : Text} (h : scriptCall? name = some function) (a : Text) :
      Derives .primary [.operand name, .arguments a]
  | group {ts : List Token} (h : Derives .chain ts) :
      Derives .primary (.operator .openGroup :: (ts ++ [.operator .closeGroup]))
  | single {ts : List Token} (h : Derives .primary ts) : Derives .chain ts
  | join {ts us : List Token} {op : Operator} (left : Derives .chain ts)
      (binary : 0 < op.precedence) (right : Derives .primary us) :
      Derives .chain (ts ++ .operator op :: us)

/-- A text that is a chain of operands, with a sign at its very start or without one. -/
inductive WellFormed (t : Text) : (sign : Option Operator) → List Token → Prop
  | plain {ts : List Token} (reads : Reads false [] t ts) (chain : Derives .chain ts) :
      WellFormed t none ts
  | signed {sign : Operator} {ts : List Token} (unary : sign.isUnary)
      (start : sign.symbol <+: t) (reads : Reads false [] t (.operator sign :: ts))
      (chain : Derives .chain ts) : WellFormed t (some sign) ts

def withSign : Option Operator → Formula → Formula
  | none, f => f
  | some sign, f => .node f .missing none (some sign) false

/-- The tree of a chain at a level. Level 8 holds operands, calls and groups; a level below holds in
addition what operators of its own precedence join, where the right side is of a higher level. The
sign goes to what stands first. -/
inductive Tree : (sign : Option Operator) → (level : Nat) → List Token → Formula → Prop
  | operand {sign : Option Operator} {value : Text} (h : value ≠ []) :
      Tree sign 8 [.operand value] (.operand value sign)
  | call {sign : Option Operator} {name function : Text} (h : scriptCall? name = some function)
      (a : Text) : Tree sign 8 [.operand name, .arguments a] (.call function a sign)
  | group {sign : Option Operator} {ts : List Token} {f : Formula} (h : Tree none 1 ts f) :
      Tree sign 8 (.operator .openGroup :: (ts ++ [.operator .closeGroup])) (withSign sign f)
  | lift {sign : Option Operator} {level : Nat} {ts : List Token} {f : Formula}
      (h : Tree sign (level + 1) ts f) : Tree sign level ts f
  | node {sign : Option Operator} {op : Operator} {ts us : List Token} {f g : Formula}
      (left : Tree sign op.precedence ts f) (binary : 0 < op.precedence)
      (right : Tree none (op.precedence + 1) us g) :
      Tree sign op.precedence (ts ++ .operator op :: us) (.node f g (some op) none false)

theorem precedence_lt (op : Operator) : op.precedence < 8 := by
  cases op <;> decide

theorem Tree.lower {sign : Option Operator} {level : Nat} {ts : List Token} {f : Formula}
    (h : Tree sign level ts f) {lower : Nat} (hl : lower ≤ level) : Tree sign lower ts f := by
  induction hl with
  | refl => exact h
  | step hl ih => exact ih h.lift

theorem Tree.exists_join {sign : Option Operator} {level : Nat} {ts : List Token} {f : Formula}
    (h : Tree sign level ts f) {op : Operator} (hl : level ≤ op.precedence)
    (binary : 0 < op.precedence) {us : List Token} {g : Formula} (hg : Tree none 8 us g) :
    ∃ f', Tree sign level (ts ++ .operator op :: us) f' := by
  have hp := precedence_lt op
  induction h with
  | operand h => omega
  | call h a => omega
  | group h ih => omega
  | @lift sign level ts f h ih =>
    by_cases he : level = op.precedence
    · subst he
      exact ⟨_, .node h.lift binary (hg.lower hp)⟩
    · obtain ⟨f', hf⟩ := ih (by omega)
      exact ⟨f', hf.lift⟩
  | @node sign op' ts vs f g' left binary' right ihl ihr =>
    by_cases he : op'.precedence = op.precedence
    · have whole := Tree.node left binary' right
      rw [he] at whole ⊢
      exact ⟨_, .node whole binary (hg.lower hp)⟩
    · obtain ⟨g'', hr⟩ := ihr (by omega)
      have joined := Tree.node left binary' hr
      rw [List.append_assoc, List.cons_append]
      exact ⟨_, joined⟩

def Symbol.level : Symbol → Nat
  | chain => 1
  | primary => 8

theorem Derives.exists_tree {symbol : Symbol} {ts : List Token} (h : Derives symbol ts)
    (sign : Option Operator) : ∃ f, Tree sign symbol.level ts f := by
  induction h generalizing sign with
  | operand h => exact ⟨_, .operand h⟩
  | call h a => exact ⟨_, .call h a⟩
  | group h ih =>
    obtain ⟨f, hf⟩ := ih none
    exact ⟨_, .group hf⟩
  | single h ih =>
    obtain ⟨f, hf⟩ := ih sign
    exact ⟨f, hf.lower (by decide)⟩
  | join left binary right ihl ihr =>
    obtain ⟨f, hf⟩ := ihl sign
    obtain ⟨g, hg⟩ := ihr none
    exact hf.exists_join binary binary hg

end Grammar

end FormulaMigration
