import FormulaMigration.Proofs.Balance
import FormulaMigration.Proofs.Rejection
import FormulaMigration.Proofs.Spelling
import FormulaMigration.Proofs.Stacks

namespace FormulaMigration

namespace Operator

theorem plain_token {op : Operator} (h : op ≠ openGroup ∧ op ≠ closeGroup) : op.token.Plain := by
  cases op <;> simp_all [Text.Plain, token, replacement, symbol]

theorem count_symbol (op : Operator) :
    op.symbol.count '(' = [op].count openGroup ∧ op.symbol.count ')' = [op].count closeGroup := by
  cases op <;> decide

end Operator

theorem plain_of_scriptCall? {name function : Text} (h : scriptCall? name = some function) :
    function.Plain := by
  obtain ⟨l, l', table, -⟩ := List.lookup_eq_some_iff.mp h
  have plain : functionTable.all (fun row => row.2.all fun c => c != '(' && c != ')') := rfl
  apply Text.plain_iff.mpr
  exact List.all_eq_true.mp plain (name, function) (by simp [table])

namespace Token

def Matched : Token → Prop
  | operand value => value.Plain
  | operator _ => True
  | arguments a => a.balances 0

def pops : Token → List Operator
  | operator op => if op = .closeGroup then [.openGroup] else []
  | _ => []

def pushes : Token → List Operator
  | operator op => if op = .closeGroup then [] else [op]
  | _ => []

theorem count_pops (ts : List Token) :
    (ts.flatMap pops).count .openGroup = ts.count (.operator .closeGroup) := by
  induction ts with
  | nil => rfl
  | cons t ts ih =>
    cases t with
    | operator op => by_cases closes : op = .closeGroup <;> simp [pops, closes, ih]
    | _ => simpa [pops] using ih

theorem count_pushes (ts : List Token) :
    (ts.flatMap pushes).count .openGroup = ts.count (.operator .openGroup) ∧
      (ts.flatMap pushes).count .closeGroup = 0 := by
  induction ts with
  | nil => exact ⟨rfl, rfl⟩
  | cons t ts ih =>
    cases t with
    | operator op =>
      by_cases closes : op = .closeGroup <;> by_cases opens : op = .openGroup <;>
        simp_all [pushes]
    | _ => simpa [pushes] using ih

theorem count_ofGap {gap : Text} (op : Operator) : (ofGap gap).count (.operator op) = 0 := by
  apply List.count_eq_zero.mpr
  unfold ofGap
  split_ifs <;> simp

end Token

theorem Operator.AbsentFrom.plain {before gap rest : Text} (h : AbsentFrom before gap rest) :
    gap.Plain := by
  intro c hc
  exact h.no_paren hc

theorem Text.Plain.count {t : Text} (h : Plain t) : t.count '(' = 0 ∧ t.count ')' = 0 := by
  constructor
  · apply List.count_eq_zero.mpr
    intro hc
    exact (h _ hc).1 rfl
  · apply List.count_eq_zero.mpr
    intro hc
    exact (h _ hc).2 rfl

theorem Reads.count {named : Bool} {before t : Text} {ts : List Token}
    (h : Reads named before t ts) :
    t.count '(' + ts.count (.operator .closeGroup) =
      t.count ')' + ts.count (.operator .openGroup) := by
  induction h with
  | last absent =>
    obtain ⟨opens, closes⟩ := absent.plain.count
    rw [opens, closes, Token.count_ofGap, Token.count_ofGap]
  | @operator named before gap rest op ts absent first uncalled tail ih =>
    obtain ⟨opens, closes⟩ := absent.plain.count
    obtain ⟨opens', closes'⟩ := op.count_symbol
    simp only [List.count_append, List.count_cons, Token.count_ofGap, opens, closes, opens',
      closes', List.count_nil, beq_iff_eq, Token.operator.injEq]
    omega
  | @call named before gap a rest ts absent called matching tail ih =>
    obtain ⟨opens, closes⟩ := absent.plain.count
    have inner := Text.count_eq_of_balances matching
    simp only [List.count_append, List.count_cons, Token.count_ofGap, opens, closes, beq_iff_eq,
      Char.reduceEq, reduceCtorEq, if_true, if_false]
    omega

theorem Reads.matched {named : Bool} {before t : Text} {ts : List Token}
    (h : Reads named before t ts) : ∀ token ∈ ts, token.Matched := by
  have inGap {before gap rest : Text} (absent : Operator.AbsentFrom before gap rest) :
      ∀ token ∈ Token.ofGap gap, token.Matched := by
    unfold Token.ofGap
    split_ifs
    · exact List.forall_mem_singleton.mpr absent.plain.trim
    · simp
  induction h with
  | last absent => exact inGap absent
  | operator absent first uncalled tail ih =>
    exact List.forall_mem_append.mpr ⟨inGap absent, List.forall_mem_cons.mpr ⟨trivial, ih⟩⟩
  | call absent called matching tail ih =>
    exact List.forall_mem_append.mpr ⟨inGap absent, List.forall_mem_cons.mpr ⟨matching, ih⟩⟩

namespace Formula

def operators : Formula → List Operator
  | missing => []
  | operand _ sign => sign.toList
  | call _ _ sign => sign.toList
  | node left right op sign _ => left.operators ++ op.toList ++ sign.toList ++ right.operators

def held (operands : List Formula) (frames : List Frame) : List Operator :=
  operands.flatMap operators ++ frames.map (·.op)

variable {p : Operator}

theorem tallies_operators (p : Operator) : Tallies operators p := by
  constructor
  · rfl
  · intro left right op grouped
    simp only [operators, List.count_append, Option.toList_some, Option.toList_none, List.count_nil,
      Nat.add_zero]

theorem count_sign (plain : p.isUnary = false) {sign : Option Operator}
    (h : ∀ op ∈ sign, op.isUnary) : sign.toList.count p = 0 := by
  apply List.count_eq_zero.mpr
  intro hp
  cases plain.symm.trans (h p (by simpa using hp))

namespace Stacks

theorem close_count (plain : p.isUnary = false) {index : Nat} {s s' : Stacks}
    (h : s.close index = .ok s') (sound : s.Sound) :
    (held s'.operands s'.frames).count p + [Operator.openGroup].count p =
      (held s.operands s.frames).count p := by
  apply (tallies_operators p).close h
  -- The sign goes onto what the group holds, but it is no `p`.
  intro frame mem sign signed f
  have unsigned := count_sign plain (sound.frames frame mem)
  rw [signed, Option.toList_some] at unsigned
  simp only [operators, List.count_append, unsigned, Option.toList_none, Option.toList_some,
    List.count_nil, Nat.add_zero]

theorem readOperand_count (plain : p.isUnary = false) {start : Nat} {t : Text} {s s' : Stacks}
    (h : s.readOperand start t = .ok s') (sound : s.Sound) :
    (held s'.operands s'.frames).count p = (held s.operands s.frames).count p := by
  have unsigned := count_sign plain sound.sign
  obtain ⟨-, rfl⟩ := readOperand_ok h
  rw [held, ← collect, count_collect_operand, operators, unsigned, Nat.zero_add]
  rfl

theorem readArguments_count {closing : Nat} {a : Text} {s s' : Stacks}
    (h : s.readArguments closing a = .ok s') :
    (held s'.operands s'.frames).count p = (held s.operands s.frames).count p := by
  obtain ⟨name, sign, rest, function, -, named, rfl⟩ := readArguments_ok h
  rw [named]
  rfl

theorem readOperator_count (plain : p.isUnary = false) {start : Nat} {op : Operator} {s s' : Stacks}
    (h : s.readOperator start op = .ok s') (other : op ≠ .closeGroup) :
    (held s'.operands s'.frames).count p = (held s.operands s.frames).count p + [op].count p := by
  cases readOperator_ok h with
  | sign unary first free =>
    have sign : op ≠ p := by
      rintro rfl
      cases plain.symm.trans unary
    simp [sign]
  | opens group => exact count_collect_frame s.operands _ s.frames
  | closes group closed => exact absurd group other
  | joins opens closes later pushed => exact (tallies_operators p).pushOperator pushed

theorem read_count (plain : p.isUnary = false) {l : Lexeme} {t : Token} (token : l.token? = some t)
    {s s' : Stacks} (h : s.read l = .ok s') (sound : s.Sound) :
    s'.Sound ∧ (held s'.operands s'.frames).count p + t.pops.count p =
      (held s.operands s.frames).count p + t.pushes.count p := by
  cases l with
  | operand start text =>
    cases token
    exact ⟨(readOperand_sound h sound).1, readOperand_count plain h sound⟩
  | operator start op =>
    cases token
    refine ⟨(readOperator_sound h sound).1, ?_⟩
    by_cases closes : op = .closeGroup
    · subst closes
      have closed : s.close start = .ok s' := h
      exact close_count plain closed sound
    · rw [readOperator_count plain h closes]
      simp [Token.pops, Token.pushes, closes]
  | arguments opening closing a =>
    cases token
    exact ⟨(readArguments_sound h sound).1, readArguments_count h⟩
  | unclosed opening => cases h

theorem run_count (plain : p.isUnary = false) {ls : List Lexeme} {ts : List Token}
    (tokens : ls.map Lexeme.token? = ts.map some) {s s' : Stacks}
    (run : ls.foldlM Stacks.read s = .ok s') (sound : s.Sound) :
    s'.Sound ∧ (held s'.operands s'.frames).count p + (ts.flatMap Token.pops).count p =
      (held s.operands s.frames).count p + (ts.flatMap Token.pushes).count p := by
  induction ls generalizing ts s with
  | nil =>
    obtain rfl := List.map_eq_nil_iff.mp tokens.symm
    cases run
    exact ⟨sound, rfl⟩
  | cons l ls ih =>
    obtain ⟨t, ts, rfl, token, tokens⟩ := List.map_eq_cons_iff.mp tokens.symm
    rw [List.foldlM_cons] at run
    obtain ⟨s'', read, run⟩ := exists_of_bind_eq_ok run
    obtain ⟨sound'', step⟩ := read_count plain token.symm read sound
    obtain ⟨sound', rest⟩ := ih tokens.symm run sound''
    refine ⟨sound', ?_⟩
    simp only [List.flatMap_cons, List.count_append]
    omega

end Stacks

theorem count_operators {t : Text} {f : Formula} (h : ofText t = .ok f) :
    f.operators.count .openGroup + t.count ')' = t.count '(' ∧
      f.operators.count .closeGroup = 0 := by
  obtain ⟨ts, reads, -, -⟩ := exists_reads h
  obtain ⟨s, run, finished⟩ := exists_of_bind_eq_ok h
  have tokens := reads_ofText_iff.mp reads
  obtain ⟨-, opens⟩ := @Stacks.run_count .openGroup rfl _ _ tokens _ _ run Stacks.empty_sound
  obtain ⟨-, closes⟩ := @Stacks.run_count .closeGroup rfl _ _ tokens _ _ run Stacks.empty_sound
  have folded (p : Operator) := (tallies_operators p).finish finished
  rw [held, ← collect, ← folded] at opens closes
  obtain ⟨pushed, pushed'⟩ := Token.count_pushes ts
  have start (p : Operator) : (held Stacks.empty.operands Stacks.empty.frames).count p = 0 := rfl
  have text := reads.count
  rw [Token.count_pops, pushed, start] at opens
  rw [pushed', start] at closes
  omega

/-- A formula in which no parenthesis can get lost: there is none among its operators, and those in
its calls match. -/
def Matched : Formula → Prop
  | missing => True
  | operand value sign => value.Plain ∧ (Script.signToken sign).Plain
  | call function a sign => function.Plain ∧ a.balances 0 ∧ (Script.signToken sign).Plain
  | node left right op sign _ =>
    left.Matched ∧ right.Matched ∧ (Script.signToken op).Plain ∧ (Script.signToken sign).Plain

theorem plain_signToken {sign : Option Operator}
    (h : ∀ op ∈ sign.toList, op ≠ .openGroup ∧ op ≠ .closeGroup) :
    (Script.signToken sign).Plain := by
  cases sign with
  | none => exact fun _ hc => nomatch hc
  | some op => exact Operator.plain_token (h op (by simp))

theorem Matched.of_leaves {f : Formula}
    (operators : ∀ op ∈ f.operators, op ≠ .openGroup ∧ op ≠ .closeGroup)
    (leaves : ∀ leaf ∈ f.leaves.map unsigned, leaf.Matched) : f.Matched := by
  induction f with
  | missing => trivial
  | operand value sign =>
    obtain ⟨plain, -⟩ := leaves _ List.mem_cons_self
    exact ⟨plain, plain_signToken operators⟩
  | call function a sign =>
    obtain ⟨plain, matching, -⟩ := leaves _ List.mem_cons_self
    exact ⟨plain, matching, plain_signToken operators⟩
  | node left right op sign grouped ihl ihr =>
    rw [Formula.leaves, List.map_append] at leaves
    simp only [Formula.operators, List.mem_append] at operators
    refine ⟨?_, ?_, ?_, ?_⟩
    · apply ihl
      · intro op hop
        exact operators op (.inl (.inl (.inl hop)))
      · intro leaf hl
        exact leaves leaf (List.mem_append_left _ hl)
    · apply ihr
      · intro op hop
        exact operators op (.inr hop)
      · intro leaf hl
        exact leaves leaf (List.mem_append_right _ hl)
    · apply plain_signToken
      intro op hop
      exact operators op (.inl (.inl (.inr hop)))
    · apply plain_signToken
      intro op hop
      exact operators op (.inl (.inr hop))

theorem matched_of_token {ts : List Token} {fs : List Formula} (h : Token.Leaves ts fs)
    (matched : ∀ token ∈ ts, token.Matched) : ∀ f ∈ fs, f.Matched := by
  have unsigned : (Script.signToken none).Plain := fun _ hc => nomatch hc
  induction h with
  | nil => simp
  | operand alone tail ih =>
    obtain ⟨value, rest⟩ := List.forall_mem_cons.mp matched
    have leaf : Matched (.operand _ none) := ⟨value, unsigned⟩
    exact List.forall_mem_cons.mpr ⟨leaf, ih rest⟩
  | @call name function a ts fs next hf tail ih =>
    have called : a.balances 0 :=
      matched _ (List.mem_cons_of_mem _ (Token.mem_of_argumentsNext next))
    have leaf : Matched (.call function a none) := ⟨plain_of_scriptCall? hf, called, unsigned⟩
    exact List.forall_mem_cons.mpr ⟨leaf, ih (List.forall_mem_cons.mp matched).2⟩
  | operator op tail ih => exact ih (List.forall_mem_cons.mp matched).2
  | arguments a tail ih => exact ih (List.forall_mem_cons.mp matched).2

theorem operators_of_balances {t : Text} {f : Formula} (h : ofText t = .ok f)
    (matching : t.balances 0) : ∀ op ∈ f.operators, op ≠ .openGroup ∧ op ≠ .closeGroup := by
  obtain ⟨opened, closed⟩ := count_operators h
  have even := Text.count_eq_of_balances matching
  have unopened : f.operators.count .openGroup = 0 := by omega
  intro op hop
  constructor
  · rintro rfl
    exact List.count_eq_zero.mp unopened hop
  · rintro rfl
    exact List.count_eq_zero.mp closed hop

theorem matched_of_balances {t : Text} {f : Formula} (h : ofText t = .ok f)
    (matching : t.balances 0) : f.Matched := by
  obtain ⟨ts, reads, -, leaves⟩ := exists_reads h
  apply Matched.of_leaves (operators_of_balances h matching)
  exact matched_of_token leaves reads.matched

end Formula

namespace Script

def Even (ts : List Text) : Prop :=
  (Text.join [' '] ts).balances 0

theorem Even.append {ts us : List Text} (ht : Even ts) (hu : Even us) : Even (ts ++ us) := by
  by_cases noneT : ts = []
  · rwa [noneT]
  by_cases noneU : us = []
  · rwa [noneU, List.append_nil]
  have blank : Text.balances 0 ([' '] ++ Text.join [' '] us) := by
    rwa [Text.balances_append rfl]
  rw [Even, join_append noneT noneU, List.append_assoc, Text.balances_append ht]
  exact blank

theorem Even.mapFirst {ts : List Text} (h : Even ts) {s : Text} (hs : s.Plain) :
    Even (mapFirst (s ++ ·) ts) := by
  by_cases none : ts = []
  · rw [none]
    rfl
  · rw [Even, join_mapFirst _ _ none, Text.balances_append (Text.balances_of_plain hs)]
    exact h

theorem Even.mapLast {ts : List Text} (h : Even ts) {s : Text} (hs : s.Plain) :
    Even (mapLast (· ++ s) ts) := by
  by_cases none : ts = []
  · rw [none]
    rfl
  · rw [Even, join_mapLast _ _ none, Text.balances_append h]
    exact Text.balances_of_plain hs

theorem Even.inParentheses {ts : List Text} (h : Even ts) : Even (inParentheses ts) := by
  by_cases none : ts = []
  · rw [none]
    rfl
  · rw [Even, join_inParentheses _ none]
    exact Text.balances_parenthesized h

theorem Even.beforeNext {α : Type} {ts : List Text} (h : Even ts) (rest : List α) :
    Even (beforeNext rest ts) := by
  have comma : Text.Plain [','] := Text.plain_iff.mpr rfl
  unfold Script.beforeNext
  split_ifs
  · exact h
  · exact h.mapLast comma

theorem even_operatorTokens {left right : Formula} {op : Option Operator}
    (h : (signToken op).Plain) : Even (operatorTokens left right op) := by
  cases op with
  | none => rfl
  | some op =>
    unfold operatorTokens
    dsimp only
    split_ifs
    · exact Text.balances_of_plain h
    · rfl

theorem Even.node {left right : Formula} {op sign : Option Operator} {ts us : List Text}
    (ht : Even ts) (hu : Even us) (operator : (signToken op).Plain)
    (signed : (signToken sign).Plain) (grouped : Bool) :
    Even (nodeTokens left right op sign grouped ts us) := by
  have middle := @even_operatorTokens left right op operator
  have inner := (ht.append middle).append hu
  have tokens : Even (if left.isPresent && right.isPresent
      then ts ++ operatorTokens left right op ++ us
      else withSign sign (ts ++ operatorTokens left right op ++ us)) := by
    split_ifs
    · exact inner
    · exact inner.mapFirst signed
  unfold nodeTokens
  cases grouped with
  | false => exact tokens
  | true => exact tokens.inParentheses

theorem plain_ofOperand {value : Text} (h : value.Plain) : (Literal.ofOperand value).Plain := by
  rcases Literal.ofOperand_cases value with same | quoted
  · rwa [same]
  · rw [quoted]
    exact h.quote

theorem plain_diceLiteral {t : Text} (h : t.Plain) : (diceLiteral t).Plain := by
  unfold diceLiteral
  dsimp only
  split_ifs
  · exact h.trim
  · exact h.trim.quote

theorem balances_of_copied? {function t token : Text} {position : Nat}
    (h : copied? function position t = some token) (matching : t.balances 0) :
    token.balances 0 := by
  unfold copied? at h
  split_ifs at h with dice literal quoted
  · cases h
    exact Text.balances_of_plain (plain_diceLiteral (.of_balances matching literal.2))
  · cases h
    exact matching

def Part.Matched : Part → Prop
  | formula f => f.Matched
  | arguments _ _ ts => ∀ t ∈ ts, t.balances 0

theorem Written.even {part : Part} {ts : List Text} {rs : List Rejection} (h : Written part ts rs)
    (matched : part.Matched) : Even ts := by
  induction h with
  | missing => rfl
  | operand value sign =>
    exact Text.balances_of_plain (matched.2.append (plain_ofOperand matched.1))
  | node operator sign grouped l r ihl ihr =>
    obtain ⟨left, right, op, signed⟩ := matched
    exact (ihl left).node (ihr right) op signed grouped
  | @call function a ts rs sign parts ih =>
    obtain ⟨function, arguments, signed⟩ := matched
    have parts := ih fun t ht => Arguments.balances_of_mem arguments ht
    have inner := Text.balances_parenthesized parts
    have name := Text.balances_of_plain (signed.append function)
    change Text.balances 0 (_ ++ _ ++ '(' :: Text.join [' '] ts ++ [')'])
    rw [List.append_assoc, Text.balances_append name]
    exact inner
  | nil function position => rfl
  | copied h tail ih =>
    obtain ⟨first, rest⟩ := List.forall_mem_cons.mp matched
    have token : Even [_] := balances_of_copied? h first
    exact (token.beforeNext _).append (ih rest)
  | read h reading inner tail ihi iht =>
    -- An argument is a text of its own, whose parentheses match again.
    obtain ⟨first, rest⟩ := List.forall_mem_cons.mp matched
    have argument := ihi (Formula.matched_of_balances reading first)
    exact (argument.beforeNext _).append (iht rest)
  | rejected h reading tail ih =>
    obtain ⟨first, rest⟩ := List.forall_mem_cons.mp matched
    have token : Even [errorPlaceholder] := rfl
    exact (token.beforeNext _).append (ih rest)

end Script

namespace Formula

/-- Parentheses that match in a formula match in its script, and none of them is left over as an
operator. -/
theorem convert?_balanced {t : Text} {c : Conversion} (h : t.Balanced)
    (conversion : convert? t = .ok c) :
    ∃ f, ofText t = .ok f ∧ (∀ op ∈ f.operators, op ≠ .openGroup ∧ op ≠ .closeGroup) ∧
      c.output.Balanced := by
  obtain ⟨f, reading, written⟩ := exists_of_bind_eq_ok conversion
  cases written
  have matching := Text.balanced_iff.mp h
  obtain ⟨rs, tokens, -⟩ := Script.ofFormula_tells reading
  have even := tokens.even (matched_of_balances reading matching)
  exact ⟨f, reading, operators_of_balances reading matching, Text.balanced_iff.mpr even⟩

theorem convert?_balanced_nested :
    ∃ (t : Text) (c : Conversion), t = "-((a)*max(\"(,)\",roll(2d6,(-1)),foo((1)))+)!(c)".toList ∧
      t.Balanced ∧ convert? t = .ok c ∧
      ∃ f, ofText t = .ok f ∧ (∀ op ∈ f.operators, op ≠ .openGroup ∧ op ≠ .closeGroup) ∧
        c.output.Balanced := by
  have matching : Text.Balanced "-((a)*max(\"(,)\",roll(2d6,(-1)),foo((1)))+)!(c)".toList :=
    Text.balanced_iff.mpr rfl
  exact ⟨_, _, rfl, matching, rfl, convert?_balanced matching rfl⟩

end Formula

end FormulaMigration
