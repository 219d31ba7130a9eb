import FormulaMigration.Proofs.Grouping
import FormulaMigration.Proofs.Lexing
import FormulaMigration.Proofs.Parentheses

namespace FormulaMigration

theorem exists_of_append_eq {α : Type} {as bs l r : List α} {x : α} (h : as ++ bs = l ++ x :: r)
    (other : x ∉ as) : ∃ m, l = as ++ m ∧ bs = m ++ x :: r := by
  rcases List.append_eq_append_iff.mp h with ⟨m, rfl, hm⟩ | ⟨m, rfl, hm⟩
  · exact ⟨m, rfl, hm⟩
  · cases m with
    | nil => exact ⟨[], by simp, by simpa using hm.symm⟩
    | cons y m =>
      obtain ⟨rfl, -⟩ := List.cons.inj hm
      exact absurd (List.mem_append_right _ List.mem_cons_self) other

theorem Operator.precedence_pos {op : Operator} (opens : op ≠ openGroup) (closes : op ≠ closeGroup)
    (negates : op ≠ negation) : 0 < op.precedence := by
  cases op <;> simp_all [precedence]

theorem Operator.plain_symbol {op : Operator} (opens : op ≠ openGroup) (closes : op ≠ closeGroup) :
    op.symbol.Plain := by
  intro c hc
  constructor
  · rintro rfl
    exact (eq_paren_of_mem_symbol hc (.inl rfl)).elim opens closes
  · rintro rfl
    exact (eq_paren_of_mem_symbol hc (.inr rfl)).elim opens closes

namespace Lexeme

def depth? (depth : Nat) : Lexeme → Option Nat
  | operator start op =>
    if op = .openGroup then some (depth + 1)
    else if op = .closeGroup then if depth = 0 then none else some (depth - 1)
    else if op = .negation ∧ start ≠ 0 then some 0
    else some depth
  | unclosed _ => none
  | _ => some depth

end Lexeme

namespace Formula

def opened (frames : List Frame) : Nat :=
  frames.countP (·.op = .openGroup)

theorem opened_cons_open {frame : Frame} (h : frame.op = .openGroup) (frames : List Frame) :
    opened (frame :: frames) = opened frames + 1 :=
  List.countP_cons_of_pos (by simpa using h)

theorem opened_cons_other {frame : Frame} (h : frame.op ≠ .openGroup) (frames : List Frame) :
    opened (frame :: frames) = opened frames :=
  List.countP_cons_of_neg (by simpa using h)

theorem opened_dropWhile {q : Frame → Bool} (h : ∀ frame, frame.op = .openGroup → q frame = false)
    (frames : List Frame) : opened (frames.dropWhile q) = opened frames := by
  induction frames with
  | nil => rfl
  | cons frame frames ih =>
    rw [List.dropWhile_cons]
    split_ifs with folds
    · have other : frame.op ≠ .openGroup := by
        intro opens
        cases folds.symm.trans (h frame opens)
      rw [ih, opened_cons_other other]
    · rfl

theorem loose_group {op : Operator} (binary : 0 < op.precedence) (frame : Frame)
    (opens : frame.op = .openGroup) : decide (op.precedence ≤ frame.op.precedence) = false := by
  rw [opens, decide_eq_false_iff_not, Nat.not_le]
  exact binary

theorem combine_error {index : Nat} {op : Operator} {grouped : Bool} {operands : List Formula}
    {e : FormulaError} (h : combine index op grouped operands = .error e) :
    e = .unexpectedState index := by
  match operands with
  | [] =>
    cases h
    rfl
  | [right] => cases h
  | right :: left :: rest => cases h

theorem reduceWhile_error {index : Nat} {q : Frame → Bool} {frames : List Frame}
    {operands : List Formula} {e : FormulaError}
    (h : reduceWhile index q frames operands = .error e) : e = .unexpectedState index := by
  induction frames generalizing operands with
  | nil => cases h
  | cons frame frames ih =>
    rw [reduceWhile] at h
    split_ifs at h with folds
    rcases error_or_of_bind h with h | ⟨operands', -, h⟩
    · exact combine_error h
    · exact ih h

namespace Stacks

theorem close_frames {index : Nat} {s s' : Stacks} (h : s.close index = .ok s') :
    (∃ sign, s.frames.dropWhile (·.op ≠ .openGroup) = ⟨.openGroup, sign⟩ :: s'.frames) ∧
      s'.sign = none := by
  obtain ⟨operands, sign, frames, hr, closed⟩ := close_ok h
  rw [← reduceWhile_frames hr]
  rcases closed with ⟨-, rfl⟩ | ⟨op, inner, rest, -, -, rfl⟩
  · exact ⟨⟨sign, rfl⟩, rfl⟩
  · exact ⟨⟨sign, rfl⟩, rfl⟩

theorem close_opened {index : Nat} {s s' : Stacks} (h : s.close index = .ok s') :
    opened s.frames = opened s'.frames + 1 := by
  obtain ⟨⟨sign, cut⟩, -⟩ := close_frames h
  have kept := opened_dropWhile (q := (·.op ≠ .openGroup)) (by simp) s.frames
  rw [cut, opened_cons_open rfl] at kept
  exact kept.symm

theorem close_error {index : Nat} {s : Stacks} {e : FormulaError} (h : s.close index = .error e) :
    e = .unexpectedState index ∨ e = .unmatchedClose index ∧ opened s.frames = 0 := by
  rcases error_or_of_bind h with h | ⟨⟨operands, frames⟩, hr, h⟩
  · exact .inl (reduceWhile_error h)
  have kept := opened_dropWhile (q := (·.op ≠ .openGroup)) (by simp) s.frames
  rw [← reduceWhile_frames hr] at kept
  match frames with
  | [] =>
    cases h
    exact .inr ⟨rfl, kept.symm⟩
  | ⟨op, sign⟩ :: frames =>
    match sign, operands with
    | none, operands => cases h
    | some sign, [] =>
      cases h
      exact .inl rfl
    | some sign, inner :: rest => cases h

theorem pushOperator_frames {index : Nat} {op : Operator} {s s' : Stacks}
    (h : s.pushOperator index op = .ok s') :
    s'.frames = ⟨op, s.sign⟩ ::
        s.frames.dropWhile (fun frame => op.precedence ≤ frame.op.precedence) ∧
      s'.sign = none := by
  obtain ⟨operands, frames, hr, rfl⟩ := pushOperator_ok h
  rw [reduceWhile_frames hr]
  exact ⟨rfl, rfl⟩

theorem pushOperator_opened {index : Nat} {op : Operator} {s s' : Stacks}
    (h : s.pushOperator index op = .ok s') (binary : 0 < op.precedence) :
    opened s'.frames = opened s.frames := by
  have other : op ≠ .openGroup := by
    rintro rfl
    cases binary
  rw [(pushOperator_frames h).1, opened_cons_other other, opened_dropWhile (loose_group binary)]

theorem pushOperator_negation {index : Nat} {s s' : Stacks}
    (h : s.pushOperator index .negation = .ok s') : opened s'.frames = 0 := by
  -- A `!` binds as loosely as a parenthesis, so no frame stops the folding.
  have folded : s.frames.dropWhile (fun frame =>
      Operator.precedence .negation ≤ frame.op.precedence) = [] := by
    apply List.dropWhile_eq_nil_iff.mpr
    simp [Operator.precedence]
  rw [(pushOperator_frames h).1, folded]
  rfl

theorem pushOperator_error {index : Nat} {op : Operator} {s : Stacks} {e : FormulaError}
    (h : s.pushOperator index op = .error e) : e = .unexpectedState index := by
  rcases error_or_of_bind h with h | ⟨a, -, h⟩
  · exact reduceWhile_error h
  · cases h

theorem read_opened {l : Lexeme} {s s' : Stacks} (h : s.read l = .ok s') :
    l.depth? (opened s.frames) = some (opened s'.frames) := by
  cases l with
  | operand start t =>
    obtain ⟨-, rfl⟩ := readOperand_ok h
    rfl
  | operator start op =>
    cases readOperator_ok h with
    | sign unary first free => cases op <;> simp_all [Lexeme.depth?, Operator.isUnary]
    | opens group => simp [Lexeme.depth?, group, opened]
    | closes group closed => simp [Lexeme.depth?, group, close_opened closed]
    | joins opens closes later pushed =>
      simp only [Lexeme.depth?, opens, closes, if_false]
      split_ifs with negates
      · rw [negates.1] at pushed
        rw [pushOperator_negation pushed]
      · have other : op ≠ .negation := fun is => negates ⟨is, (later (by rw [is]; rfl)).1⟩
        rw [pushOperator_opened pushed (Operator.precedence_pos opens closes other)]
  | arguments opening closing a =>
    obtain ⟨name, sign, rest, function, -, -, rfl⟩ := readArguments_ok h
    rfl
  | unclosed opening => cases h

inductive Refuses (s : Stacks) : Lexeme → FormulaError → Prop
  | empty {start : Nat} {t : Text} (white : t.trim = []) :
      Refuses s (.operand start t) (.emptyOperand start)
  | consecutive {start : Nat} {op : Operator} (unary : op.isUnary) (signed : s.sign.isSome) :
      Refuses s (.operator start op) (.consecutiveUnary start)
  | unmatched {start : Nat} (none : opened s.frames = 0) :
      Refuses s (.operator start .closeGroup) (.unmatchedClose start)
  | unfit {start : Nat} {op : Operator} : Refuses s (.operator start op) (.unexpectedState start)
  | undefined {opening closing : Nat} {a name : Text} {sign : Option Operator} {rest : List Formula}
      (named : s.operands = operand name sign :: rest) (unknown : scriptCall? name = none) :
      Refuses s (.arguments opening closing a) (.undefinedFunction name)
  | unnamed {opening closing : Nat} {a : Text} :
      Refuses s (.arguments opening closing a) (.unexpectedState closing)
  | unclosed {opening : Nat} : Refuses s (.unclosed opening) (.callNotClosed opening)

theorem refuses_of_read {l : Lexeme} {s : Stacks} {e : FormulaError} (h : s.read l = .error e) :
    s.Refuses l e := by
  cases l with
  | operand start t =>
    change s.readOperand start t = _ at h
    unfold readOperand at h
    split_ifs at h with white
    cases h
    exact .empty white
  | operator start op =>
    change s.readOperator start op = _ at h
    unfold readOperator at h
    split_ifs at h with consecutive first opens closes
    · cases h
      rw [Bool.and_eq_true] at consecutive
      exact .consecutive consecutive.1 consecutive.2
    · subst closes
      rcases close_error h with rfl | ⟨rfl, none⟩
      · exact .unfit
      · exact .unmatched none
    · rw [pushOperator_error h]
      exact .unfit
  | arguments opening closing a =>
    change s.readArguments closing a = _ at h
    unfold readArguments at h
    split at h
    next name sign rest named =>
      split at h
      next => cases h
      next unknown =>
        cases h
        exact .undefined named unknown
    next =>
      cases h
      exact .unnamed
  | unclosed opening =>
    cases h
    exact .unclosed

theorem read_unmatched {l : Lexeme} {s : Stacks} {i : Nat}
    (h : s.read l = .error (.unmatchedClose i)) :
    l = .operator i .closeGroup ∧ opened s.frames = 0 := by
  cases refuses_of_read h with
  | unmatched none => exact ⟨rfl, none⟩

theorem read_callNotClosed_iff {l : Lexeme} {s : Stacks} {i : Nat} :
    s.read l = .error (.callNotClosed i) ↔ l = .unclosed i := by
  constructor
  · intro h
    cases refuses_of_read h with
    | unclosed => rfl
  · rintro rfl
    rfl

theorem run_opened {ls : List Lexeme} {s s' : Stacks} (h : ls.foldlM Stacks.read s = .ok s') :
    ls.foldlM Lexeme.depth? (opened s.frames) = some (opened s'.frames) := by
  induction ls generalizing s with
  | nil =>
    cases h
    rfl
  | cons l ls ih =>
    rw [List.foldlM_cons] at h ⊢
    obtain ⟨s'', read, run⟩ := exists_of_bind_eq_ok h
    rw [read_opened read]
    exact ih run

theorem finish_error {index : Nat} {s : Stacks} {e : FormulaError} (h : s.finish index = .error e) :
    e = .unexpectedState index := by
  rcases error_or_of_bind h with h | ⟨⟨operands, frames⟩, hr, h⟩
  · exact reduceWhile_error h
  · match operands with
    | [] =>
      cases h
      rfl
    | [root] => cases h
    | f :: g :: operands =>
      cases h
      rfl

end Stacks

end Formula

namespace Lexeme

/-- The parentheses of what was passed match since a `!` among the lexemes that is no sign. -/
def GivenUp (ls : List Lexeme) (start : Nat) (passed : Text) : Prop :=
  ∃ l m : Text, passed = l ++ '!' :: m ∧ start + Text.byteLength l ≠ 0 ∧
    .operator (start + Text.byteLength l) .negation ∈ ls ∧ m.balances 0

theorem GivenUp.append {ls ls' : List Lexeme} {start : Nat} {s passed : Text}
    (h : GivenUp ls' (start + Text.byteLength s) passed) :
    GivenUp (ls ++ ls') start (s ++ passed) := by
  obtain ⟨l, m, rfl, later, mem, matching⟩ := h
  rw [Nat.add_assoc, ← Text.byteLength_append] at later mem
  exact ⟨s ++ l, m, by simp, later, List.mem_append_right _ mem, matching⟩

def Closes (ls : List Lexeme) (start depth : Nat) (passed : Text) : Prop :=
  passed.balances depth ∨ GivenUp ls start passed

theorem Closes.append {ls ls' : List Lexeme} {start depth depth' : Nat} {s passed : Text}
    (h : Closes ls' (start + Text.byteLength s) depth' passed)
    (same : (s ++ passed).balances depth = passed.balances depth') :
    Closes (ls ++ ls') start depth (s ++ passed) := by
  rcases h with matching | givenUp
  · exact .inl (same.trans matching)
  · exact .inr givenUp.append

theorem Closes.operator {ls : List Lexeme} {here depth depth' : Nat} {op : Operator} {passed : Text}
    (step : (Lexeme.operator here op).depth? depth = some depth')
    (h : Closes ls (here + Text.byteLength op.symbol) depth' passed) :
    Closes (.operator here op :: ls) here depth (op.symbol ++ passed) := by
  rw [← List.singleton_append]
  rw [depth?] at step
  split_ifs at step with opens closes none negates
  · cases step
    subst opens
    exact h.append rfl
  · cases step
    subst closes
    apply h.append
    simp [Operator.symbol, Text.balances, none]
  · cases step
    obtain ⟨rfl, later⟩ := negates
    rcases h with matching | givenUp
    · right
      exact ⟨[], passed, rfl, by simpa [Text.byteLength] using later,
        by simp [Text.byteLength], matching⟩
    · exact .inr givenUp.append
  · cases step
    have plain := Operator.plain_symbol opens closes
    exact h.append (Text.balances_append (Text.balances_of_plain plain) _ _)

theorem Closes.call {ls : List Lexeme} {here depth : Nat} {l : Lexeme} {a passed : Text}
    (matching : a.balances 0)
    (h : Closes ls (here + 1 + Text.byteLength a + 1) depth passed) :
    Closes (l :: ls) here depth ('(' :: (a ++ ')' :: passed)) := by
  have whole : '(' :: (a ++ ')' :: passed) = '(' :: (a ++ [')']) ++ passed := by simp
  have width : here + Text.byteLength ('(' :: (a ++ [')'])) = here + 1 + Text.byteLength a + 1 := by
    rw [Text.byteLength_call, Text.byteLength]
    omega
  rw [whole, ← List.singleton_append]
  rw [← width] at h
  exact h.append (Text.balances_append (Text.balances_parenthesized matching) _ _)

theorem foldlM_depth?_ofGap (start depth : Nat) (gap : Text) (ls : List Lexeme) :
    (ofGap start gap ++ ls).foldlM depth? depth = ls.foldlM depth? depth := by
  unfold ofGap
  split_ifs <;> rfl

end Lexeme

theorem Lexes.exists_of_unmatched {named : Bool} {before t : Text} {start depth i : Nat}
    {ls pre post : List Lexeme} (h : Lexes named before start t ls)
    (cut : ls = pre ++ .operator i .closeGroup :: post)
    (closed : pre.foldlM Lexeme.depth? depth = some 0) :
    ∃ passed rest, t = passed ++ ')' :: rest ∧ start + Text.byteLength passed = i ∧
      Lexeme.Closes pre start depth passed := by
  -- In front of the text `depth` groups are open; the lexemes up to the `)` close them all, or a
  -- `!` among them gives them up.
  induction h generalizing depth pre with
  | @last named before gap start absent =>
    have mem : .operator i .closeGroup ∈ Lexeme.ofGap start gap := by simp [cut]
    exact absurd mem Lexeme.operator_notMem_ofGap
  | @operator named before gap rest start op ls absent first uncalled tail ih =>
    have bare := Text.balances_of_plain absent.plain
    obtain ⟨later, rfl, cut'⟩ := exists_of_append_eq cut Lexeme.operator_notMem_ofGap
    rw [Lexeme.foldlM_depth?_ofGap] at closed
    cases later with
    | nil =>
      cases closed
      obtain ⟨here, -⟩ := List.cons.inj cut'
      cases here
      exact ⟨gap, rest, rfl, rfl, .inl bare⟩
    | cons l later =>
      obtain ⟨rfl, shape⟩ := List.cons.inj cut'
      rw [List.foldlM_cons] at closed
      obtain ⟨depth', step, closed⟩ := Option.bind_eq_some_iff.mp closed
      obtain ⟨passed, rest', rfl, place, closes⟩ := ih shape closed
      refine ⟨gap ++ (op.symbol ++ passed), rest', by simp, ?_, ?_⟩
      · rw [Text.byteLength_append, Text.byteLength_append, ← place]
        omega
      · exact (closes.operator step).append (Text.balances_append bare _ _)
  | @call named before gap a rest start ls absent called matching tail ih =>
    have bare := Text.balances_of_plain absent.plain
    obtain ⟨later, rfl, cut'⟩ := exists_of_append_eq cut Lexeme.operator_notMem_ofGap
    rw [Lexeme.foldlM_depth?_ofGap] at closed
    cases later with
    | nil => cases (List.cons.inj cut').1
    | cons l later =>
      obtain ⟨rfl, shape⟩ := List.cons.inj cut'
      obtain ⟨passed, rest', rfl, place, closes⟩ := ih shape closed
      refine ⟨gap ++ '(' :: (a ++ ')' :: passed), rest', by simp, ?_, ?_⟩
      · rw [Text.byteLength_append, Text.byteLength_call]
        omega
      · exact (closes.call matching).append (Text.balances_append bare _ _)
  | @unclosed named before gap rest start absent called never =>
    have mem : .operator i .closeGroup ∈ Lexeme.ofGap start gap ++
        [.unclosed (start + Text.byteLength gap)] := by simp [cut]
    simp [Lexeme.operator_notMem_ofGap] at mem

namespace Formula

/-- Where a `)` is refused as unmatched, the parentheses before it match, so that it is one too
many, or they match since a `!` that stands after the start of the text. A text whose parentheses
match is refused so for such a `!` only. -/
theorem ofText_unmatchedClose {t : Text} {i : Nat} (h : ofText t = .error (.unmatchedClose i)) :
    ∃ before rest : Text, t = before ++ ')' :: rest ∧ Text.byteLength before = i ∧
      (before.Balanced ∧ (before ++ [')']).count '(' < (before ++ [')']).count ')' ∨
        ∃ l m : Text, before = l ++ '!' :: m ∧ l ≠ [] ∧
          .operator (Text.byteLength l) .negation ∈ Lexeme.ofText t ∧ m.Balanced) ∧
      (t.Balanced → ∃ j, j ≠ 0 ∧ j < i ∧ .operator j .negation ∈ Lexeme.ofText t) := by
  rcases error_or_of_bind h with fails | ⟨s, -, fails⟩
  rotate_left
  · cases Stacks.finish_error fails
  obtain ⟨passed, l, after, s, lexemes, run, refused⟩ := exists_of_foldlM_eq_error fails
  obtain ⟨rfl, none⟩ := Stacks.read_unmatched refused
  have closed := Stacks.run_opened run
  rw [none] at closed
  obtain ⟨before, rest, rfl, place, closes⟩ :=
    (lexes_ofText_iff.mpr rfl).exists_of_unmatched lexemes closed
  rw [Nat.zero_add] at place
  refine ⟨before, rest, rfl, place, ?_⟩
  rcases closes with matching | ⟨l, m, rfl, later, mem, matching⟩
  · have even := Text.count_eq_of_balances matching
    have surplus : (before ++ [')']).count '(' < (before ++ [')']).count ')' := by
      simp [List.count_append, even]
    refine ⟨.inl ⟨Text.balanced_iff.mpr matching, surplus⟩, fun balanced => ?_⟩
    have even' := balanced.1 (before ++ [')']) ⟨rest, by simp⟩
    omega
  · rw [Nat.zero_add] at later mem
    have inside := List.mem_append_left (.operator i .closeGroup :: after) mem
    rw [← lexemes] at inside
    have filled : l ≠ [] := by
      rintro rfl
      exact later rfl
    refine ⟨.inr ⟨l, m, rfl, filled, inside, Text.balanced_iff.mpr matching⟩, fun _ => ?_⟩
    refine ⟨Text.byteLength l, later, ?_, inside⟩
    have width : '!'.utf8Size = 1 := rfl
    simp only [Text.byteLength_append, Text.byteLength, width] at place
    omega

theorem ofText_unmatchedClose_called :
    ofText "max((1))) + (2".toList = .error (.unmatchedClose 8) ∧
      ∃ before rest : Text, "max((1))) + (2".toList = before ++ ')' :: rest ∧
        Text.byteLength before = 8 ∧ before.Balanced ∧
        (before ++ [')']).count '(' < (before ++ [')']).count ')' := by
  have fails : ofText "max((1))) + (2".toList = .error (.unmatchedClose 8) := rfl
  obtain ⟨before, rest, whole, place, matches', -⟩ := ofText_unmatchedClose fails
  refine ⟨fails, before, rest, whole, place, ?_⟩
  rcases matches' with matching | ⟨l, m, -, -, mem, -⟩
  · exact matching
  · have lexemes : Lexeme.ofText "max((1))) + (2".toList =
        [.operand 0 "max".toList, .arguments 3 7 "(1)".toList, .operator 8 .closeGroup,
          .operator 10 .plus, .operator 12 .openGroup, .operand 13 "2".toList] := rfl
    rw [lexemes] at mem
    simp at mem

-- The `!` gives up the group that the `)` would close.
theorem ofText_unmatchedClose_balanced :
    Text.Balanced "(a && !b)".toList ∧
      ofText "(a && !b)".toList = .error (.unmatchedClose 8) ∧
      "(a && !b)".toList.count '(' = "(a && !b)".toList.count ')' := by
  exact ⟨Text.balanced_iff.mpr rfl, rfl, rfl⟩

end Formula

end FormulaMigration
