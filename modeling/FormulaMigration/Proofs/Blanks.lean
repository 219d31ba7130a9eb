import FormulaMigration.Proofs.Calls

namespace FormulaMigration

namespace Operator

variable {before before' : Text}

theorem isExponentMark_edge (edge : Edge before) (edge' : Edge before') (l : Text) :
    isExponentMark (l ++ before) = isExponentMark (l ++ before') := by
  rw [Bool.eq_iff_iff]
  constructor
  · intro h
    exact isExponentMark_append edge h before'
  · intro h
    exact isExponentMark_append edge' h before

theorem at?_edge (edge : Edge before) (edge' : Edge before') (l t : Text) :
    at? (l ++ before) t = at? (l ++ before') t := by
  unfold at? standsAt
  rw [isExponentMark_edge edge edge' l]

end Operator

namespace Scan

theorem ofTextAfter_edge {before before' : Text} (edge : Operator.Edge before)
    (edge' : Operator.Edge before') (l : Text) (skip : Nat) (t : Text) :
    ofTextAfter (l ++ before) skip t = ofTextAfter (l ++ before') skip t := by
  induction t generalizing l skip with
  | nil => rfl
  | cons c t ih =>
    have next (skip : Nat) := ih (c :: l) skip
    simp only [List.cons_append] at next
    cases skip with
    | succ skip => exact next skip
    | zero =>
      rw [ofTextAfter, ofTextAfter, Operator.at?_edge edge edge' l]
      cases Operator.at? (l ++ before') (c :: t) with
      | some op => exact congrArg (step [] op) (next _)
      | none => exact congrArg (push c) (next _)

theorem ofText_blank {w : Text} (blank : ∀ c ∈ w, isBlank c) (t : Text) :
    ofText (w ++ t) = (ofText t).prepend w := by
  have start : Operator.Edge [] := by simp [Operator.Edge]
  have after := start.append (Text.isWhiteSpace_of_blank blank)
  have same := ofTextAfter_edge after start [] 0 t
  rw [ofText, ofTextAfter_absent (Operator.absentFrom_blank blank [] t)]
  exact congrArg (prepend w) same

end Scan

namespace Lexeme

theorem isOperand_append_blank {w : Text} (blank : ∀ c ∈ w, isBlank c) (gap : Text) :
    isOperand (w ++ gap) = isOperand gap := by
  have bare := Token.isOperand_blank blank
  unfold isOperand at bare ⊢
  rw [List.any_append, bare, Bool.false_or]

theorem ofGap_append_blank {w : Text} (blank : ∀ c ∈ w, isBlank c) (start : Nat) (gap : Text) :
    ofGap start (w ++ gap) = ofGap (start + Text.byteLength w) gap := by
  unfold ofGap
  rw [isOperand_append_blank blank, List.takeWhile_append_of_pos blank,
    List.dropWhile_append_of_pos blank, Text.byteLength_append, Nat.add_assoc]

theorem ofScan_blank {w : Text} (blank : ∀ c ∈ w, isBlank c) (start : Nat) (named : Bool)
    (s : Scan) :
    ofScan start (.outside named) (s.prepend w) =
      ofScan (start + Text.byteLength w) (.outside named) s := by
  cases s with
  | last gap => exact ofGap_append_blank blank start gap
  | step gap op rest =>
    rw [Scan.prepend, ofScan, ofScan, ofGap_append_blank blank, isOperand_append_blank blank,
      Text.byteLength_append, ← Nat.add_assoc]

theorem map_token?_ofGap (start start' : Nat) (gap : Text) :
    (ofGap start gap).map token? = (ofGap start' gap).map token? := by
  unfold ofGap
  split_ifs <;> rfl

theorem map_token?_ofScan (s : Scan) (start start' : Nat) :
    (∀ named, (ofScan start (.outside named) s).map token? =
        (ofScan start' (.outside named) s).map token?) ∧
      ∀ opening opening' depth passed,
        (ofScan start (.inside opening depth passed) s).map token? =
          (ofScan start' (.inside opening' depth passed) s).map token? := by
  induction s generalizing start start' with
  | last gap => exact ⟨fun _ => map_token?_ofGap _ _ _, fun _ _ _ _ => rfl⟩
  | step gap op rest ih =>
    have ih := ih (start + Text.byteLength gap + Text.byteLength op.symbol)
      (start' + Text.byteLength gap + Text.byteLength op.symbol)
    constructor
    · intro named
      rw [ofScan, ofScan, List.map_append, List.map_append, map_token?_ofGap start start']
      congr 1
      split_ifs
      · exact ih.2 _ _ _ _
      · exact congrArg (some (.operator op) :: ·) (ih.1 _)
    · intro opening opening' depth passed
      rw [ofScan, ofScan]
      split_ifs
      · rw [List.map_cons, List.map_cons, ih.1]
        rfl
      · exact ih.2 _ _ _ _

end Lexeme

namespace Formula

section Places

variable (index index' : Nat)

theorem toOption_combine (op : Operator) (grouped : Bool) (operands : List Formula) :
    (combine index op grouped operands).toOption =
      (combine index' op grouped operands).toOption := by
  match operands with
  | [] => rfl
  | [right] => rfl
  | right :: left :: rest => rfl

theorem toOption_reduceWhile (p : Frame → Bool) (frames : List Frame) (operands : List Formula) :
    (reduceWhile index p frames operands).toOption =
      (reduceWhile index' p frames operands).toOption := by
  induction frames generalizing operands with
  | nil => rfl
  | cons frame frames ih =>
    rw [reduceWhile, reduceWhile]
    split_ifs
    · exact toOption_bind (toOption_combine index index' _ _ _) ih
    · rfl

namespace Stacks

theorem toOption_close (s : Stacks) : (s.close index).toOption = (s.close index').toOption := by
  apply toOption_bind (toOption_reduceWhile index index' _ _ _)
  rintro ⟨operands, frames⟩
  match frames, operands with
  | [], _ => rfl
  | ⟨op, none⟩ :: frames, operands => rfl
  | ⟨op, some sign⟩ :: frames, [] => rfl
  | ⟨op, some sign⟩ :: frames, inner :: rest => rfl

theorem toOption_pushOperator (op : Operator) (s : Stacks) :
    (s.pushOperator index op).toOption = (s.pushOperator index' op).toOption :=
  toOption_bind (toOption_reduceWhile index index' _ _ _) fun _ => rfl

theorem toOption_finish (s : Stacks) : (s.finish index).toOption = (s.finish index').toOption := by
  apply toOption_bind (toOption_reduceWhile index index' _ _ _)
  rintro ⟨operands, frames⟩
  match operands with
  | [] => rfl
  | [root] => rfl
  | f :: g :: operands => rfl

variable {index index'}

theorem toOption_readOperator {op : Operator} (unsigned : op.isUnary → index ≠ 0)
    (unsigned' : op.isUnary → index' ≠ 0) (s : Stacks) :
    (s.readOperator index op).toOption = (s.readOperator index' op).toOption := by
  unfold readOperator
  simp only [isSign_eq_false unsigned, isSign_eq_false unsigned', Bool.false_eq_true, if_false]
  split_ifs
  · rfl
  · rfl
  · exact toOption_close index index' s
  · exact toOption_pushOperator index index' op s

theorem toOption_read {l l' : Lexeme} (same : l.token? = l'.token?) (unsigned : Unsigned [l])
    (unsigned' : Unsigned [l']) (s : Stacks) : (s.read l).toOption = (s.read l').toOption := by
  cases l with
  | operand start t =>
    obtain ⟨start', t', rfl, trimmed⟩ := Lexeme.eq_operand_of_token? same.symm
    rw [read, read, readOperand, readOperand, trimmed]
    split_ifs <;> rfl
  | operator start op =>
    obtain ⟨start', rfl⟩ := Lexeme.eq_operator_of_token? same.symm
    exact toOption_readOperator (unsigned start op List.mem_cons_self)
      (unsigned' start' op List.mem_cons_self) s
  | arguments opening closing a =>
    obtain ⟨opening', closing', rfl⟩ := Lexeme.eq_arguments_of_token? same.symm
    rw [read, read, readArguments, readArguments]
    split
    · split <;> rfl
    · rfl
  | unclosed opening =>
    cases l' with
    | unclosed opening' => rfl
    | _ => cases same

theorem toOption_run {ls ls' : List Lexeme} (same : ls.map Lexeme.token? = ls'.map Lexeme.token?)
    (unsigned : Unsigned ls) (unsigned' : Unsigned ls') (s : Stacks) :
    (ls.foldlM read s).toOption = (ls'.foldlM read s).toOption := by
  induction ls generalizing ls' s with
  | nil =>
    obtain rfl := List.map_eq_nil_iff.mp same.symm
    rfl
  | cons l ls ih =>
    obtain ⟨l', ls', rfl, first, rest⟩ := List.map_eq_cons_iff.mp same.symm
    obtain ⟨unsignedFirst, unsignedRest⟩ := Unsigned.cons.mp unsigned
    obtain ⟨unsignedFirst', unsignedRest'⟩ := Unsigned.cons.mp unsigned'
    rw [List.foldlM_cons, List.foldlM_cons]
    apply toOption_bind (toOption_read first.symm unsignedFirst unsignedFirst' s)
    intro s'
    exact ih rest.symm unsignedRest unsignedRest' s'

end Stacks

end Places

theorem toOption_ofText_blank {w a : Text} (blank : ∀ c ∈ w, isBlank c)
    (unsigned : w ≠ [] → ∀ op, Operator.at? [] a = some op → op.isUnary = false) :
    (ofText (w ++ a)).toOption = (ofText a).toOption := by
  by_cases bare : w = []
  · rw [bare, List.nil_append]
  have lexemes : Lexeme.ofText (w ++ a) =
      Lexeme.ofScan (0 + Text.byteLength w) (.outside false) (Scan.ofText a) := by
    rw [Lexeme.ofText, Scan.ofText_blank blank, Lexeme.ofScan_blank blank]
  have same : (Lexeme.ofText (w ++ a)).map Lexeme.token? = (Lexeme.ofText a).map Lexeme.token? := by
    rw [lexemes]
    exact (Lexeme.map_token?_ofScan _ _ _).1 false
  have plain : Unsigned (Lexeme.ofText a) := by
    rintro start op mem unary rfl
    have sign := unsigned bare op (Lexeme.operator_zero_mem_iff.mp mem)
    cases unary.symm.trans sign
  -- Nothing starts at byte 0 but the blanks.
  have plain' : Unsigned (Lexeme.ofText (w ++ a)) := by
    intro start op mem _ first
    rw [lexemes] at mem
    have later := Lexeme.le_of_operator_mem mem
    exact bare (Text.eq_nil_of_byteLength (by omega))
  apply toOption_bind (Stacks.toOption_run same plain' plain Stacks.empty)
  exact Stacks.toOption_finish _ _

end Formula

def Issue.topic (issue : Issue) : IssueKind × Text :=
  (issue.kind, issue.subject)

namespace Script

/-- Scripts of the same tokens, with issues about the same texts. -/
def Agrees (s s' : Script) : Prop :=
  s.tokens = s'.tokens ∧ s.issues.map Issue.topic = s'.issues.map Issue.topic

theorem Agrees.refl (s : Script) : Agrees s s :=
  ⟨rfl, rfl⟩

theorem Agrees.separate {ss ss' : List Script} (h : List.Forall₂ Agrees ss ss') :
    Agrees (separate ss) (separate ss') := by
  induction h with
  | nil => exact .refl _
  | @cons s s' ss ss' first rest ih =>
    have next : beforeNext ss = beforeNext ss' := by
      funext tokens
      cases rest <;> rfl
    rw [separate_cons, separate_cons, next]
    constructor
    · rw [first.1, ih.1]
    · rw [List.map_append, List.map_append, first.2, ih.2]

theorem nested_blank {w a : Text} (blank : ∀ c ∈ w, isBlank c)
    (unsigned : w ≠ [] → ∀ op, Operator.at? [] a = some op → op.isUnary = false) :
    Agrees (nested (w ++ a)) (nested a) := by
  have same := Formula.toOption_ofText_blank blank unsigned
  cases padded : Formula.ofText (w ++ a) with
  | ok f =>
    cases plain : Formula.ofText a with
    | ok g =>
      rw [padded, plain] at same
      obtain rfl := Option.some.inj same
      rw [nested_of_ok padded, nested_of_ok plain]
      exact .refl _
    | error e =>
      rw [padded, plain] at same
      cases same
  | error e =>
    cases plain : Formula.ofText a with
    | ok g =>
      rw [padded, plain] at same
      cases same
    | error e' =>
      have trimmed := Text.trim_append_left (Text.isWhiteSpace_of_blank blank) a
      rw [nested_of_error padded, nested_of_error plain]
      refine ⟨rfl, ?_⟩
      simp [placeholder, Issue.topic, trimmed]

end Script

namespace Arguments

structure Bare (a : Text) : Prop extends Whole a where
  start : ∀ c ∈ a.head?, isWhiteSpace c = false ∧ c ≠ '\x22'

variable {w a : Text}

theorem Bare.padded (bare : Bare a) (blank : ∀ c ∈ w, isBlank c) : Whole (w ++ a) := by
  induction w with
  | nil => exact bare.toWhole
  | cons c w ih =>
    obtain ⟨hc, rest⟩ := List.forall_mem_cons.mp blank
    have tail := ih rest
    have plain : c ≠ '(' ∧ c ≠ ')' := by
      constructor <;> rintro rfl <;> cases hc
    refine ⟨List.cons_ne_nil _ _, ?_, ?_⟩
    · rw [Text.balanced_iff, List.cons_append, Text.balances, if_neg plain.1, if_neg plain.2]
      exact Text.balanced_iff.mp tail.balanced
    · intro l r hl
      cases l with
      | nil =>
        cases hl
        cases hc
      | cons d l =>
        rw [List.cons_append, List.cons_append, List.cons.injEq] at hl
        obtain ⟨rfl, hl⟩ := hl
        simpa [List.count_cons, plain.1, plain.2] using tail.sheltered l r hl

theorem Bare.isQuoted_padded (bare : Bare a) (blank : ∀ c ∈ w, isBlank c) :
    (w ++ a).isQuoted = false := by
  have unquoted : (w ++ a).head? ≠ some '\x22' := by
    intro mark
    cases w with
    | nil => exact (bare.start '\x22' mark).2 rfl
    | cons c w =>
      obtain rfl : c = '\x22' := Option.some.inj mark
      cases blank _ List.mem_cons_self
  rw [Text.isQuoted, beq_eq_false_iff_ne.mpr unquoted, Bool.false_and]

end Arguments

namespace Script

theorem argument_padded {function w a : Text} (spelled : takesDiceLiterals function = false)
    (bare : Arguments.Bare a) (blank : ∀ c ∈ w, isBlank c) (position : Nat) :
    argument nested function position (w ++ a) = nested (w ++ a) := by
  apply argument_of_read
  rw [copied?, spelled, bare.isQuoted_padded blank]
  rfl

theorem argumentsFrom_padded {function : Text} (spelled : takesDiceLiterals function = false)
    {args : List (Text × Text)} (bare : ∀ arg ∈ args, Arguments.Bare arg.2)
    (blank : ∀ arg ∈ args, ∀ c ∈ arg.1, isBlank c)
    (unsigned : ∀ arg ∈ args, arg.1 ≠ [] → ∀ op, Operator.at? [] arg.2 = some op →
      op.isUnary = false) (position : Nat) :
    List.Forall₂ Agrees
      (argumentsFrom nested function position (args.map fun arg => arg.1 ++ arg.2))
      (argumentsFrom nested function position (args.map (·.2))) := by
  induction args generalizing position with
  | nil => exact .nil
  | cons arg args ih =>
    obtain ⟨bareFirst, bareRest⟩ := List.forall_mem_cons.mp bare
    obtain ⟨blankFirst, blankRest⟩ := List.forall_mem_cons.mp blank
    obtain ⟨unsignedFirst, unsignedRest⟩ := List.forall_mem_cons.mp unsigned
    have alone := argument_padded (w := []) spelled bareFirst (by simp) position
    rw [List.nil_append] at alone
    rw [List.map_cons, List.map_cons, argumentsFrom, argumentsFrom, alone,
      argument_padded spelled bareFirst blankFirst]
    exact .cons (nested_blank blankFirst unsignedFirst) (ih bareRest blankRest unsignedRest _)

end Script

namespace Formula

/-- Blanks in front of the arguments of a call, where no sign follows them, change neither what is
written for it nor which texts have issues. -/
theorem convert?_padded {name function : Text} (h : scriptCall? name = some function)
    (spelled : takesDiceLiterals function = false) {args : List (Text × Text)}
    (bare : ∀ arg ∈ args, Arguments.Bare arg.2) (blank : ∀ arg ∈ args, ∀ c ∈ arg.1, isBlank c)
    (unsigned : ∀ arg ∈ args, arg.1 ≠ [] → ∀ op, Operator.at? [] arg.2 = some op →
      op.isUnary = false) :
    ∃ c c',
      convert? (Text.call name (Text.join [','] (args.map fun arg => arg.1 ++ arg.2))) = .ok c ∧
      convert? (Text.call name (Text.join [','] (args.map (·.2)))) = .ok c' ∧
      c.output = c'.output ∧ c.issues.map Issue.topic = c'.issues.map Issue.topic := by
  have padded : ∀ t ∈ args.map fun arg => arg.1 ++ arg.2, Arguments.Whole t := by
    rw [List.forall_mem_map]
    intro arg mem
    exact (bare arg mem).padded (blank arg mem)
  have plain : ∀ t ∈ args.map (·.2), Arguments.Whole t := by
    rw [List.forall_mem_map]
    intro arg mem
    exact (bare arg mem).toWhole
  have agrees := Script.Agrees.separate (Script.argumentsFrom_padded spelled bare blank unsigned 0)
  refine ⟨_, _, convert?_call h padded rfl, convert?_call h plain rfl, ?_⟩
  exact ⟨by rw [agrees.1], agrees.2⟩

theorem convert?_padded_rejected :
    ∃ c c', convert? "max( 1+2,\t(b, c),\n\r foo((-1)))".toList = .ok c ∧
      convert? "max(1+2,(b, c),foo((-1)))".toList = .ok c' ∧
      c.output = c'.output ∧ c.issues.map Issue.topic = c'.issues.map Issue.topic := by
  have whole {t : Text} (single : Arguments.ofText t = [t]) (matching : t.balances 0) :
      Arguments.Whole t := by
    obtain ⟨filled, sheltered⟩ := Arguments.ofText_eq_singleton_iff.mp single
    exact ⟨filled, Text.balanced_iff.mpr matching, sheltered⟩
  have sum : Arguments.Bare "1+2".toList := ⟨whole rfl rfl, by rintro c ⟨⟩; decide⟩
  have group : Arguments.Bare "(b, c)".toList := ⟨whole rfl rfl, by rintro c ⟨⟩; decide⟩
  have call : Arguments.Bare "foo((-1))".toList := ⟨whole rfl rfl, by rintro c ⟨⟩; decide⟩
  have bare : ∀ arg ∈ [(" ".toList, "1+2".toList), ("\t".toList, "(b, c)".toList),
      ("\n\r ".toList, "foo((-1))".toList)], Arguments.Bare arg.2 := by
    simp only [List.forall_mem_cons]
    exact ⟨sum, group, call, by simp⟩
  have blank : ∀ arg ∈ [(" ".toList, "1+2".toList), ("\t".toList, "(b, c)".toList),
      ("\n\r ".toList, "foo((-1))".toList)], ∀ c ∈ arg.1, isBlank c := by
    simp [isBlank]
  apply @convert?_padded "max".toList _ rfl rfl _ bare blank
  simp only [List.forall_mem_cons]
  refine ⟨?_, ?_, ?_, by simp⟩
  · rintro - op ⟨⟩
  · rintro - op ⟨⟩
    rfl
  · rintro - op ⟨⟩

theorem convert?_padded_sign :
    convert? (Text.call "max".toList (Text.join [','] ["1".toList, " -2".toList])) =
        .ok ⟨"Math.max(1, 2)".toList, []⟩ ∧
      convert? (Text.call "max".toList (Text.join [','] ["1".toList, "-2".toList])) =
        .ok ⟨"Math.max(1, -2)".toList, []⟩ :=
  ⟨rfl, rfl⟩

end Formula

end FormulaMigration
