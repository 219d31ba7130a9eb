import FormulaMigration.Proofs.ClosingParenthesis

namespace FormulaMigration

namespace FormulaError

def index? : FormulaError → Option Nat
  | emptyOperand index | consecutiveUnary index | unmatchedClose index | callNotClosed index
  | unexpectedState index => some index
  | undefinedFunction _ => none

end FormulaError

namespace Operator

theorem next?_of_at? {l t : Text} {op : Operator} (h : at? l.reverse t = some op) :
    next? (l ++ t) (Text.byteLength l) = some (Text.byteLength l, op) := by
  have stands : at? (([] : Text).reverse ++ l.reverse) t = some op := h
  have first := nextFrom_absent (Text.byteLength l) (absentFrom_nil l.reverse t) stands
  rwa [List.nil_append, Text.byteLength, Nat.add_zero, ← next?_append] at first

theorem at?_of_next? {l t : Text} {op : Operator}
    (h : next? (l ++ t) (Text.byteLength l) = some (Text.byteLength l, op)) :
    at? l.reverse t = some op := by
  rw [next?_append] at h
  rcases exists_first l.reverse t with absent | ⟨gap, op', rest, rfl, absent, first⟩
  · rw [(nextFrom_eq_none_iff _).mpr absent] at h
    cases h
  · rw [nextFrom_absent _ absent first] at h
    obtain ⟨place, rfl⟩ := Prod.mk.inj (Option.some.inj h)
    -- The operator that stands first stands here, since nothing is passed before it.
    have none : gap = [] := by
      cases gap with
      | nil => rfl
      | cons c gap =>
        have := c.utf8Size_pos
        rw [Text.byteLength] at place
        omega
    rw [none] at first ⊢
    exact first

end Operator

namespace Text

structure Stretch (t : Text) (i : Nat) (gap : Text) : Prop where
  split : ∃ l rest, t = l ++ (gap ++ rest) ∧ byteLength l = i ∧
    (rest = [] ∧ Operator.next? t i = none ∨
      ∃ op, Operator.next? t i = some (i + byteLength gap, op))
  first : ∃ c ∈ gap.head?, isBlank c = false

end Text

namespace Lexeme

def places : Lexeme → List Nat
  | operand start _ | operator start _ | unclosed start => [start]
  | arguments opening closing _ => [opening, closing]

theorem eq_of_mem_ofGap {l : Lexeme} {start : Nat} {gap : Text} (h : l ∈ ofGap start gap) :
    isOperand gap ∧ l = operand (start + Text.byteLength (gap.takeWhile isBlank))
      (gap.dropWhile isBlank) := by
  unfold ofGap at h
  split_ifs at h with filled
  · exact ⟨filled, List.mem_singleton.mp h⟩
  · cases h

theorem head?_dropWhile_isBlank {gap : Text} (h : isOperand gap) :
    ∃ c ∈ (gap.dropWhile isBlank).head?, isBlank c = false := by
  cases hd : gap.dropWhile isBlank with
  | nil =>
    rw [List.dropWhile_eq_nil_iff] at hd
    obtain ⟨c, hc, other⟩ := List.any_eq_true.mp h
    simp [hd c hc] at other
  | cons c rest =>
    have stops := List.head?_dropWhile_not isBlank gap
    rw [hd] at stops
    exact ⟨c, rfl, stops⟩

theorem place_of_mem_ofGap {l : Lexeme} {start i : Nat} {gap : Text} (h : l ∈ ofGap start gap)
    (hi : i ∈ l.places) : start ≤ i ∧ i < start + Text.byteLength gap := by
  obtain ⟨filled, rfl⟩ := eq_of_mem_ofGap h
  obtain rfl := List.mem_singleton.mp hi
  have whole := congrArg Text.byteLength (List.takeWhile_append_dropWhile (p := isBlank) (l := gap))
  rw [Text.byteLength_append] at whole
  obtain ⟨c, first, -⟩ := head?_dropWhile_isBlank filled
  obtain ⟨rest, shape⟩ := List.head?_eq_some_iff.mp first
  have := c.utf8Size_pos
  rw [shape, Text.byteLength] at whole
  omega

end Lexeme

theorem Lexes.place_bounds {named : Bool} {before t : Text} {start i : Nat} {ls : List Lexeme}
    {l : Lexeme} (h : Lexes named before start t ls) (mem : l ∈ ls) (hi : i ∈ l.places) :
    start ≤ i ∧ i < start + Text.byteLength t := by
  induction h with
  | last absent => exact Lexeme.place_of_mem_ofGap mem hi
  | @operator named before gap rest start op ls absent first uncalled tail ih =>
    have symbol := op.byteLength_symbol_pos
    rw [Text.byteLength_append, Text.byteLength_append]
    rcases List.mem_append.mp mem with mem | mem
    · have := Lexeme.place_of_mem_ofGap mem hi
      omega
    rcases List.mem_cons.mp mem with rfl | mem
    · obtain rfl := List.mem_singleton.mp hi
      omega
    · have := ih mem
      omega
  | @call named before gap a rest start ls absent called matching tail ih =>
    rw [Text.byteLength_append, Text.byteLength_call]
    rcases List.mem_append.mp mem with mem | mem
    · have := Lexeme.place_of_mem_ofGap mem hi
      omega
    rcases List.mem_cons.mp mem with rfl | mem
    · rcases List.mem_pair.mp hi with rfl | rfl <;> omega
    · have := ih mem
      omega
  | @unclosed named before gap rest start absent called never =>
    have opening : Text.byteLength ('(' :: rest) = 1 + Text.byteLength rest := rfl
    rw [Text.byteLength_append, opening]
    rcases List.mem_append.mp mem with mem | mem
    · have := Lexeme.place_of_mem_ofGap mem hi
      omega
    · obtain rfl := List.mem_singleton.mp mem
      obtain rfl := List.mem_singleton.mp hi
      omega

theorem Lexes.exists_of_operand {named : Bool} {before t gap : Text} {start i : Nat}
    {ls : List Lexeme} (h : Lexes named before start t ls) (mem : .operand i gap ∈ ls) :
    ∃ l rest, t = l ++ (gap ++ rest) ∧ start + Text.byteLength l = i ∧
      (∃ c ∈ gap.head?, isBlank c = false) ∧
      Operator.AbsentFrom (l.reverse ++ before) gap rest ∧
      (rest = [] ∨ ∃ op, Operator.at? (gap.reverse ++ (l.reverse ++ before)) rest = some op) := by
  have inGap {before gap' rest : Text} {start : Nat} (absent : Operator.AbsentFrom before gap' rest)
      (stops : rest = [] ∨ ∃ op, Operator.at? (gap'.reverse ++ before) rest = some op)
      (mem : .operand i gap ∈ Lexeme.ofGap start gap') :
      ∃ l, gap' = l ++ gap ∧ start + Text.byteLength l = i ∧
        (∃ c ∈ gap.head?, isBlank c = false) ∧
        Operator.AbsentFrom (l.reverse ++ before) gap rest ∧
        (rest = [] ∨ ∃ op, Operator.at? (gap.reverse ++ (l.reverse ++ before)) rest = some op) := by
    obtain ⟨filled, same⟩ := Lexeme.eq_of_mem_ofGap mem
    obtain ⟨rfl, rfl⟩ := Lexeme.operand.inj same
    have whole := List.takeWhile_append_dropWhile (p := isBlank) (l := gap')
    refine ⟨gap'.takeWhile isBlank, whole.symm, rfl, Lexeme.head?_dropWhile_isBlank filled, ?_, ?_⟩
    · rw [← whole] at absent
      exact (Operator.absentFrom_append.mp absent).2
    · rwa [← List.append_assoc, ← List.reverse_append, whole]
  induction h with
  | last absent =>
    obtain ⟨l, rfl, place, first, absent, stops⟩ := inGap absent (.inl rfl) mem
    exact ⟨l, [], by simp, place, first, absent, stops⟩
  | @operator named before gap' rest start op ls absent stands uncalled tail ih =>
    rcases List.mem_append.mp mem with mem | mem
    · obtain ⟨l, rfl, place, first, absent, stops⟩ := inGap absent (.inr ⟨op, stands⟩) mem
      exact ⟨l, _, List.append_assoc _ _ _, place, first, absent, stops⟩
    · obtain ⟨l, rest', rfl, place, first, absent', stops⟩ := ih (by simpa using mem)
      refine ⟨gap' ++ (op.symbol ++ l), rest', by simp, ?_, first, by simpa using absent',
        by simpa using stops⟩
      rw [Text.byteLength_append, Text.byteLength_append]
      omega
  | @call named before gap' a rest start ls absent called matching tail ih =>
    rcases List.mem_append.mp mem with mem | mem
    · obtain ⟨l, rfl, place, first, absent, stops⟩ :=
        inGap absent (.inr ⟨.openGroup, Operator.at?_open _ _⟩) mem
      exact ⟨l, _, List.append_assoc _ _ _, place, first, absent, stops⟩
    · obtain ⟨l, rest', rfl, place, first, absent', stops⟩ := ih (by simpa using mem)
      refine ⟨gap' ++ '(' :: (a ++ ')' :: l), rest', by simp, ?_, first, by simpa using absent',
        by simpa using stops⟩
      rw [Text.byteLength_append, Text.byteLength_call]
      omega
  | @unclosed named before gap' rest start absent called never =>
    rcases List.mem_append.mp mem with mem | mem
    · obtain ⟨l, rfl, place, first, absent, stops⟩ :=
        inGap absent (.inr ⟨.openGroup, Operator.at?_open _ _⟩) mem
      exact ⟨l, _, List.append_assoc _ _ _, place, first, absent, stops⟩
    · simp at mem

theorem Lexeme.stretch_of_operand {t gap : Text} {i : Nat} (mem : .operand i gap ∈ ofText t) :
    t.Stretch i gap := by
  obtain ⟨l, rest, rfl, place, first, absent, stops⟩ :=
    (lexes_ofText_iff.mpr rfl).exists_of_operand mem
  rw [Nat.zero_add] at place
  subst place
  rw [List.append_nil] at absent stops
  refine ⟨⟨l, rest, rfl, rfl, ?_⟩, first⟩
  rcases stops with rfl | ⟨op, stands⟩
  · refine .inl ⟨rfl, ?_⟩
    rw [Operator.next?_append, List.append_nil]
    exact (Operator.nextFrom_eq_none_iff _).mpr absent
  · refine .inr ⟨op, ?_⟩
    rw [Operator.next?_append]
    exact Operator.nextFrom_absent _ absent stands

theorem Lexes.of_operator_start {named : Bool} {before t : Text} {start : Nat} {op : Operator}
    {ls : List Lexeme} (h : Lexes named before start t ls) (mem : .operator start op ∈ ls) :
    ∃ named' rest ls', t = op.symbol ++ rest ∧ Operator.at? before t = some op ∧
      ls = .operator start op :: ls' ∧
      Lexes named' (op.symbol.reverse ++ before) (start + Text.byteLength op.symbol) rest ls' := by
  cases h with
  | last absent => exact absurd mem Lexeme.operator_notMem_ofGap
  | @operator _ _ gap rest _ op' ls absent first uncalled tail =>
    rcases List.mem_append.mp mem with mem | mem
    · exact absurd mem Lexeme.operator_notMem_ofGap
    rcases List.mem_cons.mp mem with same | mem
    · obtain ⟨place, rfl⟩ := Lexeme.operator.inj same
      have none : gap = [] := by
        rw [← List.length_eq_zero_iff]
        have := gap.length_le_byteLength
        omega
      subst none
      exact ⟨_, rest, ls, rfl, first, rfl, tail⟩
    · have := (tail.place_bounds mem (List.mem_singleton_self start)).1
      have := op'.byteLength_symbol_pos
      omega
  | call absent called matching tail =>
    rcases List.mem_append.mp mem with mem | mem
    · exact absurd mem Lexeme.operator_notMem_ofGap
    rcases List.mem_cons.mp mem with same | mem
    · cases same
    · have := (tail.place_bounds mem (List.mem_singleton_self start)).1
      omega
  | unclosed absent called never =>
    rcases List.mem_append.mp mem with mem | mem
    · exact absurd mem Lexeme.operator_notMem_ofGap
    · cases List.mem_singleton.mp mem

theorem Lexeme.ofGap_append_eq_operator {start i : Nat} {gap : Text} {op : Operator} {l : Lexeme}
    {ls ls' : List Lexeme} (h : ofGap start gap ++ l :: ls = .operator i op :: ls') :
    (∀ c ∈ gap, isBlank c) ∧ l = .operator i op := by
  unfold ofGap at h
  split_ifs at h with filled
  · cases (List.cons.inj h).1
  · refine ⟨fun c hc => ?_, (List.cons.inj h).1⟩
    by_contra other
    exact filled (List.any_eq_true.mpr ⟨c, hc, by simpa using other⟩)

theorem Lexes.of_operator_first {named : Bool} {before t : Text} {start i : Nat} {op : Operator}
    {ls : List Lexeme} (h : Lexes named before start t (.operator i op :: ls)) :
    ∃ blanks rest, t = blanks ++ (op.symbol ++ rest) ∧ (∀ c ∈ blanks, isBlank c) ∧
      start + Text.byteLength blanks = i ∧
      Operator.at? (blanks.reverse ++ before) (op.symbol ++ rest) = some op := by
  generalize shape : Lexeme.operator i op :: ls = ls' at h
  cases h with
  | last absent =>
    have mem : .operator i op ∈ Lexeme.ofGap start t := by simp [← shape]
    exact absurd mem Lexeme.operator_notMem_ofGap
  | @operator _ _ gap rest _ op' ls absent first uncalled tail =>
    obtain ⟨blanks, same⟩ := Lexeme.ofGap_append_eq_operator shape.symm
    obtain ⟨rfl, rfl⟩ := Lexeme.operator.inj same
    exact ⟨gap, rest, rfl, blanks, rfl, first⟩
  | call absent called matching tail =>
    cases (Lexeme.ofGap_append_eq_operator shape.symm).2
  | unclosed absent called never =>
    cases (Lexeme.ofGap_append_eq_operator shape.symm).2

namespace Formula

variable {t : Text} {i : Nat} {e : FormulaError}

namespace Stacks

variable {l : Lexeme} {s s' : Stacks} {P : Formula → Prop}

theorem Refuses.index_mem (h : s.Refuses l e) (hi : e.index? = some i) : i ∈ l.places := by
  cases h <;> simp_all [FormulaError.index?, Lexeme.places]

theorem sign_of_read (h : s.read l = .ok s') (signed : s'.sign.isSome) :
    ∃ op, l = .operator 0 op ∧ op.isUnary := by
  cases l with
  | operand start t =>
    obtain ⟨-, rfl⟩ := readOperand_ok h
    cases signed
  | operator start op =>
    cases readOperator_ok h with
    | sign unary first free => exact ⟨op, by rw [first], unary⟩
    | opens group => cases signed
    | closes group closed =>
      rw [(close_frames closed).2] at signed
      cases signed
    | joins opens closes later pushed =>
      rw [(pushOperator_frames pushed).2] at signed
      cases signed
  | arguments opening closing a =>
    obtain ⟨name, sign, rest, function, -, -, rfl⟩ := readArguments_ok h
    cases signed
  | unclosed opening => cases h

theorem reduceWhile_forall
    (node : ∀ left right op sign grouped, P (.node left right op sign grouped)) {index : Nat}
    {q : Frame → Bool} {frames frames' : List Frame} {operands operands' : List Formula}
    (h : reduceWhile index q frames operands = .ok (operands', frames'))
    (all : ∀ f ∈ operands, P f) : ∀ f ∈ operands', P f := by
  induction frames generalizing operands with
  | nil =>
    cases h
    exact all
  | cons frame frames ih =>
    rw [reduceWhile] at h
    split_ifs at h with folds
    · obtain ⟨folded, combined, rest⟩ := exists_of_bind_eq_ok h
      apply ih rest
      rcases operands with _ | ⟨right, _ | ⟨left, others⟩⟩
      · cases combined
      · obtain rfl := Except.ok.inj combined
        exact List.forall_mem_singleton.mpr (node _ _ _ _ _)
      · obtain rfl := Except.ok.inj combined
        obtain ⟨-, all⟩ := List.forall_mem_cons.mp all
        exact List.forall_mem_cons.mpr ⟨node _ _ _ _ _, (List.forall_mem_cons.mp all).2⟩
    · cases h
      exact all

theorem read_forall (node : ∀ left right op sign grouped, P (.node left right op sign grouped))
    (call : ∀ function a sign, P (.call function a sign)) (h : s.read l = .ok s')
    (operand : ∀ start gap sign, l = .operand start gap → gap.trim ≠ [] → P (.operand gap.trim sign))
    (all : ∀ f ∈ s.operands, P f) : ∀ f ∈ s'.operands, P f := by
  cases l with
  | operand start gap =>
    obtain ⟨filled, rfl⟩ := readOperand_ok h
    exact List.forall_mem_cons.mpr ⟨operand start gap s.sign rfl filled, all⟩
  | operator start op =>
    cases readOperator_ok h with
    | sign unary first free => exact all
    | opens group => exact all
    | closes group closed =>
      obtain ⟨operands, sign, frames, reduced, closed⟩ := close_ok closed
      have kept := reduceWhile_forall node reduced all
      rcases closed with ⟨-, rfl⟩ | ⟨op, inner, rest, -, rfl, rfl⟩
      · exact kept
      · exact List.forall_mem_cons.mpr ⟨node _ _ _ _ _, (List.forall_mem_cons.mp kept).2⟩
    | joins opens closes later pushed =>
      obtain ⟨operands, frames, reduced, rfl⟩ := pushOperator_ok pushed
      exact reduceWhile_forall node reduced all
  | arguments opening closing a =>
    obtain ⟨name, sign, rest, function, -, named, rfl⟩ := readArguments_ok h
    rw [named] at all
    exact List.forall_mem_cons.mpr ⟨call _ _ _, (List.forall_mem_cons.mp all).2⟩
  | unclosed opening => cases h

end Stacks

theorem exists_of_error (h : ofText t = .error e) :
    (∃ before l after s, Lexeme.ofText t = before ++ l :: after ∧
      before.foldlM Stacks.read Stacks.empty = .ok s ∧ s.Refuses l e) ∨
        e = .unexpectedState (Text.byteLength t) := by
  rcases error_or_of_bind h with fails | ⟨s, -, fails⟩
  · obtain ⟨before, l, after, s, lexemes, run, refused⟩ := exists_of_foldlM_eq_error fails
    exact .inl ⟨before, l, after, s, lexemes, run, Stacks.refuses_of_read refused⟩
  · exact .inr (Stacks.finish_error fails)

theorem index_le (h : ofText t = .error e) (hi : e.index? = some i) : i ≤ Text.byteLength t := by
  rcases exists_of_error h with ⟨before, l, after, s, lexemes, -, refused⟩ | rfl
  · have mem : l ∈ Lexeme.ofText t := by simp [lexemes]
    have bounds := (lexes_ofText_iff.mpr rfl).place_bounds mem (refused.index_mem hi)
    omega
  · obtain rfl := Option.some.inj hi
    exact Nat.le_refl _

theorem stretch_of_emptyOperand (h : ofText t = .error (.emptyOperand i)) :
    ∃ gap, t.Stretch i gap ∧ ∀ c ∈ gap, isWhiteSpace c := by
  rcases exists_of_error h with ⟨before, l, after, s, lexemes, -, refused⟩ | other
  · cases refused with
    | @empty _ gap white =>
      refine ⟨gap, Lexeme.stretch_of_operand (by simp [lexemes]), ?_⟩
      obtain ⟨front, back, whole, hf, hb⟩ := gap.exists_trim
      rw [whole, white]
      exact fun c hc => (List.mem_append.mp hc).elim (hf c) (hb c)
  · cases other

theorem exists_of_callNotClosed (h : ofText t = .error (.callNotClosed i)) :
    ∃ l rest, t = l ++ '(' :: rest ∧ Text.byteLength l = i ∧
      ∀ s, s <+: rest → s.count ')' ≤ s.count '(' := by
  rcases exists_of_error h with ⟨before, lexeme, after, s, lexemes, -, refused⟩ | other
  · cases refused with
    | unclosed =>
      have mem : .unclosed i ∈ Lexeme.ofText t := by simp [lexemes]
      obtain ⟨l, rest, whole, place, same⟩ := (lexes_ofText_iff.mpr rfl).eq_ofParenthesis mem rfl
      refine ⟨l, rest, whole, by omega, ?_⟩
      unfold Lexeme.ofParenthesis at same
      split at same
      next => cases same
      next never => simpa using Text.untilClose_eq_none_iff.mp never
  · cases other

def Named (t name : Text) : Prop :=
  name ≠ [] ∧ ∃ i gap, .operand i gap ∈ Lexeme.ofText t ∧ gap.trim = name

theorem named_of_undefinedFunction {name : Text} (h : ofText t = .error (.undefinedFunction name)) :
    Named t name ∧ scriptCall? name = none := by
  rcases exists_of_error h with ⟨before, l, after, s, lexemes, run, refused⟩ | other
  · cases refused with
    | undefined named unknown =>
      have all : ∀ f ∈ s.operands, ∀ name sign, f = .operand name sign → Named t name := by
        refine foldlM_invariant (P := fun s : Stacks => ∀ f ∈ s.operands, ∀ name sign,
          f = .operand name sign → Named t name) ?_ run (by simp [Stacks.empty])
        intro l hl s s' read known
        refine Stacks.read_forall (by simp) (by simp) read ?_ known
        rintro start gap sign rfl filled name sign' same
        obtain ⟨rfl, -⟩ := Formula.operand.inj same
        exact ⟨filled, start, gap, by simp [lexemes, hl], rfl⟩
      rw [named] at all
      exact ⟨all _ List.mem_cons_self _ _ rfl, unknown⟩
  · cases other

theorem exists_ofText_signs {u u' : Operator} {blanks rest : Text} (blank : ∀ c ∈ blanks, isBlank c)
    (first : Operator.at? [] (u.symbol ++ (blanks ++ (u'.symbol ++ rest))) = some u)
    (second : Operator.at? (u.symbol ++ blanks).reverse (u'.symbol ++ rest) = some u')
    (unary : u.isUnary) (unary' : u'.isUnary) :
    ∃ ls, Lexeme.ofText (u.symbol ++ (blanks ++ (u'.symbol ++ rest))) =
      .operator 0 u :: .operator (Text.byteLength (u.symbol ++ blanks)) u' :: ls := by
  have opens {op : Operator} (unary : op.isUnary) : op ≠ .openGroup := by
    rintro rfl
    cases unary
  have bare : Lexeme.isOperand blanks = false := by simpa [Lexeme.isOperand] using blank
  have start := @Lexeme.ofScan_operator [] [] _ u false 0 (Operator.absentFrom_nil _ _) first
    fun same => absurd same (opens unary)
  rw [List.reverse_append] at second
  have next := @Lexeme.ofScan_operator u.symbol.reverse blanks rest u'
    (u = .closeGroup && (false || Lexeme.isOperand [])) (Text.byteLength u.symbol)
    (Operator.absentFrom_blank blank _ _) second fun same => absurd same (opens unary')
  have width : 0 + Text.byteLength [] + Text.byteLength u.symbol = Text.byteLength u.symbol := by
    simp [Text.byteLength]
  simp only [List.reverse_nil, List.nil_append, List.append_nil, width] at start
  have gapless : Lexeme.ofGap (Text.byteLength u.symbol) blanks = [] := by simp [Lexeme.ofGap, bare]
  rw [next, gapless, List.nil_append, ← Text.byteLength_append] at start
  exact ⟨_, start⟩

theorem exists_signs_of_consecutiveUnary (h : ofText t = .error (.consecutiveUnary i)) :
    ∃ u u' before after, u.isUnary ∧ u'.isUnary ∧
      Lexeme.ofText t = before ++ .operator 0 u :: .operator i u' :: after := by
  rcases exists_of_error h with ⟨before, l, after, s, lexemes, run, refused⟩ | other
  · cases refused with
    | @consecutive _ u' unary' signed =>
      rcases List.eq_nil_or_concat before with rfl | ⟨before, l, rfl⟩
      · cases run
        cases signed
      · rw [List.concat_eq_append] at run lexemes
        rw [List.foldlM_append] at run
        obtain ⟨s', -, read⟩ := exists_of_bind_eq_ok run
        rw [List.foldlM_cons] at read
        obtain ⟨s'', read, done⟩ := exists_of_bind_eq_ok read
        cases done
        obtain ⟨u, rfl, unary⟩ := Stacks.sign_of_read read signed
        exact ⟨u, u', before, after, unary, unary', by simpa using lexemes⟩
  · cases other

theorem exists_of_ofText_operators {u u' : Operator} {before after : List Lexeme}
    (h : Lexeme.ofText t = before ++ .operator 0 u :: .operator i u' :: after) :
    ∃ blanks rest, t = u.symbol ++ (blanks ++ rest) ∧ Text.byteLength (u.symbol ++ blanks) = i ∧
      (∀ c ∈ blanks, isBlank c) ∧ Operator.next? t 0 = some (0, u) ∧
      Operator.next? t i = some (i, u') := by
  have mem : .operator 0 u ∈ Lexeme.ofText t := by simp [h]
  obtain ⟨named, rest, ls, whole, first, shape, tail⟩ :=
    (lexes_ofText_iff.mpr rfl).of_operator_start mem
  rw [shape] at h
  -- The first operator is the first lexeme, since all others stand behind its symbol.
  cases before with
  | cons l before =>
    have again : .operator 0 u ∈ ls := by simp [(List.cons.inj h).2]
    have bounds := tail.place_bounds again (List.mem_singleton_self 0)
    have := u.byteLength_symbol_pos
    omega
  | nil =>
    obtain ⟨-, rfl⟩ := List.cons.inj h
    obtain ⟨blanks, rest, rfl, blank, place, second⟩ := tail.of_operator_first
    rw [List.append_nil, ← List.reverse_append] at second
    rw [Nat.zero_add, ← Text.byteLength_append] at place
    subst place
    refine ⟨blanks, u'.symbol ++ rest, whole, rfl, blank, ?_, ?_⟩
    · exact Operator.next?_of_at? (l := []) first
    · rw [whole, ← List.append_assoc]
      exact Operator.next?_of_at? second

theorem consecutiveUnary_iff :
    ofText t = .error (.consecutiveUnary i) ↔ ∃ u u' blanks rest,
      t = u.symbol ++ (blanks ++ rest) ∧ Text.byteLength (u.symbol ++ blanks) = i ∧
      (∀ c ∈ blanks, isBlank c) ∧ Operator.next? t 0 = some (0, u) ∧ u.isUnary ∧
      Operator.next? t i = some (i, u') ∧ u'.isUnary := by
  constructor
  · intro h
    obtain ⟨u, u', before, after, unary, unary', lexemes⟩ := exists_signs_of_consecutiveUnary h
    obtain ⟨blanks, rest, whole, place, blank, first, second⟩ := exists_of_ofText_operators lexemes
    exact ⟨u, u', blanks, rest, whole, place, blank, first, unary, second, unary'⟩
  · rintro ⟨u, u', blanks, rest, rfl, rfl, blank, first, unary, second, unary'⟩
    have first := Operator.at?_of_next? (l := []) first
    rw [← List.append_assoc] at second
    have second := Operator.at?_of_next? second
    obtain ⟨rest, rfl⟩ := Operator.exists_of_at? second
    obtain ⟨ls, lexemes⟩ := exists_ofText_signs blank first second unary unary'
    have refused (start : Nat) : Stacks.read ⟨[], [], some u⟩ (.operator start u') =
        .error (.consecutiveUnary start) := by
      simp [Stacks.read, Stacks.readOperator, unary']
    rw [ofText, lexemes, List.foldlM_cons, read_sign unary]
    change (List.foldlM Stacks.read _ _ >>= _) = _
    rw [List.foldlM_cons, refused]
    rfl

structure ErrorsTold (t : Text) : Prop where
  consecutive : ∀ i, ofText t = .error (.consecutiveUnary i) ↔ ∃ u u' blanks rest,
    t = u.symbol ++ (blanks ++ rest) ∧ Text.byteLength (u.symbol ++ blanks) = i ∧
    (∀ c ∈ blanks, isBlank c) ∧ Operator.next? t 0 = some (0, u) ∧ u.isUnary ∧
    Operator.next? t i = some (i, u') ∧ u'.isUnary
  empty : ∀ i, ofText t = .error (.emptyOperand i) →
    ∃ gap, t.Stretch i gap ∧ ∀ c ∈ gap, isWhiteSpace c
  unclosed : ∀ i, ofText t = .error (.callNotClosed i) → ∃ l rest, t = l ++ '(' :: rest ∧
    Text.byteLength l = i ∧ ∀ s, s <+: rest → s.count ')' ≤ s.count '('
  undefined : ∀ name, ofText t = .error (.undefinedFunction name) →
    name ≠ [] ∧ name.trim = name ∧
    (∃ i gap, .operand i gap ∈ Lexeme.ofText t ∧ t.Stretch i gap ∧ gap.trim = name) ∧
    ∀ row ∈ functionTable, row.1 ≠ name
  bounded : ∀ e i, ofText t = .error e → e.index? = some i → i ≤ Text.byteLength t

/-- Each error of a text is about a fault that the text has, where the error says. -/
theorem errors_told (t : Text) : ErrorsTold t where
  consecutive _ := consecutiveUnary_iff
  empty _ := stretch_of_emptyOperand
  unclosed _ := exists_of_callNotClosed
  undefined := by
    intro name h
    obtain ⟨⟨filled, i, gap, mem, rfl⟩, unknown⟩ := named_of_undefinedFunction h
    refine ⟨filled, gap.trim_trim, ⟨i, gap, mem, Lexeme.stretch_of_operand mem, rfl⟩, ?_⟩
    intro row known same
    have other := List.lookup_eq_none_iff.mp unknown row known
    simp [same] at other
  bounded _ _ := index_le

-- A blank between two signs is passed, a no-break space is an operand.
example : ofText "- !x".toList = .error (.consecutiveUnary 2) ∧
    ofText "-\u00a0!x".toList = .error (.emptyOperand 1) := ⟨rfl, rfl⟩

end Formula

end FormulaMigration
