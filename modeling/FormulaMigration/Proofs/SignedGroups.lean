import FormulaMigration.Proofs.OpenFrames

namespace FormulaMigration

def Text.NegatesOutside (e : Text) : Prop :=
  ∀ l r : Text, e = l ++ '!' :: r → l ≠ [] →
    .operator (Text.byteLength l) .negation ∈ Lexeme.ofText e → l.count '(' = l.count ')'

theorem Lexes.count_eq {named : Bool} {before t : Text} {start : Nat} {ls : List Lexeme}
    (h : Lexes named before start t ls) {e front : Text} (whole : e = front ++ t)
    (place : start = Text.byteLength front) (sub : ls ⊆ Lexeme.ofText e)
    (outside : e.NegatesOutside) {depth depth' : Nat}
    (count : front.count '(' = front.count ')' + depth)
    (run : ls.foldlM Lexeme.depth? depth = some depth') :
    e.count '(' = e.count ')' + depth' := by
  induction h generalizing front depth with
  | @last named before gap start absent =>
    obtain ⟨opens, closes⟩ := absent.plain.count
    have same := Lexeme.foldlM_depth?_ofGap start depth gap []
    rw [List.append_nil, run] at same
    obtain rfl : depth' = depth := Option.some.inj same
    rw [whole, List.count_append, List.count_append, opens, closes, count]
    omega
  | @operator named before gap rest start op ls absent first uncalled tail ih =>
    obtain ⟨opens, closes⟩ := absent.plain.count
    obtain ⟨opens', closes'⟩ := op.count_symbol
    rw [Lexeme.foldlM_depth?_ofGap, List.foldlM_cons] at run
    obtain ⟨depth'', step, run⟩ := Option.bind_eq_some_iff.mp run
    have later : start + Text.byteLength gap = Text.byteLength (front ++ gap) := by
      rw [Text.byteLength_append, place]
    have here : front.count '(' + gap.count '(' = front.count ')' + gap.count ')' + depth := by
      omega
    have passed : e = front ++ gap ++ op.symbol ++ rest := by simp [whole]
    apply ih passed (by rw [Text.byteLength_append, later])
      (fun l mem => sub (List.mem_append_right _ (List.mem_cons_of_mem _ mem))) ?_ run
    simp only [List.count_append, opens', closes']
    rw [Lexeme.depth?] at step
    split_ifs at step with ho hc hz hn
    · cases step
      simp [ho]
      omega
    · cases step
      simp [hc]
      omega
    · -- The depth after a `!` is 0, and so it was before, where the `!` stands in no group.
      cases step
      obtain ⟨rfl, late⟩ := hn
      rw [later] at late sub
      have even := outside (front ++ gap) rest (by simp [whole, Operator.symbol])
        (fun empty => late (by rw [empty]; rfl)) (sub (by simp))
      simpa [List.count_append] using even
    · cases step
      have plain : [op].count .openGroup = 0 ∧ [op].count .closeGroup = 0 := by simp [ho, hc]
      omega
  | @call named before gap a rest start ls absent called matching tail ih =>
    obtain ⟨opens, closes⟩ := absent.plain.count
    have inner := Text.count_eq_of_balances matching
    rw [Lexeme.foldlM_depth?_ofGap] at run
    have passed : e = front ++ gap ++ '(' :: (a ++ [')']) ++ rest := by simp [whole]
    refine ih passed ?_ (fun l mem => sub ?_) ?_ run
    · rw [Text.byteLength_append, Text.byteLength_append, Text.byteLength_call, place,
        Text.byteLength]
      omega
    · exact List.mem_append_right _ (List.mem_cons_of_mem _ mem)
    · simp [List.count_append, opens, closes, count, inner]
      omega
  | unclosed absent called never =>
    rw [Lexeme.foldlM_depth?_ofGap] at run
    cases run

def Text.SignsOpenGroup (e : Text) : Prop :=
  ∃ (op : Operator) (t rest : Text), op.isUnary ∧ e = op.symbol ++ t ∧
    t.dropWhile isBlank = '(' :: rest ∧ untilClose 0 rest = none

theorem dropWhile_concat {α : Type} {q : α → Bool} {a : α} (stops : q a = false) (l : List α) :
    (l ++ [a]).dropWhile q = l.dropWhile q ++ [a] := by
  rw [List.dropWhile_append]
  split_ifs with none
  · rw [List.isEmpty_iff.mp none, List.dropWhile_cons_of_neg (by simp [stops])]
    rfl
  · rfl

namespace Formula

theorem signFree_cons {frame : Frame} {frames : List Frame} :
    SignFree (frame :: frames) ↔ (frame.op = .openGroup → frame.sign = none) ∧ SignFree frames :=
  List.forall_mem_cons

theorem SignFree.subset {frames frames' : List Frame} (h : SignFree frames)
    (sub : frames' ⊆ frames) : SignFree frames' :=
  fun frame mem => h frame (sub mem)

namespace Stacks

theorem read_signFree {l : Lexeme} (unsigned : Unsigned [l]) {s s' : Stacks} (h : s.read l = .ok s')
    (free : SignFree s.frames) (sign : s.sign = none) : SignFree s'.frames ∧ s'.sign = none := by
  cases l with
  | operand start t =>
    obtain ⟨-, rfl⟩ := readOperand_ok h
    exact ⟨free, rfl⟩
  | operator start op =>
    cases readOperator_ok h with
    | sign unary first => exact absurd first (unsigned start op List.mem_cons_self unary)
    | opens => exact ⟨signFree_cons.mpr ⟨fun _ => sign, free⟩, rfl⟩
    | closes group closed =>
      obtain ⟨⟨sign', top⟩, none⟩ := close_frames closed
      have sub := (List.dropWhile_suffix (l := s.frames) (·.op ≠ .openGroup)).subset
      rw [top] at sub
      exact ⟨free.subset (List.Subset.trans (List.subset_cons_self _ _) sub), none⟩
    | joins opens closes later pushed =>
      obtain ⟨frames, none⟩ := pushOperator_frames pushed
      rw [frames]
      refine ⟨signFree_cons.mpr ⟨fun _ => sign, free.subset ?_⟩, none⟩
      exact (List.dropWhile_suffix _).subset
  | arguments opening closing a =>
    obtain ⟨name, sign', rest, function, -, -, rfl⟩ := readArguments_ok h
    exact ⟨free, rfl⟩
  | unclosed opening => cases h

theorem run_signFree {ls : List Lexeme} (unsigned : Unsigned ls) {s s' : Stacks}
    (run : ls.foldlM read s = .ok s') (free : SignFree s.frames) (sign : s.sign = none) :
    SignFree s'.frames ∧ s'.sign = none := by
  apply foldlM_invariant (P := fun s => SignFree s.frames ∧ s.sign = none) _ run ⟨free, sign⟩
  intro l mem s s' h both
  have alone : Unsigned [l] := by
    intro start op here
    obtain rfl := List.mem_singleton.mp here
    exact unsigned start op mem
  exact read_signFree alone h both.1 both.2

theorem read_base {start : Nat} {op : Operator} (unsigned : Unsigned [.operator start op])
    (other : op ≠ .closeGroup) (kept : op ≠ .negation) {base : Frame}
    (group : base.op = .openGroup) {top : List Frame} (free : SignFree top)
    {operands : List Formula} {s' : Stacks}
    (h : Stacks.read ⟨operands, top ++ [base], none⟩ (.operator start op) = .ok s') :
    ∃ top', s'.frames = top' ++ [base] ∧ s'.sign = none ∧ SignFree top' ∧
      opened top' = opened top + [op].count .openGroup := by
  cases readOperator_ok h with
  | sign unary first => exact absurd first (unsigned start op List.mem_cons_self unary)
  | opens opening =>
    refine ⟨⟨op, none⟩ :: top, rfl, rfl, signFree_cons.mpr ⟨fun _ => rfl, free⟩, ?_⟩
    rw [opened_cons_open opening, opening]
    rfl
  | closes closing => exact absurd closing other
  | joins opens closes later pushed =>
    obtain ⟨frames, none⟩ := pushOperator_frames pushed
    have loose := loose_group (Operator.precedence_pos opens closes kept)
    have stays := dropWhile_concat (q := fun frame : Frame => op.precedence ≤ frame.op.precedence)
      (loose base group) top
    dsimp only at frames
    rw [stays] at frames
    refine ⟨_ :: top.dropWhile (fun frame => op.precedence ≤ frame.op.precedence), frames, none,
      signFree_cons.mpr ⟨fun _ => rfl, free.subset (List.dropWhile_suffix _).subset⟩, ?_⟩
    rw [opened_cons_other opens, opened_dropWhile loose]
    simp [opens]

theorem read_close_base {start : Nat} {base : Frame} (group : base.op = .openGroup)
    {top : List Frame} (free : SignFree top) {operands : List Formula} {s' : Stacks}
    (h : Stacks.read ⟨operands, top ++ [base], none⟩ (.operator start .closeGroup) = .ok s') :
    s'.sign = none ∧ (opened top = 0 ∧ s'.frames = [] ∨
      ∃ top', s'.frames = top' ++ [base] ∧ SignFree top' ∧ opened top = opened top' + 1) := by
  obtain ⟨⟨sign, cut⟩, none⟩ := close_frames h
  have kept := opened_dropWhile (q := (·.op ≠ .openGroup)) (by simp) top
  have inner := free.subset (List.dropWhile_suffix (l := top) (·.op ≠ .openGroup)).subset
  have stops := List.head?_dropWhile_not (·.op ≠ Operator.openGroup) top
  rw [dropWhile_concat (by simpa using group)] at cut
  refine ⟨none, ?_⟩
  rcases rest : top.dropWhile (·.op ≠ .openGroup) with _ | ⟨frame, top'⟩
  · rw [rest] at cut kept
    obtain ⟨-, frames⟩ := List.cons.inj cut
    exact .inl ⟨kept.symm, frames.symm⟩
  · rw [rest] at cut kept inner stops
    obtain ⟨-, frames⟩ := List.cons.inj cut
    have opens : frame.op = .openGroup := by simpa using stops
    rw [opened_cons_open opens] at kept
    exact .inr ⟨top', frames.symm, (signFree_cons.mp inner).2, kept.symm⟩

theorem run_ofGap {start : Nat} {gap : Text} {ls : List Lexeme} {operands : List Formula}
    {frames : List Frame} {s' : Stacks}
    (run : (Lexeme.ofGap start gap ++ ls).foldlM read ⟨operands, frames, none⟩ = .ok s') :
    ∃ operands', ls.foldlM read ⟨operands', frames, none⟩ = .ok s' := by
  unfold Lexeme.ofGap at run
  split_ifs at run with filled
  · obtain ⟨s, here, run⟩ := exists_of_bind_eq_ok run
    obtain ⟨-, rfl⟩ := readOperand_ok here
    exact ⟨_, run⟩
  · exact ⟨_, run⟩

end Stacks

end Formula

namespace Text

theorem untilClose_append_of {k : Nat} {s : Text} (h : balances k s) (depth : Nat) (t : Text) :
    untilClose (k + depth) (s ++ t) = (untilClose depth t).map fun (a, r) => (s ++ a, r) := by
  induction s generalizing k with
  | nil =>
    obtain rfl : k = 0 := by simpa [balances] using h
    simp
  | cons c s ih =>
    rw [balances] at h
    rw [List.cons_append, untilClose]
    split_ifs at h ⊢ with opens closes deep
    · rw [Nat.add_right_comm, ih h, Option.map_map]
      rfl
    · simp only [Bool.and_eq_true, bne_iff_ne] at h
      omega
    · simp only [Bool.and_eq_true, bne_iff_ne] at h
      have back : k + depth - 1 = k - 1 + depth := by omega
      rw [back, ih h.2, Option.map_map]
      rfl
    · rw [ih h, Option.map_map]
      rfl

theorem untilClose_append_ne {s : Text} (h : balances 0 s) (depth : Nat) (t : Text) :
    untilClose depth (s ++ t) ≠ none ↔ untilClose depth t ≠ none := by
  have cut := untilClose_append_of h depth t
  rw [Nat.zero_add] at cut
  rw [cut, Ne, Option.map_eq_none_iff]

theorem untilClose_open_ne (depth : Nat) (t : Text) :
    untilClose depth ('(' :: t) ≠ none ↔ untilClose (depth + 1) t ≠ none := by
  simp [untilClose]

theorem untilClose_close_ne (depth : Nat) (t : Text) :
    untilClose (depth + 1) (')' :: t) ≠ none ↔ untilClose depth t ≠ none := by
  simp [untilClose]

end Text

theorem Formula.Stacks.read_over_base {start : Nat} {op : Operator}
    (unsigned : Unsigned [.operator start op]) (kept : op ≠ .negation) {base : Frame}
    (group : base.op = .openGroup) {top : List Frame} (free : SignFree top)
    {operands : List Formula} {s' : Stacks}
    (h : Stacks.read ⟨operands, top ++ [base], none⟩ (.operator start op) = .ok s') (rest : Text) :
    s'.sign = none ∧
      (s'.frames = [] ∧ Text.untilClose (opened top) (op.symbol ++ rest) ≠ none ∨
        ∃ top', s'.frames = top' ++ [base] ∧ SignFree top' ∧
          op.symbol.count '(' + opened top = op.symbol.count ')' + opened top' ∧
          (Text.untilClose (opened top) (op.symbol ++ rest) ≠ none ↔
            Text.untilClose (opened top') rest ≠ none)) := by
  by_cases closing : op = .closeGroup
  · subst closing
    obtain ⟨sign, ⟨deep, frames⟩ | ⟨top', frames, free', deep⟩⟩ := read_close_base group free h
    · refine ⟨sign, .inl ⟨frames, ?_⟩⟩
      rw [deep]
      simp [Operator.symbol, Text.untilClose]
    · refine ⟨sign, .inr ⟨top', frames, free', ?_, ?_⟩⟩
      · simp [Operator.symbol, deep, Nat.add_comm]
      · rw [deep]
        exact Text.untilClose_close_ne _ rest
  · obtain ⟨top', frames, sign, free', deeper⟩ :=
      read_base unsigned closing kept group free h
    obtain ⟨opens, closes⟩ := op.count_symbol
    have other : [op].count .closeGroup = 0 := by simp [closing]
    refine ⟨sign, .inr ⟨top', frames, free', by omega, ?_⟩⟩
    rw [deeper]
    by_cases opening : op = .openGroup
    · subst opening
      exact Text.untilClose_open_ne _ rest
    · have plain := Operator.plain_symbol opening closing
      have other : [op].count .openGroup = 0 := by simp [opening]
      rw [other]
      exact Text.untilClose_append_ne (Text.balances_of_plain plain) _ rest

theorem Lexes.signFree_iff {named : Bool} {before t : Text} {start : Nat} {ls : List Lexeme}
    (h : Lexes named before start t ls) {e front : Text} (whole : e = front ++ t)
    (place : start = Text.byteLength front) (late : start ≠ 0) (sub : ls ⊆ Lexeme.ofText e)
    (unsigned : Formula.Unsigned ls) (outside : e.NegatesOutside) {base : Formula.Frame}
    (group : base.op = .openGroup) (signed : base.sign ≠ none) {top : List Formula.Frame}
    (free : Formula.SignFree top)
    (count : front.count '(' = front.count ')' + Formula.opened top + 1)
    {operands : List Formula} {s : Formula.Stacks}
    (run : ls.foldlM Formula.Stacks.read ⟨operands, top ++ [base], none⟩ = .ok s) :
    Formula.SignFree s.frames ↔ Text.untilClose (Formula.opened top) t ≠ none := by
  -- The frames are those of the groups opened behind `base`, down to `base` itself, until a `)`
  -- closes that one.
  induction h generalizing front top operands with
  | @last named before gap start absent =>
    rw [← List.append_nil (Lexeme.ofGap start gap)] at run
    obtain ⟨operands', run⟩ := Formula.Stacks.run_ofGap run
    cases run
    have never := Text.untilClose_append (Formula.opened top) [] absent.plain
    rw [List.append_nil] at never
    rw [never]
    constructor
    · intro free'
      exact absurd (free' base (by simp) group) signed
    · intro closes
      exact absurd rfl closes
  | @operator named before gap rest start op ls absent first uncalled tail ih =>
    obtain ⟨operands', run⟩ := Formula.Stacks.run_ofGap run
    rw [List.foldlM_cons] at run
    obtain ⟨s', here, after⟩ := exists_of_bind_eq_ok run
    obtain ⟨opens, closes⟩ := absent.plain.count
    have unsignedOp := (Formula.Unsigned.cons.mp (Formula.Unsigned.append.mp unsigned).2).1
    have unsigned' := (Formula.Unsigned.cons.mp (Formula.Unsigned.append.mp unsigned).2).2
    have next := @ih (front ++ gap ++ op.symbol) (by simp [whole])
      (by simp [Text.byteLength_append, place, Nat.add_assoc]) (by omega)
      (fun l mem => sub (List.mem_append_right _ (List.mem_cons_of_mem _ mem))) unsigned'
    rw [Text.untilClose_append_ne (Text.balances_of_plain absent.plain)]
    by_cases negates : op = .negation
    · -- This `!` would stand in the group of `base`.
      subst negates
      have inside := outside (front ++ gap) rest (by simp [whole, Operator.symbol])
        (by rintro none; simp_all) (sub (by simp [Text.byteLength_append, place]))
      simp only [List.count_append] at inside
      omega
    obtain ⟨sign', ⟨frames, closed⟩ | ⟨top', frames, free', deeper, same⟩⟩ :=
      Formula.Stacks.read_over_base unsignedOp negates group free here rest
    · -- The group is closed, and no sign is left for another one.
      have none : Formula.SignFree s'.frames := by simp [frames, Formula.SignFree]
      have ended := Formula.Stacks.run_signFree unsigned' after none sign'
      exact iff_of_true ended.1 closed
    · obtain ⟨operands'', frames', sign''⟩ := s'
      subst frames sign'
      refine (next free' ?_ after).trans same.symm
      simp only [List.count_append, opens, closes]
      omega
  | @call named before gap a rest start ls absent called matching tail ih =>
    obtain ⟨operands', run⟩ := Formula.Stacks.run_ofGap run
    obtain ⟨opens, closes⟩ := absent.plain.count
    have inner := Text.count_eq_of_balances matching
    have shape : '(' :: (a ++ ')' :: rest) = '(' :: (a ++ [')']) ++ rest := by simp
    rw [List.foldlM_cons] at run
    obtain ⟨s', here, after⟩ := exists_of_bind_eq_ok run
    obtain ⟨name, sign, others, function, -, -, rfl⟩ := Formula.Stacks.readArguments_ok here
    have unsigned' := (Formula.Unsigned.cons.mp (Formula.Unsigned.append.mp unsigned).2).2
    rw [Text.untilClose_append_ne (Text.balances_of_plain absent.plain), shape,
      Text.untilClose_append_ne (Text.balances_parenthesized matching)]
    refine @ih (front ++ gap ++ '(' :: (a ++ [')'])) (by simp [whole]) ?_ (by omega)
      (fun l mem => sub (List.mem_append_right _ (List.mem_cons_of_mem _ mem))) unsigned' _ free ?_
      _ after
    · rw [Text.byteLength_append, Text.byteLength_append, Text.byteLength_call, place,
        Text.byteLength]
      omega
    · simp [List.count_append, opens, closes, inner, count]
      omega
  | unclosed absent called never =>
    obtain ⟨operands', run⟩ := Formula.Stacks.run_ofGap run
    cases run

namespace Text

theorem signsOpenGroup_iff {op : Operator} (unary : op.isUnary) {t : Text} :
    SignsOpenGroup (op.symbol ++ t) ↔
      ∃ rest, t.dropWhile isBlank = '(' :: rest ∧ untilClose 0 rest = none := by
  constructor
  · rintro ⟨op', t', rest, unary', whole, cut, never⟩
    have same : op = op' ∧ t = t' := by
      cases op <;> cases op' <;> simp_all [Operator.isUnary, Operator.symbol]
    rw [← same.2] at cut
    exact ⟨rest, cut, never⟩
  · rintro ⟨rest, cut, never⟩
    exact ⟨op, t, rest, unary, rfl, cut, never⟩

theorem dropWhile_isBlank_ne {gap : Text} (plain : gap.Plain)
    (filled : Lexeme.isOperand gap = true) (t rest : Text) :
    (gap ++ t).dropWhile isBlank ≠ '(' :: rest := by
  intro cut
  have solid : gap.dropWhile isBlank ≠ [] := by
    simpa [Lexeme.isOperand, List.dropWhile_eq_nil_iff] using filled
  rw [List.dropWhile_append, if_neg (by simpa using solid)] at cut
  obtain ⟨c, gap', head⟩ := List.exists_cons_of_ne_nil solid
  rw [head, List.cons_append] at cut
  obtain ⟨rfl, -⟩ := List.cons.inj cut
  have mem : '(' ∈ gap.dropWhile isBlank := by simp [head]
  exact (plain _ ((List.dropWhile_suffix _).subset mem)).1 rfl

end Text

theorem Lexes.exists_of_first {op : Operator} {t : Text}
    (first : Operator.at? [] (op.symbol ++ t) = some op) :
    ∃ ls, Lexes false (op.symbol.reverse ++ []) (Text.byteLength op.symbol) t ls ∧
      Lexeme.ofText (op.symbol ++ t) = .operator 0 op :: ls := by
  have tail := Lexes.of_ofScan false (op.symbol.reverse ++ []) (Text.byteLength op.symbol) t
  refine ⟨_, tail, ?_⟩
  apply Eq.symm
  apply lexes_ofText_iff.mp
  refine @Lexes.operator _ _ [] t 0 op _ (Operator.absentFrom_nil _ _) first (fun _ => rfl) ?_
  simpa [Text.byteLength, Lexeme.isOperand] using tail

namespace Formula

namespace Stacks

theorem signFree_of_operand {start : Nat} {gap : Text} (filled : Lexeme.isOperand gap = true)
    {ls : List Lexeme} (unsigned : Unsigned ls) {sign : Option Operator} {s : Stacks}
    (run : (Lexeme.ofGap start gap ++ ls).foldlM read ⟨[], [], sign⟩ = .ok s) :
    SignFree s.frames := by
  rw [Lexeme.ofGap, if_pos filled, List.singleton_append, List.foldlM_cons] at run
  obtain ⟨s', here, after⟩ := exists_of_bind_eq_ok run
  obtain ⟨-, rfl⟩ := readOperand_ok here
  exact (run_signFree unsigned after (by simp [SignFree]) rfl).1

end Stacks

theorem signFree_nil : SignFree [] :=
  fun _ mem => nomatch mem

theorem signFree_iff_of_group {op : Operator} (unary : op.isUnary) {gap rest : Text}
    (plain : gap.Plain) {named : Bool} {before : Text} {ls : List Lexeme}
    (tail : Lexes named before (Text.byteLength (op.symbol ++ (gap ++ ['(']))) rest ls)
    {e : Text} (whole : e = op.symbol ++ (gap ++ '(' :: rest)) (sub : ls ⊆ Lexeme.ofText e)
    (unsigned : Unsigned ls) (outside : e.NegatesOutside) {s : Stacks}
    (run : ls.foldlM Stacks.read ⟨[], [⟨.openGroup, some op⟩], none⟩ = .ok s) :
    SignFree s.frames ↔ Text.untilClose 0 rest ≠ none := by
  have outer : op.symbol.Plain := by
    cases op <;> first | (cases unary; done) | exact Text.plain_iff.mpr rfl
  have count : (op.symbol ++ (gap ++ ['('])).count '(' =
      (op.symbol ++ (gap ++ ['('])).count ')' + opened [] + 1 := by
    simp [List.count_append, outer.count, plain.count, opened]
  have late : Text.byteLength (op.symbol ++ (gap ++ ['('])) ≠ 0 := by
    have := op.byteLength_symbol_pos
    rw [Text.byteLength_append]
    omega
  exact tail.signFree_iff (by simp [whole]) rfl late sub unsigned outside rfl (by simp)
    signFree_nil count run

theorem signFree_of_other {start : Nat} {op op' : Operator} {ls : List Lexeme}
    (unsigned : Unsigned (.operator start op' :: ls)) (other : op' ≠ .openGroup) {s : Stacks}
    (run : (Lexeme.operator start op' :: ls).foldlM Stacks.read ⟨[], [], some op⟩ = .ok s) :
    SignFree s.frames := by
  obtain ⟨unsigned, unsigned'⟩ := Unsigned.cons.mp unsigned
  rw [List.foldlM_cons] at run
  obtain ⟨s', here, run⟩ := exists_of_bind_eq_ok run
  cases Stacks.readOperator_ok here with
  | sign unary first => exact absurd first (unsigned _ _ List.mem_cons_self unary)
  | opens opening => exact absurd opening other
  | closes closing closed =>
    obtain ⟨⟨sign, cut⟩, -⟩ := Stacks.close_frames closed
    cases cut
  | joins opens closes later pushed =>
    obtain ⟨frames, none⟩ := Stacks.pushOperator_frames pushed
    have free : SignFree s'.frames := by
      simp [frames, SignFree, other]
    exact (Stacks.run_signFree unsigned' run free none).1

theorem signFree_iff_of_sign {op : Operator} (unary : op.isUnary) {before t : Text}
    {ls : List Lexeme} (tail : Lexes false before (Text.byteLength op.symbol) t ls) {e : Text}
    (whole : e = op.symbol ++ t) (sub : ls ⊆ Lexeme.ofText e) (unsigned : Unsigned ls)
    (outside : e.NegatesOutside) {s : Stacks}
    (run : ls.foldlM Stacks.read ⟨[], [], some op⟩ = .ok s) :
    SignFree s.frames ↔ ¬ ∃ rest, t.dropWhile isBlank = '(' :: rest ∧
      Text.untilClose 0 rest = none := by
  generalize hn : Text.byteLength op.symbol = start at tail
  cases tail with
  | last absent =>
    refine iff_of_true ?_ ?_
    · rw [← List.append_nil (Lexeme.ofGap _ _)] at run
      by_cases filled : Lexeme.isOperand t = true
      · exact Stacks.signFree_of_operand filled (by simp [Unsigned]) run
      · rw [Lexeme.ofGap, if_neg filled] at run
        cases run
        exact signFree_nil
    · rintro ⟨rest, cut, -⟩
      have mem : '(' ∈ t.dropWhile isBlank := by simp [cut]
      exact (absent.plain _ ((List.dropWhile_suffix _).subset mem)).1 rfl
  | @operator _ _ gap rest _ op' ls absent first uncalled after =>
    have unsigned' := (Unsigned.append.mp unsigned).2
    by_cases filled : Lexeme.isOperand gap = true
    · refine iff_of_true (Stacks.signFree_of_operand filled unsigned' run) ?_
      rintro ⟨rest', cut, -⟩
      exact Text.dropWhile_isBlank_ne absent.plain filled _ _ cut
    -- Blanks are no lexeme, so the sign still waits at the operator.
    have blank : ∀ c ∈ gap, isBlank c = true := by
      simpa [Lexeme.isOperand] using filled
    rw [Lexeme.ofGap, if_neg filled, List.nil_append] at run
    rw [List.dropWhile_append_of_pos blank]
    by_cases opening : op' = .openGroup
    · subst opening
      have place : start + Text.byteLength gap + Text.byteLength Operator.openGroup.symbol =
          Text.byteLength (op.symbol ++ (gap ++ ['('])) := by
        rw [Text.byteLength_append, Text.byteLength_append, hn, Nat.add_assoc]
        rfl
      rw [place] at after
      have sub' : ls ⊆ Lexeme.ofText e := fun l mem => sub (by simp [mem])
      rw [signFree_iff_of_group unary absent.plain after whole sub' (Unsigned.cons.mp unsigned').2
        outside run]
      simp [Operator.symbol, isBlank]
    · refine iff_of_true (signFree_of_other unsigned' opening run) ?_
      rintro ⟨rest', cut, -⟩
      cases op' <;> simp_all [Operator.symbol, isBlank]
  | @call _ _ gap a rest _ ls absent called matching after =>
    have filled : Lexeme.isOperand gap = true := called
    refine iff_of_true (Stacks.signFree_of_operand filled (Unsigned.append.mp unsigned).2 run) ?_
    rintro ⟨rest', cut, -⟩
    exact Text.dropWhile_isBlank_ne absent.plain filled _ _ cut
  | @unclosed _ _ gap rest _ absent called never =>
    have filled : Lexeme.isOperand gap = true := called
    refine iff_of_true (Stacks.signFree_of_operand filled (Unsigned.append.mp unsigned).2 run) ?_
    rintro ⟨rest', cut, -⟩
    exact Text.dropWhile_isBlank_ne absent.plain filled _ _ cut

theorem signFree_iff {e : Text} (outside : e.NegatesOutside) {s : Stacks}
    (run : (Lexeme.ofText e).foldlM Stacks.read Stacks.empty = .ok s) :
    SignFree s.frames ↔ ¬ e.SignsOpenGroup := by
  rcases Lexeme.signed_or_unsigned e with
    ⟨op, ls, unary, first, lexemes, unsigned⟩ | ⟨unsigned, absent⟩
  · obtain ⟨t, rfl⟩ := Operator.exists_of_at? first
    obtain ⟨ls', tail, whole⟩ := Lexes.exists_of_first first
    obtain ⟨-, rfl⟩ := List.cons.inj (lexemes.symm.trans whole)
    rw [whole, List.foldlM_cons] at run
    obtain ⟨s', here, run⟩ := exists_of_bind_eq_ok run
    obtain rfl := Except.ok.inj ((read_sign unary).symm.trans here)
    rw [Text.signsOpenGroup_iff unary]
    exact signFree_iff_of_sign unary tail rfl (by simp [whole]) unsigned outside run
  · have free := (Stacks.run_signFree unsigned run signFree_nil rfl).1
    refine iff_of_true free ?_
    rintro ⟨op, t, rest, unary, rfl, cut, -⟩
    refine absent op (Operator.at?_unary unary ?_) unary
    intro head
    obtain ⟨u, rfl⟩ := List.head?_eq_some_iff.mp head
    cases cut

end Formula

end FormulaMigration
