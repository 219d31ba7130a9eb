import FormulaMigration.Proofs.Balance

/-!
The lexemes of a text with their places, as a relation by which proofs go through a text lexeme by
lexeme. Main statement: a `)` behind a text is one lexeme more and changes none before it.
-/

namespace FormulaMigration

theorem Text.byteLength_call (a t : Text) :
    byteLength ('(' :: (a ++ ')' :: t)) = 1 + byteLength a + 1 + byteLength t := by
  have width : '('.utf8Size = 1 ∧ ')'.utf8Size = 1 := ⟨rfl, rfl⟩
  simp only [byteLength, byteLength_append, width]
  omega

/-- The lexemes of a text that starts at byte `start`, after `before` (nearest character first).
`named` says that an operand came last, so that a `(` starts a call. -/
inductive Lexes :
    (named : Bool) → (before : Text) → (start : Nat) → (t : Text) → List Lexeme → Prop
  | last {named : Bool} {before gap : Text} {start : Nat}
      (absent : Operator.AbsentFrom before gap []) :
      Lexes named before start gap (Lexeme.ofGap start gap)
  | operator {named : Bool} {before gap rest : Text} {start : Nat} {op : Operator}
      {ls : List Lexeme} (absent : Operator.AbsentFrom before gap (op.symbol ++ rest))
      (first : Operator.at? (gap.reverse ++ before) (op.symbol ++ rest) = some op)
      (uncalled : op = .openGroup → (named || Lexeme.isOperand gap) = false)
      (tail : Lexes (op = .closeGroup && (named || Lexeme.isOperand gap))
        (op.symbol.reverse ++ (gap.reverse ++ before))
        (start + Text.byteLength gap + Text.byteLength op.symbol) rest ls) :
      Lexes named before start (gap ++ (op.symbol ++ rest))
        (Lexeme.ofGap start gap ++ .operator (start + Text.byteLength gap) op :: ls)
  | call {named : Bool} {before gap a rest : Text} {start : Nat} {ls : List Lexeme}
      (absent : Operator.AbsentFrom before gap ('(' :: (a ++ ')' :: rest)))
      (called : (named || Lexeme.isOperand gap) = true) (matching : a.balances 0)
      (tail : Lexes false (')' :: (a.reverse ++ '(' :: (gap.reverse ++ before)))
        (start + Text.byteLength gap + 1 + Text.byteLength a + 1) rest ls) :
      Lexes named before start (gap ++ '(' :: (a ++ ')' :: rest))
        (Lexeme.ofGap start gap ++ .arguments (start + Text.byteLength gap)
          (start + Text.byteLength gap + 1 + Text.byteLength a) a :: ls)
  | unclosed {named : Bool} {before gap rest : Text} {start : Nat}
      (absent : Operator.AbsentFrom before gap ('(' :: rest))
      (called : (named || Lexeme.isOperand gap) = true)
      (never : Text.untilClose 0 rest = none) :
      Lexes named before start (gap ++ '(' :: rest)
        (Lexeme.ofGap start gap ++ [.unclosed (start + Text.byteLength gap)])

namespace Lexes

theorem of_ofScan (named : Bool) (before : Text) (start : Nat) (t : Text) :
    Lexes named before start t
      (Lexeme.ofScan start (.outside named) (Scan.ofTextAfter before 0 t)) := by
  induction hn : t.length using Nat.strongRecOn generalizing named before start t with
  | ind n ih =>
    rcases Operator.exists_first before t with absent | ⟨gap, op, rest, rfl, absent, first⟩
    · rw [Lexeme.ofScan_last start named absent]
      exact .last absent
    by_cases called : op = .openGroup ∧ (named || Lexeme.isOperand gap) = true
    · obtain ⟨rfl, called⟩ := called
      change Operator.AbsentFrom before gap ('(' :: rest) at absent
      change Lexes named before start (gap ++ '(' :: rest)
        (Lexeme.ofScan start _ (Scan.ofTextAfter before 0 (gap ++ '(' :: rest)))
      rw [Lexeme.ofScan_call _ absent called]
      cases cut : Text.untilClose 0 rest with
      | none => exact .unclosed absent called cut
      | some parts =>
        obtain ⟨a, after⟩ := parts
        obtain ⟨rfl, matching⟩ := Text.untilClose_eq_some.mp cut
        have shorter : after.length < n := by
          simp only [List.length_append, List.length_cons] at hn
          omega
        exact .call absent called matching (ih _ shorter _ _ _ after rfl)
    · have uncalled : op = .openGroup → (named || Lexeme.isOperand gap) = false := fun ho => by
        simpa [ho] using called
      have shorter : rest.length < n := by
        have := List.length_pos_iff.mpr op.symbol_ne_nil
        simp only [List.length_append] at hn
        omega
      rw [Lexeme.ofScan_operator _ absent first uncalled]
      exact .operator absent first uncalled (ih _ shorter _ _ _ rest rfl)

theorem eq_ofScan {named : Bool} {before t : Text} {start : Nat} {ls : List Lexeme}
    (h : Lexes named before start t ls) :
    ls = Lexeme.ofScan start (.outside named) (Scan.ofTextAfter before 0 t) := by
  induction h with
  | last absent => rw [Lexeme.ofScan_last _ _ absent]
  | operator absent first uncalled tail ih =>
    rw [Lexeme.ofScan_operator _ absent first uncalled, ← ih]
  | @call named before gap a rest start ls absent called matching tail ih =>
    have closed : Text.untilClose 0 (a ++ ')' :: rest) = some (a, rest) :=
      Text.untilClose_eq_some.mpr ⟨rfl, matching⟩
    rw [Lexeme.ofScan_call _ absent called, closed]
    simp [Lexeme.ofCall, ← ih]
  | unclosed absent called never =>
    rw [Lexeme.ofScan_call _ absent called, never]
    rfl

end Lexes

theorem lexes_ofText_iff {t : Text} {ls : List Lexeme} :
    Lexes false [] 0 t ls ↔ ls = Lexeme.ofText t := by
  constructor
  · exact Lexes.eq_ofScan
  · rintro rfl
    exact Lexes.of_ofScan _ _ _ _

namespace Operator

theorem at?_append_close (before : Text) {t : Text} (filled : t ≠ []) (rest : Text) :
    at? before (t ++ ')' :: rest) = at? before t := by
  have same (op : Operator) : op.symbol.isPrefixOf (t ++ ')' :: rest) = op.symbol.isPrefixOf t := by
    match t, filled with
    | [c], _ => cases op <;> simp [symbol, List.isPrefixOf]
    | c :: d :: t, _ => cases op <;> simp [symbol, List.isPrefixOf]
  unfold at? standsAt
  simp only [same]

theorem AbsentFrom.append_close {before gap : Text} {rest : Text} (h : AbsentFrom before gap rest)
    (s : Text) : AbsentFrom before gap (rest ++ ')' :: s) := by
  intro l r hg hr
  rw [← List.append_assoc, at?_append_close _ (by simp [hr])]
  exact h l r hg hr

end Operator

namespace Lexes

theorem append_close {named : Bool} {before t : Text} {start : Nat} {ls : List Lexeme}
    (h : Lexes named before start t ls) (closed : ∀ opening, .unclosed opening ∉ ls) :
    Lexes named before start (t ++ [')'])
      (ls ++ [.operator (start + Text.byteLength t) .closeGroup]) := by
  induction h with
  | @last named before gap start absent =>
    have none : Operator.AbsentFrom (')' :: (gap.reverse ++ before)) [] [] :=
      Operator.absentFrom_nil _ _
    exact .operator (absent.append_close []) (Operator.at?_close _ []) (fun h => nomatch h)
      (.last none)
  | @operator named before gap rest start op ls absent first uncalled tail ih =>
    have tail' := ih fun opening mem => closed opening (by simp [mem])
    have absent' := absent.append_close []
    have first' := (Operator.at?_append_close (gap.reverse ++ before)
      (by simp [op.symbol_ne_nil]) []).trans first
    rw [List.append_assoc] at absent' first'
    have whole := Lexes.operator absent' first' uncalled tail'
    simpa [Text.byteLength_append, Nat.add_assoc] using whole
  | @call named before gap a rest start ls absent called matching tail ih =>
    have tail' := ih fun opening mem => closed opening (by simp [mem])
    have absent' := absent.append_close []
    have shape : '(' :: (a ++ ')' :: rest) ++ [')'] = '(' :: (a ++ ')' :: (rest ++ [')'])) := by
      simp
    rw [shape] at absent'
    have whole := Lexes.call absent' called matching tail'
    simpa [Text.byteLength_append, Text.byteLength_call, Nat.add_assoc] using whole
  | unclosed absent called never =>
    exact absurd (List.mem_append_right _ List.mem_cons_self) (closed _)

end Lexes

theorem Lexeme.ofText_append_close {t : Text} (closed : ∀ opening, .unclosed opening ∉ ofText t) :
    ofText (t ++ [')']) = ofText t ++ [.operator (Text.byteLength t) .closeGroup] := by
  have lexes := (lexes_ofText_iff.mpr rfl).append_close closed
  rw [Nat.zero_add] at lexes
  exact (lexes_ofText_iff.mp lexes).symm

theorem Lexeme.ofText_append_closes {t : Text} (closed : ∀ opening, .unclosed opening ∉ ofText t)
    (k : Nat) : ∃ ls, ofText (t ++ List.replicate k ')') = ofText t ++ ls ∧
      ls.map token? = List.replicate k (some (.operator .closeGroup)) := by
  induction k with
  | zero => exact ⟨[], by simp⟩
  | succ k ih =>
    obtain ⟨ls, whole, tokens⟩ := ih
    have closed' : ∀ opening, .unclosed opening ∉ ofText (t ++ List.replicate k ')') := by
      intro opening mem
      rw [whole] at mem
      rcases List.mem_append.mp mem with mem | mem
      · exact closed opening mem
      · have token := List.mem_map_of_mem (f := token?) mem
        rw [tokens] at token
        cases List.eq_of_mem_replicate token
    have next := ofText_append_close closed'
    rw [whole, List.append_assoc, List.append_assoc, ← List.replicate_succ'] at next
    refine ⟨_, next, ?_⟩
    rw [List.map_append, tokens, List.replicate_succ']
    rfl

end FormulaMigration
