import FormulaMigration.Proofs.Blanks
import FormulaMigration.Proofs.ClosingParenthesis
import FormulaMigration.Proofs.NextOperator
import FormulaMigration.Proofs.Surplus

namespace FormulaMigration

namespace Operator

theorem at?_append (before : Text) {t rest : Text} (filled : t ≠ [])
    (apart : ∀ c ∈ rest.head?, isSecond c = false) : at? before (t ++ rest) = at? before t := by
  have same (op : Operator) : op.symbol.isPrefixOf (t ++ rest) = op.symbol.isPrefixOf t := by
    rw [Bool.eq_iff_iff, List.isPrefixOf_iff_prefix, List.isPrefixOf_iff_prefix]
    exact ⟨symbol_starts filled apart, fun starts => starts.trans (List.prefix_append t rest)⟩
  unfold at? standsAt
  simp only [same]

theorem nextFrom_inside {outer rest : Text} (edge : Edge outer)
    (apart : ∀ c ∈ rest.head?, isSecond c = false) (q start offset : Nat) (before t : Text) :
    nextFrom (q + start) (before ++ outer) (q + offset) (t ++ rest) =
      ((nextFrom start before offset t).map fun (place, op) => (q + place, op)).or
        (nextFrom (q + start) (t.reverse ++ (before ++ outer)) (q + offset + Text.byteLength t)
          rest) := by
  induction t generalizing before offset with
  | nil => rfl
  | cons c t ih =>
    have alone : Edge [] := by simp [Edge]
    have here : at? (before ++ outer) (c :: (t ++ rest)) = at? before (c :: t) := by
      have cut := at?_append (before ++ outer) (List.cons_ne_nil c t) apart
      have same := at?_edge edge alone before (c :: t)
      rw [List.append_nil] at same
      exact cut.trans same
    have next := ih (offset + c.utf8Size) (c :: before)
    rw [List.cons_append, nextFrom, nextFrom, here]
    by_cases reached : start ≤ offset
    · rw [if_pos reached, if_pos (Nat.add_le_add_left reached q)]
      cases at? before (c :: t) with
      | some op => rfl
      | none => simpa [Text.byteLength_cons, Nat.add_assoc] using next
    · rw [if_neg reached, if_neg (by omega)]
      simpa [Text.byteLength_cons, Nat.add_assoc] using next

theorem next?_inside {l u rest : Text} (edge : Edge l.reverse)
    (apart : ∀ c ∈ rest.head?, isSecond c = false) (j : Nat) :
    next? (l ++ (u ++ rest)) (Text.byteLength l + j) =
      ((next? u j).map fun (place, op) => (Text.byteLength l + place, op)).or
        (nextFrom (Text.byteLength l + j) (u.reverse ++ l.reverse)
          (Text.byteLength l + Text.byteLength u) rest) := by
  have reached : 0 + Text.byteLength l ≤ Text.byteLength l + j := by omega
  have passed := nextFrom_pass reached [] (u ++ rest)
  have inside := nextFrom_inside edge apart (Text.byteLength l) j 0 [] u
  rw [Nat.zero_add, List.append_nil] at passed
  rw [next?, passed]
  exact inside

section Part

variable {l u rest : Text} {j place : Nat} {op : Operator}

theorem next?_of_part (edge : Edge l.reverse) (apart : ∀ c ∈ rest.head?, isSecond c = false)
    (h : next? u j = some (place, op)) :
    next? (l ++ (u ++ rest)) (Text.byteLength l + j) = some (Text.byteLength l + place, op) := by
  rw [next?_inside edge apart, h]
  rfl

theorem le_of_next?_none (edge : Edge l.reverse) (apart : ∀ c ∈ rest.head?, isSecond c = false)
    (none : next? u j = none)
    (h : next? (l ++ (u ++ rest)) (Text.byteLength l + j) = some (place, op)) :
    Text.byteLength l + Text.byteLength u ≤ place := by
  rw [next?_inside edge apart, none] at h
  obtain ⟨passed, _, _, rfl, _⟩ := nextFrom_some h
  exact Nat.le_add_right _ _

theorem exists_next?_of_close (l r : Text) {start : Nat} (h : start ≤ Text.byteLength l) :
    ∃ place op, next? (l ++ ')' :: r) start = some (place, op) := by
  cases found : next? (l ++ ')' :: r) start with
  | some result => exact ⟨result.1, result.2, rfl⟩
  | none =>
    have stands : closeGroup.matchesAt (l ++ ')' :: r) (Text.byteLength l) :=
      matchesAt_iff.mpr ⟨l, ')' :: r, rfl, rfl, rfl⟩
    exact absurd stands (next?_none found h closeGroup)

end Part

/-- A part of a text at a byte, in which the search finds the same as in the text, as far as the
part goes. -/
structure SearchedAlike (t : Text) (q : Nat) (u : Text) : Prop where
  part : t.slice? q (q + Text.byteLength u) = some u
  found : ∀ j < Text.byteLength u, ∀ place op, next? u j = some (place, op) ↔
    next? t (q + j) = some (q + place, op) ∧ place < Text.byteLength u
  absent : ∀ j < Text.byteLength u, next? u j = none ↔
    ∃ place op, next? t (q + j) = some (place, op) ∧ q + Text.byteLength u ≤ place

theorem searchedAlike {l u after r : Text} (edge : Edge l.reverse)
    (apart : ∀ c ∈ (after ++ ')' :: r).head?, isSecond c = false) :
    SearchedAlike (l ++ (u ++ (after ++ ')' :: r))) (Text.byteLength l) u := by
  constructor
  case part => exact Text.slice?_append l u _
  case found =>
    intro j inside place op
    constructor
    · intro h
      have bounds := nextFrom_bounds h
      exact ⟨next?_of_part edge apart h, by omega⟩
    · rintro ⟨h, before⟩
      cases here : next? u j with
      | none =>
        have := le_of_next?_none edge apart here h
        omega
      | some result =>
        obtain ⟨place', op'⟩ := result
        obtain ⟨same, rfl⟩ :=
          Prod.mk.inj (Option.some.inj ((next?_of_part edge apart here).symm.trans h))
        rw [Nat.add_left_cancel same]
  case absent =>
    intro j inside
    constructor
    · intro none
      have close : Text.byteLength l + j ≤ Text.byteLength (l ++ (u ++ after)) := by
        rw [Text.byteLength_append, Text.byteLength_append]
        omega
      obtain ⟨place, op, next⟩ := exists_next?_of_close _ r close
      rw [List.append_assoc, List.append_assoc] at next
      exact ⟨place, op, next, le_of_next?_none edge apart none next⟩
    · rintro ⟨place, op, h, later⟩
      cases here : next? u j with
      | none => rfl
      | some result =>
        have bounds := nextFrom_bounds here
        obtain ⟨rfl, -⟩ :=
          Prod.mk.inj (Option.some.inj ((next?_of_part edge apart here).symm.trans h))
        omega

end Operator

namespace Arguments

def placed : (start : Nat) → List Text → List (Nat × Text)
  | _, [] => []
  | start, u :: us => (start, u) :: placed (start + Text.byteLength u + 1) us

theorem exists_of_mem_placed {start q : Nat} {us : List Text} {u : Text}
    (h : (q, u) ∈ placed start us) (vs : List Text) {o : Char} (opens : o = '(' ∨ o = ',') :
    ∃ l c after, o :: Text.join [','] (us ++ vs) = l ++ c :: (u ++ after) ∧
      start + Text.byteLength l = q ∧ (c = '(' ∨ c = ',') ∧ ∀ d ∈ after.head?, d = ',' := by
  induction us generalizing start o with
  | nil => cases h
  | cons w us ih =>
    have cut (more : us ++ vs ≠ []) :
        Text.join [','] (w :: us ++ vs) = w ++ ',' :: Text.join [','] (us ++ vs) := by
      obtain ⟨v, rest, shape⟩ := List.exists_cons_of_ne_nil more
      rw [List.cons_append, shape, Text.join, List.append_assoc]
      rfl
    rcases List.mem_cons.mp h with first | later
    · obtain ⟨rfl, rfl⟩ := Prod.mk.inj first
      by_cases more : us ++ vs = []
      · refine ⟨[], o, [], ?_, rfl, opens, by simp⟩
        rw [List.cons_append, more, List.append_nil]
        rfl
      · refine ⟨[], o, ',' :: Text.join [','] (us ++ vs), ?_, rfl, opens, by simp⟩
        rw [cut more]
        rfl
    · obtain ⟨l, c, after, whole, place, marks⟩ := ih later (.inr rfl)
      have more : us ++ vs ≠ [] := by
        intro none
        rw [(List.append_eq_nil_iff.mp none).1] at later
        cases later
      have width : o.utf8Size = 1 := by
        rcases opens with rfl | rfl <;> rfl
      refine ⟨o :: (w ++ l), c, after, ?_, ?_, marks⟩
      · rw [cut more, whole, List.cons_append, List.append_assoc]
      · rw [Text.byteLength_cons, Text.byteLength_append, width]
        omega

theorem searchedAlike_placed {l a r : Text} {q : Nat} {u : Text}
    (h : (q, u) ∈ placed (Text.byteLength l + 1) (ofText a)) :
    Operator.SearchedAlike (l ++ '(' :: (a ++ ')' :: r)) q u := by
  obtain ⟨vs, pieces⟩ : ofText a <+: pieces 0 a := List.takeWhile_prefix _
  obtain ⟨before, c, after, whole, place, opens, closes⟩ := exists_of_mem_placed h vs (.inl rfl)
  rw [pieces, join_pieces] at whole
  have edge : Operator.Edge (l ++ before ++ [c]).reverse := by
    rw [List.reverse_concat]
    rintro d ⟨⟩
    rcases opens with rfl | rfl <;> decide
  have apart : ∀ d ∈ (after ++ ')' :: r).head?, Operator.isSecond d = false := by
    cases after with
    | nil =>
      rintro d ⟨⟩
      rfl
    | cons e after =>
      rintro d ⟨⟩
      rw [closes e rfl]
      rfl
  have start : Text.byteLength (l ++ before ++ [c]) = q := by
    have width : Text.byteLength [c] = 1 := by
      rcases opens with rfl | rfl <;> rfl
    rw [Text.byteLength_append, Text.byteLength_append, width]
    omega
  have shape : l ++ '(' :: (a ++ ')' :: r) =
      (l ++ before ++ [c]) ++ (u ++ (after ++ ')' :: r)) := by
    rw [← List.cons_append, whole]
    simp
  rw [shape, ← start]
  exact Operator.searchedAlike edge apart

end Arguments

namespace Lexeme

def arguments? : Lexeme → Option Text
  | arguments _ _ a => some a
  | _ => none

theorem exists_of_arguments {t a : Text} {opening closing : Nat}
    (mem : .arguments opening closing a ∈ ofText t) :
    ∃ l r, t = l ++ '(' :: (a ++ ')' :: r) ∧ Text.byteLength l = opening ∧
      closing = opening + 1 + Text.byteLength a := by
  obtain ⟨l, rest, whole, place, same⟩ := (lexes_ofText_iff.mpr rfl).eq_ofParenthesis mem rfl
  rw [ofParenthesis] at same
  cases cut : Text.untilClose 0 rest with
  | none =>
    rw [cut] at same
    cases same
  | some parts =>
    obtain ⟨a', r⟩ := parts
    rw [cut] at same
    cases same
    obtain ⟨rfl, -⟩ := Text.untilClose_eq_some.mp cut
    exact ⟨l, r, whole, by omega, rfl⟩

end Lexeme

namespace Formula

def arguments? : Formula → Option Text
  | call _ a _ => some a
  | _ => none

namespace Stacks

theorem read_arguments? {l : Lexeme} {s s' : Stacks} (h : s.read l = .ok s') (sound : s.Sound) :
    (stacked s'.operands).filterMap arguments? =
      (stacked s.operands).filterMap arguments? ++ l.arguments?.toList := by
  cases l with
  | operand start t =>
    obtain ⟨-, rfl⟩ := readOperand_ok h
    rw [stacked_cons, List.filterMap_append]
    rfl
  | operator start op =>
    rw [readOperator_stacked h sound]
    exact (List.append_nil _).symm
  | arguments opening closing a =>
    obtain ⟨name, sign, rest, function, -, named, rfl⟩ := readArguments_ok h
    rw [named, stacked_cons, stacked_cons, List.filterMap_append, List.filterMap_append,
      List.append_assoc]
    rfl
  | unclosed opening => cases h

theorem run_arguments? {ls : List Lexeme} {s s' : Stacks} (run : ls.foldlM read s = .ok s')
    (sound : s.Sound) (signed : s.Signed) :
    (stacked s'.operands).filterMap arguments? =
      (stacked s.operands).filterMap arguments? ++ ls.filterMap Lexeme.arguments? := by
  induction ls generalizing s with
  | nil =>
    cases run
    exact (List.append_nil _).symm
  | cons l ls ih =>
    rw [List.foldlM_cons] at run
    obtain ⟨s'', here, run⟩ := exists_of_bind_eq_ok run
    obtain ⟨sound'', signed''⟩ := read_signed here sound signed
    rw [ih run sound'' signed'', read_arguments? here sound, List.append_assoc]
    congr 1
    cases found : l.arguments? <;> simp [found]

end Stacks

/-- The calls that are read in a text and their arguments. `reads` holds of every state on the way,
also in a text that is refused in the end. -/
structure ArgumentsSearched (t : Text) : Prop where
  reads : ∀ ls s, ls <+: Lexeme.ofText t → ls.foldlM Stacks.read .empty = .ok s →
    (stacked s.operands).filterMap arguments? = ls.filterMap Lexeme.arguments?
  calls : ∀ f, ofText t = .ok f →
    f.leaves.filterMap arguments? = (Lexeme.ofText t).filterMap Lexeme.arguments?
  places : ∀ opening closing a, .arguments opening closing a ∈ Lexeme.ofText t →
    t.slice? (opening + 1) closing = some a
  alike : ∀ opening closing a, .arguments opening closing a ∈ Lexeme.ofText t →
    ∀ q u, (q, u) ∈ Arguments.placed (opening + 1) (Arguments.ofText a) →
      Operator.SearchedAlike t q u

/-- In each argument of each call the next operator is the same whether the argument is looked at
alone or where it stands in the text. -/
theorem argumentsSearched (t : Text) : ArgumentsSearched t := by
  have reads {ls : List Lexeme} {s : Stacks} (run : ls.foldlM Stacks.read .empty = .ok s) :
      (stacked s.operands).filterMap arguments? = ls.filterMap Lexeme.arguments? :=
    Stacks.run_arguments? run Stacks.empty_sound Stacks.empty_signed
  constructor
  case reads => exact fun ls s _ run => reads run
  case calls =>
    intro f h
    obtain ⟨s, run, finished⟩ := exists_of_bind_eq_ok h
    rw [(finish_stacked finished (Stacks.run_signed run).1).2, reads run]
  case places =>
    intro opening closing a mem
    obtain ⟨l, r, rfl, rfl, rfl⟩ := Lexeme.exists_of_arguments mem
    have width : Text.byteLength (l ++ ['(']) = Text.byteLength l + 1 := Text.byteLength_append _ _
    have slice := Text.slice?_append (l ++ ['(']) a (')' :: r)
    rwa [width, List.append_assoc] at slice
  case alike =>
    intro opening closing a mem q u part
    obtain ⟨l, r, rfl, rfl, -⟩ := Lexeme.exists_of_arguments mem
    exact Arguments.searchedAlike_placed part

-- Neither alone nor behind the parenthesis is there a digit that makes the `e` an exponent.
example : Operator.next? "e-2".toList 0 = some (1, .minus) ∧
    Operator.next? "abs(e-2)".toList 4 = some (5, .minus) := ⟨rfl, rfl⟩

end Formula

end FormulaMigration
