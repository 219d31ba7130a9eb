import FormulaMigration.Proofs.Blanks
import FormulaMigration.Proofs.ClosingParenthesis
import FormulaMigration.Proofs.Slices

/-!
Reading a formula with a cursor that jumps from byte to byte and slices the text in between. Main
statements: a round of the loop moves the cursor from a boundary to a later one or refuses the text,
and the loop reads the lexemes of the text one after the other.
-/

namespace FormulaMigration

namespace Lexeme

def after (l : Text) (named : Bool) (r : Text) : List Lexeme :=
  ofScan (Text.byteLength l) (.outside named) (Scan.ofTextAfter l.reverse 0 r)

theorem after_nil (l : Text) (named : Bool) : after l named [] = [] := rfl

theorem after_blank {c : Char} (h : isBlank c) (l : Text) (named : Bool) (r : Text) :
    after l named (c :: r) = after (l ++ [c]) named r := by
  have blank : ∀ d ∈ [c], isBlank d := List.forall_mem_singleton.mpr h
  have cut := Scan.ofTextAfter_absent (Operator.absentFrom_blank blank l.reverse r)
  rw [List.singleton_append] at cut
  rw [after, cut, ofScan_blank blank, after, Text.byteLength_append, List.reverse_append]

theorem after_last {l gap : Text} (absent : Operator.AbsentFrom l.reverse gap []) (named : Bool) :
    after l named gap = ofGap (Text.byteLength l) gap :=
  ofScan_last _ named absent

theorem ofGap_of_not_isBlank {d : Char} (h : isBlank d = false) (start : Nat) (gap : Text) :
    ofGap start (d :: gap) = [.operand start (d :: gap)] := by
  simp [ofGap, isOperand, h, Text.byteLength]

theorem after_gap {l gap rest : Text} {op : Operator}
    (absent : Operator.AbsentFrom l.reverse gap (op.symbol ++ rest))
    (first : Operator.at? (gap.reverse ++ l.reverse) (op.symbol ++ rest) = some op)
    (filled : isOperand gap) (named : Bool) :
    after l named (gap ++ (op.symbol ++ rest)) =
      ofGap (Text.byteLength l) gap ++ after (l ++ gap) true (op.symbol ++ rest) := by
  rw [after, after, List.reverse_append, Scan.ofTextAfter_absent absent,
    Scan.ofTextAfter_operator first, Scan.prepend, ofScan, ofScan, List.append_nil, filled,
    Text.byteLength_append]
  simp [ofGap, isOperand, Text.byteLength]

theorem after_operator {l rest : Text} {op : Operator} {named : Bool}
    (first : Operator.at? l.reverse (op.symbol ++ rest) = some op)
    (uncalled : op = .openGroup → named = false) :
    after l named (op.symbol ++ rest) = .operator (Text.byteLength l) op ::
      after (l ++ op.symbol) (op = .closeGroup && named) rest := by
  have none := Operator.absentFrom_nil l.reverse (op.symbol ++ rest)
  have cut : after l named (op.symbol ++ rest) = _ :=
    ofScan_operator _ none first (by simpa [isOperand] using uncalled)
  rw [cut, after, Text.byteLength_append, List.reverse_append]
  simp [ofGap, isOperand, Text.byteLength]

theorem after_call (l rest : Text) :
    after l true ('(' :: rest) =
      match Text.untilClose 0 rest with
      | none => [.unclosed (Text.byteLength l)]
      | some (a, rest) => .arguments (Text.byteLength l)
          (Text.byteLength l + 1 + Text.byteLength a) a ::
            after (l ++ '(' :: (a ++ [')'])) false rest := by
  have none := Operator.absentFrom_nil l.reverse ('(' :: rest)
  have cut : after l true ('(' :: rest) = _ := ofScan_call _ none rfl
  rw [cut]
  cases closed : Text.untilClose 0 rest with
  | none => rfl
  | some parts =>
    have width (a : Text) : Text.byteLength (l ++ '(' :: (a ++ [')'])) =
        Text.byteLength l + 1 + Text.byteLength a + 1 := by
      rw [Text.byteLength_append, Text.byteLength_call, Text.byteLength]
      omega
    simp [after, width, ofCall, ofGap, isOperand, Text.byteLength]

end Lexeme

namespace Formula

inductive Stop
  | fault (f : Fault)
  | refused (e : FormulaError)
deriving DecidableEq

structure Cursor where
  index : Nat
  named : Bool
  state : Stacks

namespace Cursor

def start : Cursor :=
  ⟨0, false, .empty⟩

def takeOperand (t : Text) (last : Nat) (c : Cursor) : Except Stop Cursor := do
  let value ← (t.cut c.index last).mapError .fault
  let s ← (c.state.readOperand c.index value).mapError .refused
  .ok ⟨last, true, s⟩

def takeCall (t : Text) (c : Cursor) : Except Stop Cursor :=
  match Operator.closing? t 1 c.index with
  | none => .error (.refused (.callNotClosed c.index))
  | some closing => do
    let arguments ← (t.cut (c.index + 1) closing).mapError .fault
    let s ← (c.state.readArguments closing arguments).mapError .refused
    .ok ⟨closing + 1, false, s⟩

def takeOperator (t : Text) (op : Operator) (c : Cursor) : Except Stop Cursor :=
  if op = .openGroup ∧ c.named = true then c.takeCall t
  else do
    let s ← (c.state.readOperator c.index op).mapError .refused
    .ok ⟨c.index + Text.byteLength op.symbol, op = .closeGroup && c.named, s⟩

def isBlankByte (b : UInt8) : Bool :=
  b == 0x20 || b == 0x09 || b == 0x0A || b == 0x0D

/-- A round of the loop: passes a blank, or takes what stands up to the next operator and, where
nothing else is left before it, the operator. -/
def round (t : Text) (c : Cursor) : Except Stop Cursor :=
  if (Text.encode t)[c.index]?.any isBlankByte then .ok { c with index := c.index + 1 }
  else
    match Operator.next? t c.index with
    | none => c.takeOperand t (Text.byteLength t)
    | some (place, op) => do
      let c ← if c.index < place then c.takeOperand t place else .ok c
      if c.index = place then c.takeOperator t op else .ok c

def rounds (t : Text) : (n : Nat) → Cursor → Except Stop Cursor
  | 0, c => if c.index < Text.byteLength t then .error (.fault .endless) else .ok c
  | n + 1, c =>
    if c.index < Text.byteLength t then do rounds t n (← c.round t) else .ok c

def run (t : Text) (n : Nat) : Except Stop Formula := do
  let c ← start.rounds t n
  (c.state.finish c.index).mapError .refused

inductive Reached (t : Text) : Cursor → Prop
  | start : Reached t start
  | round {c c' : Cursor} (h : Reached t c) (more : c.index < Text.byteLength t)
      (next : c.round t = .ok c') : Reached t c'

def remaining (l r : Text) (c : Cursor) : Except FormulaError Stacks :=
  (Lexeme.after l c.named r).foldlM Stacks.read c.state

/-- From behind `l` in the text `l ++ r` the cursor moves on by some of `r`, and what it will read
is the same as before, or it is refused where the lexemes are. -/
inductive Advances (l r : Text) (c : Cursor) : Except Stop Cursor → Prop
  | refused {e : FormulaError} (fails : c.remaining l r = .error e) :
      Advances l r c (.error (.refused e))
  | moved {p r' : Text} {c' : Cursor} (whole : r = p ++ r') (filled : p ≠ [])
      (place : c'.index = Text.byteLength (l ++ p))
      (same : c'.remaining (l ++ p) r' = c.remaining l r) : Advances l r c (.ok c')

variable {l r p : Text} {c c' : Cursor} {named : Bool} {lexeme : Lexeme}

theorem remaining_cons (first : Lexeme.after l c.named (p ++ r) =
    lexeme :: Lexeme.after (l ++ p) named r) :
    c.remaining l (p ++ r) = (do
      let s ← c.state.read lexeme
      remaining (l ++ p) r ⟨Text.byteLength (l ++ p), named, s⟩) := by
  rw [remaining, first]
  rfl

theorem advances_of_lexeme (filled : p ≠ []) (first : Lexeme.after l c.named (p ++ r) =
    lexeme :: Lexeme.after (l ++ p) named r) :
    Advances l (p ++ r) c (do
      let s ← (c.state.read lexeme).mapError .refused
      .ok ⟨Text.byteLength (l ++ p), named, s⟩) := by
  have rest := remaining_cons first
  cases reading : c.state.read lexeme with
  | error e =>
    rw [reading] at rest
    exact .refused rest
  | ok s =>
    rw [reading] at rest
    exact .moved rfl filled rfl rest.symm

theorem Advances.trans {r' : Text} {out : Except Stop Cursor} (whole : r = p ++ r')
    (same : c'.remaining (l ++ p) r' = c.remaining l r) (h : Advances (l ++ p) r' c' out) :
    Advances l r c out := by
  cases h with
  | refused fails => exact .refused (same.symm.trans fails)
  | @moved p' r'' _ whole' filled place same' =>
    have parts : r = (p ++ p') ++ r'' := by rw [whole, whole', List.append_assoc]
    refine .moved parts (by simp [filled]) ?_ ?_
    · rw [place, List.append_assoc]
    · rw [← List.append_assoc, same', same]

theorem takeOperand_eq (place : c.index = Text.byteLength l) :
    c.takeOperand (l ++ (p ++ r)) (Text.byteLength (l ++ p)) = (do
      let s ← (c.state.read (.operand (Text.byteLength l) p)).mapError .refused
      .ok ⟨Text.byteLength (l ++ p), true, s⟩) := by
  have slice : (l ++ (p ++ r)).cut (Text.byteLength l) (Text.byteLength (l ++ p)) = .ok p :=
    Text.cut_append rfl (Text.byteLength_append l p).symm
  rw [takeOperand, place, slice]
  rfl

theorem takeCall_advances (place : c.index = Text.byteLength l) (named : c.named = true) :
    Advances l ('(' :: r) c (c.takeCall (l ++ '(' :: r)) := by
  have closing : Operator.closing? (l ++ '(' :: r) 1 (Text.byteLength l) = _ :=
    Operator.closing?_eq 0 l r rfl
  have next := Lexeme.after_call l r
  rw [← named] at next
  rw [takeCall, place, closing]
  cases closed : Text.untilClose 0 r with
  | none =>
    rw [closed] at next
    apply Advances.refused
    rw [remaining, next]
    rfl
  | some parts =>
    obtain ⟨a, rest⟩ := parts
    obtain ⟨rfl, -⟩ := Text.untilClose_eq_some.mp closed
    rw [closed] at next
    have slice : (l ++ '(' :: (a ++ ')' :: rest)).cut (Text.byteLength l + 1)
        (Text.byteLength l + 1 + Text.byteLength a) = .ok a := by
      have behind : Text.byteLength l + 1 = Text.byteLength (l ++ ['(']) := by
        rw [Text.byteLength_append]
        rfl
      rw [behind]
      exact Text.cut_append (r := ')' :: rest) (by simp) rfl
    have width : Text.byteLength l + 1 + Text.byteLength a + 1 =
        Text.byteLength (l ++ '(' :: (a ++ [')'])) := by
      rw [Text.byteLength_append, Text.byteLength_call, Text.byteLength]
      omega
    have whole : '(' :: (a ++ ')' :: rest) = '(' :: (a ++ [')']) ++ rest := by simp
    have step := advances_of_lexeme (c := c) (l := l) (p := '(' :: (a ++ [')'])) (r := rest)
      (List.cons_ne_nil _ _) (by rw [← whole, next])
    rw [← whole, ← width] at step
    dsimp only [Option.map_some]
    rw [slice]
    exact step

theorem takeOperator_advances {op : Operator} (place : c.index = Text.byteLength l)
    (first : Operator.at? l.reverse (op.symbol ++ r) = some op) :
    Advances l (op.symbol ++ r) c (c.takeOperator (l ++ (op.symbol ++ r)) op) := by
  unfold takeOperator
  split_ifs with called
  · obtain ⟨rfl, named⟩ := called
    exact takeCall_advances place named
  · have uncalled : op = .openGroup → c.named = false := by simpa using called
    have step := advances_of_lexeme (c := c) op.symbol_ne_nil (Lexeme.after_operator first uncalled)
    rw [Text.byteLength_append, ← place] at step
    exact step

theorem byte_isBlank (l r : Text) (d : Char) :
    (Text.encode (l ++ d :: r))[Text.byteLength l]?.any isBlankByte = isBlank d := by
  obtain ⟨b, bs, bytes, -⟩ := Text.exists_encodeChar d
  have here : (Text.encode (l ++ d :: r))[Text.byteLength l]? = some b := by
    rw [Text.encode_append, ← Text.length_encode, List.getElem?_append_right (Nat.le_refl _),
      Nat.sub_self, Text.encode_cons, bytes]
    rfl
  rw [here, Option.any_some, Bool.eq_iff_iff]
  constructor
  · intro blank
    have same (e : Char) (ascii : b.toNat < 0x80)
        (code : e.toNat = b.toNat) : d = e := by
      have mem : b ∈ Text.encodeChar d := by simp [bytes]
      exact Char.toNat_inj.mp ((Text.toNat_of_mem_encodeChar mem ascii).trans code.symm)
    simp only [isBlankByte, Bool.or_eq_true, beq_iff_eq] at blank
    rcases blank with ((rfl | rfl) | rfl) | rfl
    · rw [same ' ' (by decide) rfl]
      rfl
    · rw [same '\t' (by decide) rfl]
      rfl
    · rw [same '\n' (by decide) rfl]
      rfl
    · rw [same '\r' (by decide) rfl]
      rfl
  · intro blank
    simp only [isBlank, Bool.or_eq_true, beq_iff_eq] at blank
    rcases blank with ((rfl | rfl) | rfl) | rfl <;> cases bytes <;> rfl

theorem passBlank_advances {d : Char} (place : c.index = Text.byteLength l) (blank : isBlank d) :
    Advances l (d :: r) c (.ok { c with index := c.index + 1 }) := by
  have width : d.utf8Size = 1 := by
    simp only [isBlank, Bool.or_eq_true, beq_iff_eq] at blank
    rcases blank with ((rfl | rfl) | rfl) | rfl <;> rfl
  refine .moved (p := [d]) rfl (List.cons_ne_nil _ _) ?_ ?_
  · rw [place, Text.byteLength_append, Text.byteLength_cons, width]
    rfl
  · rw [remaining, remaining, Lexeme.after_blank blank]

theorem takeLast_advances {d : Char} {gap : Text} (place : c.index = Text.byteLength l)
    (filled : isBlank d = false) (absent : Operator.AbsentFrom l.reverse (d :: gap) []) :
    Advances l (d :: gap) c
      (c.takeOperand (l ++ d :: gap) (Text.byteLength (l ++ d :: gap))) := by
  have lexeme : Lexeme.after l c.named ((d :: gap) ++ []) =
      .operand (Text.byteLength l) (d :: gap) :: Lexeme.after (l ++ d :: gap) true [] := by
    rw [List.append_nil, Lexeme.after_last absent, Lexeme.ofGap_of_not_isBlank filled,
      Lexeme.after_nil]
  have step := advances_of_lexeme (c := c) (List.cons_ne_nil _ _) lexeme
  have taken := takeOperand_eq (l := l) (p := d :: gap) (r := []) place
  rw [← taken, List.append_nil] at step
  exact step

theorem takeBoth_advances {d : Char} {gap : Text} {op : Operator}
    (place : c.index = Text.byteLength l) (filled : isBlank d = false)
    (absent : Operator.AbsentFrom l.reverse (d :: gap) (op.symbol ++ r))
    (first : Operator.at? ((d :: gap).reverse ++ l.reverse) (op.symbol ++ r) = some op) :
    let t := l ++ ((d :: gap) ++ (op.symbol ++ r))
    let last := Text.byteLength (l ++ d :: gap)
    Advances l ((d :: gap) ++ (op.symbol ++ r)) c (do
      let c ← c.takeOperand t last
      if c.index = last then c.takeOperator t op else .ok c) := by
  have operand : Lexeme.isOperand (d :: gap) := by simp [Lexeme.isOperand, filled]
  have lexeme := Lexeme.after_gap absent first operand c.named
  rw [Lexeme.ofGap_of_not_isBlank filled] at lexeme
  have next := remaining_cons (c := c) lexeme
  dsimp only
  rw [takeOperand_eq place]
  cases reading : c.state.read (.operand (Text.byteLength l) (d :: gap)) with
  | error e =>
    rw [reading] at next
    exact .refused next
  | ok s =>
    rw [reading] at next
    rw [← List.reverse_append] at first
    have behind := takeOperator_advances
      (c := ⟨Text.byteLength (l ++ d :: gap), true, s⟩) rfl first
    rw [List.append_assoc] at behind
    change Advances l _ c (if Text.byteLength (l ++ d :: gap) = _ then _ else _)
    rw [if_pos rfl]
    exact behind.trans rfl next.symm

theorem round_advances (place : c.index = Text.byteLength l) (more : r ≠ []) :
    Advances l r c (c.round (l ++ r)) := by
  obtain ⟨d, r', rfl⟩ := List.exists_cons_of_ne_nil more
  rw [round, place, byte_isBlank]
  split_ifs with blank
  · rw [← place]
    exact passBlank_advances place blank
  rw [Bool.not_eq_true] at blank
  rcases Operator.exists_first l.reverse (d :: r') with
    absent | ⟨gap, op, rest, whole, absent, first⟩
  · have none : Operator.next? (l ++ d :: r') (Text.byteLength l) = none := by
      rw [Operator.next?_append]
      exact (Operator.nextFrom_eq_none_iff _).mpr absent
    rw [none]
    exact takeLast_advances place blank absent
  · have found : Operator.next? (l ++ d :: r') (Text.byteLength l) =
        some (Text.byteLength l + Text.byteLength gap, op) := by
      rw [Operator.next?_append, whole]
      exact Operator.nextFrom_absent _ absent first
    rw [found, whole]
    dsimp only
    rw [← Text.byteLength_append]
    by_cases adjacent : gap = []
    · subst adjacent
      have here : c.index = Text.byteLength (l ++ []) := by rw [List.append_nil, place]
      rw [← place, here, if_neg (Nat.lt_irrefl _)]
      change Advances l _ c (if c.index = _ then _ else _)
      rw [if_pos here]
      exact takeOperator_advances place first
    · have ahead : Text.byteLength l < Text.byteLength (l ++ gap) := by
        have := Text.byteLength_pos adjacent
        rw [Text.byteLength_append]
        omega
      obtain ⟨d', gap', rfl⟩ := List.exists_cons_of_ne_nil adjacent
      obtain ⟨rfl, -⟩ := List.cons.inj whole
      rw [if_pos ahead]
      exact takeBoth_advances place blank absent first

theorem round_of_boundary {t : Text} (h : t.Boundary c.index)
    (more : c.index < Text.byteLength t) :
    (∃ e, c.round t = .error (.refused e)) ∨
      ∃ c', c.round t = .ok c' ∧ c.index < c'.index ∧ t.Boundary c'.index := by
  obtain ⟨l, r, rfl, place⟩ := h
  have left : r ≠ [] := by
    rintro rfl
    rw [List.append_nil, place] at more
    exact Nat.lt_irrefl _ more
  have step := round_advances place.symm left
  generalize c.round (l ++ r) = out at step
  cases step with
  | @refused e fails => exact .inl ⟨e, rfl⟩
  | @moved p r' c' whole filled place' same =>
    have := Text.byteLength_pos filled
    refine .inr ⟨c', rfl, ?_, l ++ p, r', by rw [whole, List.append_assoc], place'.symm⟩
    rw [place', Text.byteLength_append]
    omega

theorem Reached.boundary {t : Text} (h : Reached t c) : t.Boundary c.index := by
  induction h with
  | start => exact ⟨[], t, rfl, rfl⟩
  | @round c c' h more next ih =>
    rcases round_of_boundary ih more with ⟨e, refused⟩ | ⟨c'', moved, -, boundary⟩
    · cases refused.symm.trans next
    · cases moved.symm.trans next
      exact boundary

theorem rounds_done (place : c.index = Text.byteLength l) (n : Nat) :
    c.rounds (l ++ []) n = .ok c := by
  have done : ¬ c.index < Text.byteLength (l ++ []) := by
    rw [List.append_nil, place]
    exact Nat.lt_irrefl _
  cases n <;> rw [rounds, if_neg done]

theorem rounds_eq {n : Nat} (place : c.index = Text.byteLength l) (enough : Text.byteLength r ≤ n) :
    (∃ e, c.rounds (l ++ r) n = .error (.refused e) ∧ c.remaining l r = .error e) ∨
      ∃ c', c.rounds (l ++ r) n = .ok c' ∧ c'.index = Text.byteLength (l ++ r) ∧
        c.remaining l r = .ok c'.state := by
  induction n generalizing l r c with
  | zero =>
    obtain rfl := Text.eq_nil_of_byteLength (Nat.le_zero.mp enough)
    exact .inr ⟨c, rounds_done place 0, by rw [place, List.append_nil], rfl⟩
  | succ n ih =>
    by_cases none : r = []
    · subst none
      exact .inr ⟨c, rounds_done place (n + 1), by rw [place, List.append_nil], rfl⟩
    have inside : c.index < Text.byteLength (l ++ r) := by
      have := Text.byteLength_pos none
      rw [place, Text.byteLength_append]
      omega
    have step := round_advances place none
    rw [rounds, if_pos inside]
    generalize c.round (l ++ r) = out at step
    cases step with
    | @refused e fails => exact .inl ⟨e, rfl, fails⟩
    | @moved p r' c' whole filled place' same =>
      have shorter : Text.byteLength r' ≤ n := by
        have := Text.byteLength_pos filled
        rw [whole, Text.byteLength_append] at enough
        omega
      have rest := ih place' shorter
      rw [same, List.append_assoc, ← whole] at rest
      exact rest

theorem run_eq {t : Text} {n : Nat} (enough : Text.byteLength t ≤ n) :
    run t n = (ofText t).mapError Stop.refused := by
  have start : start.remaining [] t = (Lexeme.ofText t).foldlM Stacks.read .empty := rfl
  have loop := rounds_eq (l := []) (r := t) (c := .start) rfl enough
  rw [start, List.nil_append] at loop
  rw [run, ofText]
  rcases loop with ⟨e, refused, fails⟩ | ⟨c', ends, place, reads⟩
  · rw [refused, fails]
    rfl
  · rw [ends, reads]
    change (c'.state.finish c'.index).mapError Stop.refused = _
    rw [place]
    rfl

end Cursor

end Formula

end FormulaMigration
