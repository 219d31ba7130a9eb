import Mathlib.Tactic.Common
import FormulaMigration.Formula.Reading

/-!
The tokens of a text, as a relation that knows neither places nor stacks. Main statement: a text is
read as tokens exactly when these are its lexemes without their places.
-/

namespace FormulaMigration

inductive Token
  | operand (value : Text)
  | operator (op : Operator)
  | arguments (text : Text)
deriving DecidableEq

namespace Text

def balances (depth : Nat) : Text → Bool
  | [] => depth == 0
  | c :: rest =>
    if c = '(' then balances (depth + 1) rest
    else if c = ')' then depth != 0 && balances (depth - 1) rest
    else balances depth rest

def untilClose (depth : Nat) : Text → Option (Text × Text)
  | [] => none
  | c :: rest =>
    if c = '(' then (untilClose (depth + 1) rest).map fun (a, r) => (c :: a, r)
    else if c = ')' then
      if depth = 0 then some ([], rest)
      else (untilClose (depth - 1) rest).map fun (a, r) => (c :: a, r)
    else (untilClose depth rest).map fun (a, r) => (c :: a, r)

theorem untilClose_eq_some {depth : Nat} {t a rest : Text} :
    untilClose depth t = some (a, rest) ↔ t = a ++ ')' :: rest ∧ balances depth a := by
  induction t generalizing depth a with
  | nil => simp [untilClose]
  | cons c t ih =>
    cases a with
    | nil =>
      simp only [untilClose, balances]
      split_ifs with ho hc hd <;> simp_all
    | cons d a =>
      simp only [untilClose, balances]
      split_ifs with ho hc hd <;> simp_all [Prod.ext_iff] <;> grind

theorem untilClose_append (depth : Nat) {s : Text} (t : Text)
    (hs : ∀ c ∈ s, c ≠ '(' ∧ c ≠ ')') :
    untilClose depth (s ++ t) = (untilClose depth t).map fun (a, r) => (s ++ a, r) := by
  induction s with
  | nil => simp
  | cons c s ih =>
    have hc := hs c (by simp)
    rw [List.cons_append, untilClose, if_neg hc.1, if_neg hc.2, ih fun d hd => hs d (by simp [hd])]
    simp [Function.comp_def]

end Text

namespace Operator

theorem byteLength_symbol_pos (op : Operator) : 0 < Text.byteLength op.symbol := by
  cases op <;> decide

def AbsentFrom (before gap rest : Text) : Prop :=
  ∀ l r, gap = l ++ r → r ≠ [] → at? (l.reverse ++ before) (r ++ rest) = none

theorem absentFrom_nil (before rest : Text) : AbsentFrom before [] rest := by
  intro l r h hr
  simp_all

theorem absentFrom_cons {before gap rest : Text} {c : Char} :
    AbsentFrom before (c :: gap) rest ↔
      at? before (c :: (gap ++ rest)) = none ∧ AbsentFrom (c :: before) gap rest := by
  constructor
  · intro h
    refine ⟨by simpa using h [] (c :: gap) rfl (by simp), fun l r hg hr => ?_⟩
    simpa using h (c :: l) r (by simp [hg]) hr
  · rintro ⟨hc, h⟩ l r hg hr
    cases l with
    | nil =>
      obtain rfl : c :: gap = r := hg
      exact hc
    | cons d l =>
      simp only [List.cons_append, List.cons.injEq] at hg
      simpa [hg.1] using h l r hg.2 hr

theorem absentFrom_append {before gap gap' rest : Text} :
    AbsentFrom before (gap ++ gap') rest ↔
      AbsentFrom before gap (gap' ++ rest) ∧ AbsentFrom (gap.reverse ++ before) gap' rest := by
  induction gap generalizing before with
  | nil => simp [absentFrom_nil]
  | cons c gap ih => simp [absentFrom_cons, ih, and_assoc]

theorem exists_of_at? {before t : Text} {op : Operator} (h : at? before t = some op) :
    ∃ rest, t = op.symbol ++ rest := by
  have stands := List.find?_some h
  simp only [standsAt, Bool.and_eq_true, List.isPrefixOf_iff_prefix] at stands
  obtain ⟨rest, hr⟩ := stands.1
  exact ⟨rest, hr.symm⟩

theorem at?_eq_none_of_head {c : Char} (h : ∀ op : Operator, op.symbol.head? ≠ some c)
    (before rest : Text) : at? before (c :: rest) = none := by
  cases stands : at? before (c :: rest) with
  | none => rfl
  | some op =>
    obtain ⟨behind, whole⟩ := exists_of_at? stands
    obtain ⟨d, symbol, hs⟩ := List.exists_cons_of_ne_nil op.symbol_ne_nil
    rw [hs, List.cons_append, List.cons.injEq] at whole
    exact absurd (by rw [hs, whole.1, List.head?_cons]) (h op)

theorem exists_first (before t : Text) :
    AbsentFrom before t [] ∨ ∃ gap op rest, t = gap ++ (op.symbol ++ rest) ∧
      AbsentFrom before gap (op.symbol ++ rest) ∧
      at? (gap.reverse ++ before) (op.symbol ++ rest) = some op := by
  induction t generalizing before with
  | nil => exact .inl (absentFrom_nil _ _)
  | cons c t ih =>
    cases hc : at? before (c :: t) with
    | some op =>
      obtain ⟨rest, hr⟩ := exists_of_at? hc
      exact .inr ⟨[], op, rest, by simpa using hr, absentFrom_nil _ _, by simpa [← hr] using hc⟩
    | none =>
      rcases ih (c :: before) with h | ⟨gap, op, rest, rfl, h, hop⟩
      · exact .inl (absentFrom_cons.mpr ⟨by simpa using hc, h⟩)
      · exact .inr ⟨c :: gap, op, rest, rfl, absentFrom_cons.mpr ⟨hc, h⟩, by simpa using hop⟩

theorem nextFrom_eq_none_iff {before t : Text} (offset : Nat) :
    nextFrom 0 before offset t = none ↔ AbsentFrom before t [] := by
  induction t generalizing before offset with
  | nil => simp [nextFrom, absentFrom_nil]
  | cons c t ih =>
    rw [absentFrom_cons, List.append_nil, nextFrom, if_pos (Nat.zero_le offset)]
    cases first : at? before (c :: t) with
    | some op => simp
    | none => simpa using ih (offset + c.utf8Size)

theorem nextFrom_absent {before gap rest : Text} {op : Operator} (offset : Nat)
    (absent : AbsentFrom before gap rest) (stands : at? (gap.reverse ++ before) rest = some op) :
    nextFrom 0 before offset (gap ++ rest) = some (offset + Text.byteLength gap, op) := by
  induction gap generalizing before offset with
  | nil =>
    obtain ⟨rest, rfl⟩ := exists_of_at? stands
    obtain ⟨c, symbol, hs⟩ := List.exists_cons_of_ne_nil op.symbol_ne_nil
    rw [hs] at stands ⊢
    simp only [List.reverse_nil, List.nil_append, List.cons_append] at stands ⊢
    rw [nextFrom, if_pos (Nat.zero_le offset), stands]
    rfl
  | cons c gap ih =>
    obtain ⟨first, tail⟩ := absentFrom_cons.mp absent
    rw [List.cons_append, nextFrom, if_pos (Nat.zero_le offset), first]
    rw [List.reverse_cons, List.append_assoc, List.singleton_append] at stands
    simp only [ih (offset + c.utf8Size) tail stands, Text.byteLength, Nat.add_assoc]

theorem nextFrom_of_le {start offset : Nat} (h : start ≤ offset) (before t : Text) :
    nextFrom start before offset t = nextFrom 0 before offset t := by
  induction t generalizing before offset with
  | nil => rfl
  | cons c t ih =>
    rw [nextFrom, nextFrom, if_pos h, if_pos (Nat.zero_le offset), ih (by omega)]

theorem nextFrom_pass {start offset : Nat} {l : Text} (h : offset + Text.byteLength l ≤ start)
    (before t : Text) :
    nextFrom start before offset (l ++ t) =
      nextFrom start (l.reverse ++ before) (offset + Text.byteLength l) t := by
  induction l generalizing before offset with
  | nil => rfl
  | cons c l ih =>
    have := c.utf8Size_pos
    rw [Text.byteLength] at h
    rw [List.cons_append, nextFrom, if_neg (by omega), ih (by omega), Text.byteLength,
      List.reverse_cons, List.append_assoc, Nat.add_assoc]
    rfl

theorem nextFrom_skip (before l t : Text) (offset : Nat) :
    nextFrom (offset + Text.byteLength l) before offset (l ++ t) =
      nextFrom 0 (l.reverse ++ before) (offset + Text.byteLength l) t :=
  (nextFrom_pass (Nat.le_refl _) before t).trans (nextFrom_of_le (Nat.le_refl _) _ t)

theorem next?_append (l t : Text) :
    next? (l ++ t) (Text.byteLength l) = nextFrom 0 l.reverse (Text.byteLength l) t := by
  have skip := nextFrom_skip [] l t 0
  rwa [Nat.zero_add, List.append_nil] at skip

theorem nextFrom_bounds {start offset place : Nat} {before t : Text} {op : Operator}
    (h : nextFrom start before offset t = some (place, op)) :
    start ≤ place ∧ place < offset + Text.byteLength t := by
  induction t generalizing before offset with
  | nil => cases h
  | cons c t ih =>
    have := c.utf8Size_pos
    rw [Text.byteLength]
    rw [nextFrom] at h
    split_ifs at h with reached
    · split at h
      · cases h
        omega
      · have bounds := ih h
        omega
    · have bounds := ih h
      omega

end Operator

namespace Scan

def prepend (gap : Text) : Scan → Scan
  | last gap' => last (gap ++ gap')
  | step gap' op rest => step (gap ++ gap') op rest

theorem ofTextAfter_absent {before gap rest : Text} (h : Operator.AbsentFrom before gap rest) :
    ofTextAfter before 0 (gap ++ rest) =
      (ofTextAfter (gap.reverse ++ before) 0 rest).prepend gap := by
  induction gap generalizing before with
  | nil => cases h : ofTextAfter before 0 rest <;> simp [prepend, h]
  | cons c gap ih =>
    obtain ⟨hc, hg⟩ := Operator.absentFrom_cons.mp h
    rw [List.cons_append, ofTextAfter, hc]
    simp only [ih hg, List.reverse_cons, List.append_assoc, List.singleton_append]
    cases ofTextAfter (gap.reverse ++ c :: before) 0 rest <;> simp [prepend, push]

theorem ofTextAfter_skip (before s t : Text) :
    ofTextAfter before s.length (s ++ t) = ofTextAfter (s.reverse ++ before) 0 t := by
  induction s generalizing before with
  | nil => rfl
  | cons c s ih => simp [ofTextAfter, ih]

theorem ofTextAfter_operator {before rest : Text} {op : Operator}
    (h : Operator.at? before (op.symbol ++ rest) = some op) :
    ofTextAfter before 0 (op.symbol ++ rest) =
      step [] op (ofTextAfter (op.symbol.reverse ++ before) 0 rest) := by
  cases hs : op.symbol with
  | nil => exact absurd hs op.symbol_ne_nil
  | cons c s =>
    rw [hs, List.cons_append] at h
    rw [List.cons_append, ofTextAfter, h]
    simp [hs, ofTextAfter_skip]

end Scan

namespace Operator

theorem eq_paren_of_mem_symbol {op : Operator} {c : Char} (hc : c ∈ op.symbol)
    (hp : c = '(' ∨ c = ')') : op = .openGroup ∨ op = .closeGroup := by
  rcases hp with rfl | rfl <;> cases op <;> simp_all [symbol]

theorem at?_open (before rest : Text) :
    at? before (openGroup.symbol ++ rest) = some .openGroup := rfl

theorem at?_close (before rest : Text) :
    at? before (closeGroup.symbol ++ rest) = some .closeGroup := rfl

theorem AbsentFrom.no_paren {before gap rest : Text} (h : AbsentFrom before gap rest) {c : Char}
    (hc : c ∈ gap) : c ≠ '(' ∧ c ≠ ')' := by
  obtain ⟨l, r, rfl⟩ := List.append_of_mem hc
  have absent := h l (c :: r) rfl (by simp)
  constructor
  · rintro rfl
    cases absent.symm.trans (at?_open (l.reverse ++ before) (r ++ rest))
  · rintro rfl
    cases absent.symm.trans (at?_close (l.reverse ++ before) (r ++ rest))

end Operator

namespace Lexeme

theorem ofScan_prepend (start opening depth : Nat) (gap passed : Text) (s : Scan) :
    ofScan start (.inside opening depth passed) (s.prepend gap) =
      ofScan (start + Text.byteLength gap) (.inside opening depth (gap.reverse ++ passed)) s := by
  cases s <;> simp [Scan.prepend, ofScan, Text.byteLength_append, Nat.add_assoc]

def ofCall (opening start : Nat) (passed before : Text) (closed : Option (Text × Text)) :
    List Lexeme :=
  match closed with
  | none => [unclosed opening]
  | some (a, rest) => arguments opening (start + Text.byteLength a) (passed.reverse ++ a) ::
      ofScan (start + Text.byteLength a + 1) (.outside false)
        (Scan.ofTextAfter (')' :: (a.reverse ++ before)) 0 rest)

theorem ofCall_map (opening start : Nat) (passed before s : Text) (closed : Option (Text × Text)) :
    ofCall opening start passed before (closed.map fun (a, r) => (s ++ a, r)) =
      ofCall opening (start + Text.byteLength s) (s.reverse ++ passed) (s.reverse ++ before)
        closed := by
  cases closed <;> simp [ofCall, Text.byteLength_append, Nat.add_assoc]

theorem ofScan_inside (opening depth start : Nat) (passed before t : Text) :
    ofScan start (.inside opening (depth + 1) passed) (Scan.ofTextAfter before 0 t) =
      ofCall opening start passed before (Text.untilClose depth t) := by
  induction hn : t.length using Nat.strongRecOn generalizing depth start passed before t with
  | ind n ih =>
    rcases Operator.exists_first before t with h | ⟨gap, op, rest, rfl, h, hop⟩
    · have skipped := Text.untilClose_append depth [] fun c hc => h.no_paren hc
      rw [List.append_nil] at skipped
      have cut := Scan.ofTextAfter_absent h
      rw [List.append_nil] at cut
      simp [skipped, cut, Text.untilClose, Scan.ofTextAfter, Scan.prepend, ofScan, ofCall]
    · have shorter : rest.length < n := by
        have := List.length_pos_iff.mpr op.symbol_ne_nil
        simp only [List.length_append] at hn
        omega
      rw [Text.untilClose_append _ _ fun c hc => h.no_paren hc, ofCall_map,
        Scan.ofTextAfter_absent h, ofScan_prepend, Scan.ofTextAfter_operator hop]
      generalize start + Text.byteLength gap = start
      generalize gap.reverse ++ passed = passed
      generalize gap.reverse ++ before = before
      have next (depth : Nat) := ih _ shorter depth (start + Text.byteLength op.symbol)
        (op.symbol.reverse ++ passed) (op.symbol.reverse ++ before) rest rfl
      by_cases opens : op = .openGroup
      · subst opens
        have deeper := ofCall_map opening start passed before ['(']
          (Text.untilClose (depth + 1) rest)
        simpa [ofScan, depthAfter, Text.untilClose, Operator.symbol, Text.byteLength] using
          (next (depth + 1)).trans deeper.symm
      by_cases closes : op = .closeGroup
      · subst closes
        cases depth with
        | zero =>
          have width : (')' : Char).utf8Size = 1 := rfl
          simp [ofScan, depthAfter, Text.untilClose, Operator.symbol, ofCall, Text.byteLength,
            width]
        | succ depth =>
          have back := ofCall_map opening start passed before [')'] (Text.untilClose depth rest)
          simpa [ofScan, depthAfter, Text.untilClose, Operator.symbol, Text.byteLength] using
            (next depth).trans back.symm
      · have plain : ∀ c ∈ op.symbol, c ≠ '(' ∧ c ≠ ')' := fun c hc =>
          ⟨fun h => (Operator.eq_paren_of_mem_symbol hc (.inl h)).elim opens closes,
            fun h => (Operator.eq_paren_of_mem_symbol hc (.inr h)).elim opens closes⟩
        rw [Text.untilClose_append _ _ plain, ofCall_map]
        simpa [ofScan, depthAfter, opens, closes, Text.byteLength] using next depth

theorem ofScan_last {before gap : Text} (start : Nat) (named : Bool)
    (absent : Operator.AbsentFrom before gap []) :
    ofScan start (.outside named) (Scan.ofTextAfter before 0 gap) = ofGap start gap := by
  have cut := Scan.ofTextAfter_absent absent
  rw [List.append_nil] at cut
  simp [cut, Scan.ofTextAfter, Scan.prepend, ofScan]

theorem ofScan_operator {before gap rest : Text} {op : Operator} {named : Bool} (start : Nat)
    (absent : Operator.AbsentFrom before gap (op.symbol ++ rest))
    (first : Operator.at? (gap.reverse ++ before) (op.symbol ++ rest) = some op)
    (uncalled : op = .openGroup → (named || isOperand gap) = false) :
    ofScan start (.outside named) (Scan.ofTextAfter before 0 (gap ++ (op.symbol ++ rest))) =
      ofGap start gap ++ operator (start + Text.byteLength gap) op ::
        ofScan (start + Text.byteLength gap + Text.byteLength op.symbol)
          (.outside (op = .closeGroup && (named || isOperand gap)))
          (Scan.ofTextAfter (op.symbol.reverse ++ (gap.reverse ++ before)) 0 rest) := by
  rw [Scan.ofTextAfter_absent absent, Scan.ofTextAfter_operator first]
  have outside : (op = .openGroup && (named || isOperand gap)) = false := by
    by_cases ho : op = .openGroup
    · simp [ho, uncalled ho]
    · simp [ho]
  simp only [Scan.prepend, List.append_nil, ofScan, outside, Bool.false_eq_true, if_false]

theorem ofScan_call {before gap rest : Text} {named : Bool} (start : Nat)
    (absent : Operator.AbsentFrom before gap ('(' :: rest))
    (called : (named || isOperand gap) = true) :
    ofScan start (.outside named) (Scan.ofTextAfter before 0 (gap ++ '(' :: rest)) =
      ofGap start gap ++ ofCall (start + Text.byteLength gap) (start + Text.byteLength gap + 1) []
        ('(' :: (gap.reverse ++ before)) (Text.untilClose 0 rest) := by
  have opens := Scan.ofTextAfter_operator (Operator.at?_open (gap.reverse ++ before) rest)
  change Scan.ofTextAfter _ _ ('(' :: rest) = _ at opens
  have width : Text.byteLength Operator.openGroup.symbol = 1 := rfl
  rw [Scan.ofTextAfter_absent absent, opens]
  simp [Scan.prepend, ofScan, called, ofScan_inside, width]
  rfl

def token? : Lexeme → Option Token
  | operand _ t => some (.operand t.trim)
  | operator _ op => some (.operator op)
  | arguments _ _ t => some (.arguments t)
  | unclosed _ => none

theorem eq_operand_of_token? {l : Lexeme} {value : Text}
    (h : l.token? = some (.operand value)) : ∃ start t, l = .operand start t ∧ t.trim = value := by
  cases l <;> simp_all [Lexeme.token?]

theorem eq_operator_of_token? {l : Lexeme} {op : Operator}
    (h : l.token? = some (.operator op)) : ∃ start, l = .operator start op := by
  cases l <;> simp_all [Lexeme.token?]

theorem eq_arguments_of_token? {l : Lexeme} {a : Text}
    (h : l.token? = some (.arguments a)) :
    ∃ opening closing, l = .arguments opening closing a := by
  cases l <;> simp_all [Lexeme.token?]

end Lexeme

namespace Token

def ofGap (gap : Text) : List Token :=
  if Lexeme.isOperand gap then [operand gap.trim] else []

end Token

/-- The tokens of a text that stands after `before` (nearest character first): the gaps between its
operators, where they hold more than blanks, the operators and the arguments of calls. `named` says
that an operand came last, closing parentheses aside, so that a `(` starts the arguments of a call;
these go up to the matching `)`. -/
inductive Reads : (named : Bool) → (before t : Text) → List Token → Prop
  | last {named : Bool} {before gap : Text} (absent : Operator.AbsentFrom before gap []) :
      Reads named before gap (Token.ofGap gap)
  | operator {named : Bool} {before gap rest : Text} {op : Operator} {ts : List Token}
      (absent : Operator.AbsentFrom before gap (op.symbol ++ rest))
      (first : Operator.at? (gap.reverse ++ before) (op.symbol ++ rest) = some op)
      (uncalled : op = .openGroup → (named || Lexeme.isOperand gap) = false)
      (tail : Reads (op = .closeGroup && (named || Lexeme.isOperand gap))
        (op.symbol.reverse ++ (gap.reverse ++ before)) rest ts) :
      Reads named before (gap ++ (op.symbol ++ rest)) (Token.ofGap gap ++ .operator op :: ts)
  | call {named : Bool} {before gap a rest : Text} {ts : List Token}
      (absent : Operator.AbsentFrom before gap ('(' :: (a ++ ')' :: rest)))
      (called : (named || Lexeme.isOperand gap) = true)
      (matching : a.balances 0)
      (tail : Reads false (')' :: (a.reverse ++ '(' :: (gap.reverse ++ before))) rest ts) :
      Reads named before (gap ++ '(' :: (a ++ ')' :: rest)) (Token.ofGap gap ++ .arguments a :: ts)

namespace Reads

theorem trim_dropWhile_isBlank (t : Text) : Text.trim (t.dropWhile isBlank) = t.trim := by
  induction t with
  | nil => rfl
  | cons c t ih =>
    by_cases hc : isBlank c
    · have hw := isWhiteSpace_of_isBlank hc
      rw [List.dropWhile_cons_of_pos hc, ih]
      simp [Text.trim, hw]
    · rw [List.dropWhile_cons_of_neg hc]

theorem map_token?_ofGap (start : Nat) (gap : Text) :
    (Lexeme.ofGap start gap).map Lexeme.token? = (Token.ofGap gap).map some := by
  unfold Lexeme.ofGap Token.ofGap
  split_ifs <;> simp [Lexeme.token?, trim_dropWhile_isBlank]

theorem map_token? {named : Bool} {before t : Text} {ts : List Token}
    (h : Reads named before t ts) (start : Nat) :
    (Lexeme.ofScan start (.outside named) (Scan.ofTextAfter before 0 t)).map Lexeme.token? =
      ts.map some := by
  induction h generalizing start with
  | last absent => rw [Lexeme.ofScan_last _ _ absent, map_token?_ofGap]
  | operator absent first uncalled tail ih =>
    rw [Lexeme.ofScan_operator _ absent first uncalled]
    simp [map_token?_ofGap, Lexeme.token?, ih]
  | @call named before gap a rest ts absent called matching tail ih =>
    have closed : Text.untilClose 0 (a ++ ')' :: rest) = some (a, rest) :=
      Text.untilClose_eq_some.mpr ⟨rfl, matching⟩
    rw [Lexeme.ofScan_call _ absent called, closed]
    simp [Lexeme.ofCall, map_token?_ofGap, Lexeme.token?, ih]

theorem exists_of_closed (start : Nat) (named : Bool) (before t : Text) :
    (∃ ts, Reads named before t ts) ∨
      ∃ opening, Lexeme.unclosed opening ∈
        Lexeme.ofScan start (.outside named) (Scan.ofTextAfter before 0 t) := by
  induction hn : t.length using Nat.strongRecOn generalizing start named before t with
  | ind n ih =>
    rcases Operator.exists_first before t with absent | ⟨gap, op, rest, rfl, absent, first⟩
    · exact .inl ⟨_, .last absent⟩
    by_cases called : op = .openGroup ∧ (named || Lexeme.isOperand gap) = true
    · obtain ⟨rfl, called⟩ := called
      change Operator.AbsentFrom before gap ('(' :: rest) at absent
      change _ ∨ ∃ opening, Lexeme.unclosed opening ∈ Lexeme.ofScan start _
        (Scan.ofTextAfter before 0 (gap ++ '(' :: rest))
      rw [Lexeme.ofScan_call _ absent called]
      cases hc : Text.untilClose 0 rest with
      | none => exact .inr ⟨start + Text.byteLength gap, by simp [Lexeme.ofCall]⟩
      | some cut =>
        obtain ⟨a, after⟩ := cut
        obtain ⟨rfl, matching⟩ := Text.untilClose_eq_some.mp hc
        have shorter : after.length < n := by
          simp only [List.length_append, List.length_cons] at hn
          omega
        have tail := ih _ shorter (start + Text.byteLength gap + 1 + Text.byteLength a + 1) false
          (')' :: (a.reverse ++ '(' :: (gap.reverse ++ before))) after rfl
        rcases tail with ⟨ts, h⟩ | ⟨opening, h⟩
        · exact .inl ⟨_, .call absent called matching h⟩
        · exact .inr ⟨opening, by simp [Lexeme.ofCall, h]⟩
    · have uncalled : op = .openGroup → (named || Lexeme.isOperand gap) = false := fun ho => by
        simpa [ho] using called
      rw [Lexeme.ofScan_operator _ absent first uncalled]
      have shorter : rest.length < n := by
        have := List.length_pos_iff.mpr op.symbol_ne_nil
        simp only [List.length_append] at hn
        omega
      rcases ih _ shorter (start + Text.byteLength gap + Text.byteLength op.symbol) _
        (op.symbol.reverse ++ (gap.reverse ++ before)) rest rfl with ⟨ts, h⟩ | ⟨opening, h⟩
      · exact .inl ⟨_, .operator absent first uncalled h⟩
      · exact .inr ⟨opening, by simp [h]⟩

end Reads

theorem reads_iff (start : Nat) {named : Bool} {before t : Text} {ts : List Token} :
    Reads named before t ts ↔
      (Lexeme.ofScan start (.outside named) (Scan.ofTextAfter before 0 t)).map Lexeme.token? =
        ts.map some := by
  constructor
  · intro h
    exact h.map_token? start
  · intro h
    rcases Reads.exists_of_closed start named before t with ⟨ts', h'⟩ | ⟨opening, hu⟩
    · have same := (h'.map_token? start).symm.trans h
      rw [(List.map_inj_right fun _ _ => Option.some.inj).mp same] at h'
      exact h'
    · have absurd := List.mem_map_of_mem (f := Lexeme.token?) hu
      rw [h] at absurd
      simp [Lexeme.token?] at absurd

theorem reads_ofText_iff {t : Text} {ts : List Token} :
    Reads false [] t ts ↔ (Lexeme.ofText t).map Lexeme.token? = ts.map some :=
  reads_iff 0

theorem Reads.eq_iff {t : Text} {ts us : List Token} (h : Reads false [] t ts) :
    Reads false [] t us ↔ us = ts := by
  rw [reads_ofText_iff, reads_ofText_iff.mp h]
  constructor
  · intro same
    exact (List.map_inj_right fun _ _ => Option.some.inj).mp same.symm
  · rintro rfl
    rfl

end FormulaMigration
