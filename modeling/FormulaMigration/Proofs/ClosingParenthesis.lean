import Mathlib.Order.Bounds.Basic
import FormulaMigration.Proofs.Calls
import FormulaMigration.Proofs.UnmatchedClose
import FormulaMigration.Proofs.Utf8

namespace FormulaMigration

namespace Text

def parentheses (bs : Bytes) : Nat × Nat :=
  (bs.count 0x28, bs.count 0x29)

theorem parentheses_append (as bs : Bytes) :
    parentheses (as ++ bs) =
      ((parentheses as).1 + (parentheses bs).1, (parentheses as).2 + (parentheses bs).2) := by
  simp [parentheses]

theorem parentheses_plain {c : Char} (h : c ≠ '(' ∧ c ≠ ')') {bs : Bytes}
    (part : bs ⊆ encodeChar c) : parentheses bs = (0, 0) := by
  have other {d : Char} {b : UInt8} (hd : c ≠ d) (ascii : b.toNat < 0x80)
      (same : d.toNat = b.toNat) : bs.count b = 0 := by
    apply List.count_eq_zero.mpr
    intro mem
    have equal := (toNat_of_mem_encodeChar (part mem) ascii).trans same.symm
    exact hd (Char.toNat_inj.mp equal)
  rw [parentheses, other h.1 (by decide) rfl, other h.2 (by decide) rfl]

theorem parentheses_encode (t : Text) : parentheses (encode t) = (t.count '(', t.count ')') := by
  induction t with
  | nil => rfl
  | cons c t ih =>
    rw [encode_cons, parentheses_append, ih]
    by_cases opens : c = '('
    · subst opens
      rw [List.count_cons_self, List.count_cons_of_ne (by decide), Nat.add_comm]
      change (_, 0 + _) = _
      rw [Nat.zero_add]
      rfl
    by_cases closes : c = ')'
    · subst closes
      rw [List.count_cons_self, List.count_cons_of_ne (by decide), Nat.add_comm _ 1]
      change (0 + _, _) = _
      rw [Nat.zero_add]
      rfl
    · rw [parentheses_plain ⟨opens, closes⟩ (List.Subset.refl _), List.count_cons_of_ne opens,
        List.count_cons_of_ne closes, Nat.zero_add, Nat.zero_add]

theorem exists_prefix_take (t : Text) (k : Nat) :
    ∃ s, s <+: t ∧ parentheses ((encode t).take k) = (s.count '(', s.count ')') := by
  induction t generalizing k with
  | nil => exact ⟨[], List.nil_prefix, by simp [encode, parentheses]⟩
  | cons c t ih =>
    rw [encode_cons]
    by_cases whole : (encodeChar c).length ≤ k
    · obtain ⟨s, start, counts⟩ := ih (k - (encodeChar c).length)
      refine ⟨c :: s, List.cons_prefix_cons.mpr ⟨rfl, start⟩, ?_⟩
      rw [List.take_append, List.take_of_length_le whole, parentheses_append, counts,
        ← parentheses_encode, ← parentheses_append, ← encode_cons, parentheses_encode]
    · -- Only a form of several bytes can be torn, and that is no parenthesis.
      have torn : (encode t).take (k - (encodeChar c).length) = [] := by
        rw [Nat.sub_eq_zero_of_le (Nat.le_of_not_le whole), List.take_zero]
      refine ⟨[], List.nil_prefix, ?_⟩
      rw [List.take_append, torn, List.append_nil]
      by_cases none : k = 0
      · rw [none]
        rfl
      have wide {d : Char} (hd : (encodeChar d).length = 1) : c ≠ d := by
        rintro rfl
        omega
      exact parentheses_plain ⟨wide rfl, wide rfl⟩ (List.take_subset _ _)

def bytesUpTo (t : Text) (first last : Nat) : Bytes :=
  ((encode t).drop first).take (last + 1 - first)

/-- The bytes after `opening` up to which as many parentheses close as open. -/
def evenAfter (t : Text) (opening : Nat) : Set Nat :=
  {c | opening < c ∧ c < byteLength t ∧
    (t.bytesUpTo opening c).count 0x28 = (t.bytesUpTo opening c).count 0x29}

theorem mem_evenAfter {l rest : Text} {c : Nat} :
    c ∈ (l ++ '(' :: rest).evenAfter (byteLength l) ↔
      ∃ k, c = byteLength l + 1 + k ∧ k < byteLength rest ∧
        (parentheses ((encode rest).take (k + 1))).1 + 1 =
          (parentheses ((encode rest).take (k + 1))).2 := by
  have slice (k : Nat) : (l ++ '(' :: rest).bytesUpTo (byteLength l) (byteLength l + 1 + k) =
      0x28 :: (encode rest).take (k + 1) := by
    have length : byteLength l + 1 + k + 1 - byteLength l = k + 1 + 1 := by omega
    rw [bytesUpTo, encode_append, ← length_encode l, List.drop_left, length_encode, length]
    rfl
  have width : byteLength (l ++ '(' :: rest) = byteLength l + 1 + byteLength rest := by
    have one : '('.utf8Size = 1 := rfl
    rw [byteLength_append, byteLength, one]
    omega
  have even (k : Nat) : ((l ++ '(' :: rest).bytesUpTo (byteLength l)
        (byteLength l + 1 + k)).count 0x28 =
          ((l ++ '(' :: rest).bytesUpTo (byteLength l) (byteLength l + 1 + k)).count 0x29 ↔
      (parentheses ((encode rest).take (k + 1))).1 + 1 =
        (parentheses ((encode rest).take (k + 1))).2 := by
    rw [slice, List.count_cons_self, List.count_cons_of_ne (by decide)]
    rfl
  constructor
  · rintro ⟨after, inside, same⟩
    obtain ⟨k, rfl⟩ := Nat.exists_eq_add_of_le (Nat.succ_le_of_lt after)
    rw [width] at inside
    exact ⟨k, rfl, by omega, (even k).mp same⟩
  · rintro ⟨k, rfl, inside, same⟩
    exact ⟨by omega, by rw [width]; omega, (even k).mpr same⟩

theorem isLeast_evenAfter {a : Text} (matching : a.balances 0) (l rest : Text) :
    IsLeast ((l ++ '(' :: (a ++ ')' :: rest)).evenAfter (byteLength l))
      (byteLength l + 1 + byteLength a) := by
  have even : a.count '(' = a.count ')' := count_eq_of_balances matching
  constructor
  · refine mem_evenAfter.mpr ⟨byteLength a, rfl, ?_, ?_⟩
    · have one : ')'.utf8Size = 1 := rfl
      rw [byteLength_append, byteLength, one]
      omega
    · have front : (encode (a ++ ')' :: rest)).take (byteLength a + 1) = encode (a ++ [')']) := by
        have whole : a ++ ')' :: rest = (a ++ [')']) ++ rest := by simp
        have width : byteLength a + 1 = (encode (a ++ [')'])).length := by
          rw [length_encode, byteLength_append]
          rfl
        rw [whole, encode_append, width, List.take_left]
      rw [front, parentheses_encode]
      simp [even]
  · intro c mem
    obtain ⟨k, rfl, -, same⟩ := mem_evenAfter.mp mem
    by_contra short
    have inside : k + 1 ≤ (encode a).length := by
      rw [length_encode]
      omega
    rw [encode_append, List.take_append_of_le_length inside] at same
    obtain ⟨s, start, counts⟩ := a.exists_prefix_take (k + 1)
    have bound := (balances_iff.mp matching).1 s start
    rw [counts] at same
    dsimp only at same
    omega

theorem evenAfter_eq_empty {rest : Text} (never : untilClose 0 rest = none) (l : Text) :
    (l ++ '(' :: rest).evenAfter (byteLength l) = ∅ := by
  apply Set.eq_empty_of_forall_notMem
  intro c mem
  obtain ⟨k, rfl, -, same⟩ := mem_evenAfter.mp mem
  obtain ⟨s, start, counts⟩ := rest.exists_prefix_take (k + 1)
  have bound := untilClose_eq_none_iff.mp never s start
  rw [counts] at same
  dsimp only at same
  omega

end Text

namespace Operator

/-- Goes on from operator to operator until no parenthesis is open any more, and tells the byte of
the last one. `depth` parentheses are open at first, and the operator passed last stands at
`close`. -/
def closing? (t : Text) (depth close : Nat) : Option Nat :=
  if depth = 0 then some close
  else
    match _found : next? t (close + 1) with
    | some (place, op) => closing? t (Lexeme.depthAfter op depth) place
    | none => none
termination_by Text.byteLength t - close
decreasing_by
  have bounds := nextFrom_bounds _found
  omega

theorem closing?_none {t : Text} {depth close : Nat} (h : next? t (close + 1) = none) :
    closing? t (depth + 1) close = none := by
  rw [closing?, if_neg (by omega)]
  split
  · rename_i found
    rw [h] at found
    cases found
  · rfl

theorem closing?_some {t : Text} {depth close place : Nat} {op : Operator}
    (h : next? t (close + 1) = some (place, op)) :
    closing? t (depth + 1) close = closing? t (Lexeme.depthAfter op (depth + 1)) place := by
  rw [closing?, if_neg (by omega)]
  split
  · rename_i found
    rw [h] at found
    cases found
    rfl
  · rename_i found
    rw [h] at found
    cases found

theorem exists_symbol (op : Operator) :
    ∃ c symbol, op.symbol = c :: symbol ∧ c.utf8Size = 1 := by
  cases op <;> exact ⟨_, _, rfl, rfl⟩

theorem untilClose_symbol {op : Operator} {c : Char} {symbol : Text}
    (hs : op.symbol = c :: symbol) (depth : Nat) (rest : Text) :
    Text.untilClose depth (c :: (symbol ++ rest)) =
      match Lexeme.depthAfter op (depth + 1) with
      | 0 => some ([], rest)
      | depth + 1 => (Text.untilClose depth (symbol ++ rest)).map fun (a, r) => (c :: a, r) := by
  by_cases opens : op = .openGroup
  · subst opens
    cases hs
    rfl
  by_cases closes : op = .closeGroup
  · subst closes
    cases hs
    cases depth <;> rfl
  · have plain := plain_symbol opens closes c (by simp [hs])
    rw [Lexeme.depthAfter, if_neg opens, if_neg closes, Text.untilClose, if_neg plain.1,
      if_neg plain.2]

theorem closing?_eq (depth : Nat) (l rest : Text) {c : Char} (single : c.utf8Size = 1) :
    closing? (l ++ c :: rest) (depth + 1) (Text.byteLength l) =
      (Text.untilClose depth rest).map fun (a, _) =>
        Text.byteLength l + 1 + Text.byteLength a := by
  induction hn : rest.length using Nat.strongRecOn generalizing depth l rest c with
  | ind n ih =>
    have passed : l ++ c :: rest = (l ++ [c]) ++ rest := by simp
    have width : Text.byteLength l + 1 = Text.byteLength (l ++ [c]) := by
      rw [Text.byteLength_append, Text.byteLength, single]
      rfl
    rcases exists_first (l ++ [c]).reverse rest with
      absent | ⟨gap, op, rest, rfl, absent, first⟩
    · have plain := Text.untilClose_append depth [] fun c hc => absent.no_paren hc
      rw [List.append_nil] at plain
      have none : next? (l ++ c :: rest) (Text.byteLength l + 1) = none := by
        rw [passed, width, next?_append]
        exact (nextFrom_eq_none_iff _).mpr absent
      rw [closing?_none none, plain]
      rfl
    · have found : next? (l ++ c :: (gap ++ (op.symbol ++ rest))) (Text.byteLength l + 1) =
          some (Text.byteLength l + 1 + Text.byteLength gap, op) := by
        rw [passed, width, next?_append]
        exact nextFrom_absent _ absent first
      rw [closing?_some found, Text.untilClose_append _ _ fun c hc => absent.no_paren hc]
      obtain ⟨d, symbol, hs, single'⟩ := exists_symbol op
      have place : Text.byteLength l + 1 + Text.byteLength gap =
          Text.byteLength (l ++ c :: gap) := by
        rw [Text.byteLength_append, Text.byteLength, single]
        omega
      have whole : l ++ c :: (gap ++ (op.symbol ++ rest)) =
          (l ++ c :: gap) ++ d :: (symbol ++ rest) := by simp [hs]
      have shorter : (symbol ++ rest).length < n := by
        rw [hs] at hn
        simp only [List.length_append, List.length_cons] at hn ⊢
        omega
      rw [whole, place, hs]
      -- The next jump starts behind the first character of this operator.
      have next (depth : Nat) := ih _ shorter depth (l ++ c :: gap) _ single' rfl
      have width (a : Text) : Text.byteLength l + 1 + Text.byteLength (gap ++ d :: a) =
          Text.byteLength (l ++ c :: gap) + 1 + Text.byteLength a := by
        rw [← place, Text.byteLength_append, Text.byteLength, single']
        omega
      rw [List.cons_append, untilClose_symbol hs]
      cases Lexeme.depthAfter op (depth + 1) with
      | zero =>
        rw [closing?, if_pos rfl, ← place]
        simp
      | succ depth =>
        rw [next]
        simp [Function.comp_def, width]

end Operator

namespace Lexeme

def opening? : Lexeme → Option Nat
  | arguments opening _ _ | unclosed opening => some opening
  | _ => none

inductive Starts (t : Text) (opening : Nat) : Lexeme → Prop
  | closed {closing : Nat} {a : Text} (first : IsLeast (t.evenAfter opening) closing)
      (between : Text.encode a = t.bytesUpTo (opening + 1) (closing - 1)) :
      Starts t opening (.arguments opening closing a)
  | never (none : t.evenAfter opening = ∅) : Starts t opening (.unclosed opening)

def ofParenthesis (opening : Nat) (rest : Text) : Lexeme :=
  match Text.untilClose 0 rest with
  | some (a, _) => arguments opening (opening + 1 + Text.byteLength a) a
  | none => unclosed opening

theorem starts_ofParenthesis (l rest : Text) :
    Starts (l ++ '(' :: rest) (Text.byteLength l) (ofParenthesis (Text.byteLength l) rest) := by
  unfold ofParenthesis
  split
  next a after cut =>
    obtain ⟨rfl, matching⟩ := Text.untilClose_eq_some.mp cut
    refine .closed (Text.isLeast_evenAfter matching l after) ?_
    have whole : l ++ '(' :: (a ++ ')' :: after) = (l ++ ['(']) ++ (a ++ ')' :: after) := by simp
    have width : Text.byteLength l + 1 = (Text.encode (l ++ ['('])).length := by
      rw [Text.length_encode, Text.byteLength_append]
      rfl
    have length : Text.byteLength l + 1 + Text.byteLength a - 1 + 1 - (Text.byteLength l + 1) =
        (Text.encode a).length := by
      rw [Text.length_encode]
      omega
    rw [Text.bytesUpTo, length, whole, Text.encode_append, width, List.drop_left,
      Text.encode_append, List.take_left]
  next cut => exact .never (Text.evenAfter_eq_empty cut l)

theorem head?_ofScan_inside (l rest : Text) :
    (ofScan (Text.byteLength l + 1) (.inside (Text.byteLength l) 1 [])
      (Scan.ofTextAfter ('(' :: l.reverse) 0 rest)).head? =
        some (ofParenthesis (Text.byteLength l) rest) := by
  rw [ofScan_inside, ofParenthesis]
  cases Text.untilClose 0 rest <;> rfl

theorem opening?_ofGap {start : Nat} {gap : Text} {lexeme : Lexeme}
    (h : lexeme ∈ ofGap start gap) : lexeme.opening? = none := by
  unfold ofGap at h
  split_ifs at h
  · rw [List.mem_singleton.mp h]
    rfl
  · cases h

end Lexeme

theorem Lexes.eq_ofParenthesis {named : Bool} {before t : Text} {start opening : Nat}
    {ls : List Lexeme} {lexeme : Lexeme} (h : Lexes named before start t ls) (mem : lexeme ∈ ls)
    (opens : lexeme.opening? = some opening) :
    ∃ l rest, t = l ++ '(' :: rest ∧ start + Text.byteLength l = opening ∧
      lexeme = Lexeme.ofParenthesis opening rest := by
  induction h with
  | @last named before gap start absent =>
    rw [Lexeme.opening?_ofGap mem] at opens
    cases opens
  | @operator named before gap rest start op ls absent first uncalled tail ih =>
    rcases List.mem_append.mp mem with mem | mem
    · rw [Lexeme.opening?_ofGap mem] at opens
      cases opens
    rcases List.mem_cons.mp mem with rfl | mem
    · cases opens
    obtain ⟨l, rest, rfl, place, same⟩ := ih mem
    refine ⟨gap ++ (op.symbol ++ l), rest, by simp, ?_, same⟩
    rw [Text.byteLength_append, Text.byteLength_append]
    omega
  | @call named before gap a rest start ls absent called matching tail ih =>
    rcases List.mem_append.mp mem with mem | mem
    · rw [Lexeme.opening?_ofGap mem] at opens
      cases opens
    rcases List.mem_cons.mp mem with rfl | mem
    · cases opens
      have closed : Text.untilClose 0 (a ++ ')' :: rest) = some (a, rest) :=
        Text.untilClose_eq_some.mpr ⟨rfl, matching⟩
      refine ⟨gap, a ++ ')' :: rest, rfl, rfl, ?_⟩
      rw [Lexeme.ofParenthesis, closed]
    obtain ⟨l, rest, rfl, place, same⟩ := ih mem
    refine ⟨gap ++ '(' :: (a ++ ')' :: l), rest, by simp, ?_, same⟩
    rw [Text.byteLength_append, Text.byteLength_call]
    omega
  | @unclosed named before gap rest start absent called never =>
    rcases List.mem_append.mp mem with mem | mem
    · rw [Lexeme.opening?_ofGap mem] at opens
      cases opens
    obtain rfl := List.mem_singleton.mp mem
    cases opens
    refine ⟨gap, rest, rfl, rfl, ?_⟩
    rw [Lexeme.ofParenthesis, never]

structure Arguments.Matching (a : Text) : Prop where
  balanced : a.Balanced
  ends : level a = 0
  levels : ∀ s t, a = s ++ t → 0 ≤ level s ∧
    pieces 0 a = (pieces 0 s).dropLast ++
      (pieces (level s) t).modifyHead ((pieces 0 s).getLast (pieces_ne_nil 0 s) ++ ·)
  parts : ∀ u ∈ ofText a, u.Balanced

theorem Arguments.matching_of_balances {a : Text} (h : a.balances 0) : Matching a where
  balanced := Text.balanced_iff.mpr h
  ends := by
    rw [level, Text.count_eq_of_balances h, Int.sub_self]
  levels := by
    rintro s t rfl
    have bound := (Text.balanced_iff.mpr h).1 s (List.prefix_append s t)
    constructor
    · rw [level]
      omega
    · have cut := pieces_append_level 0 s t
      rwa [Int.zero_add] at cut
  parts u hu := Text.balanced_iff.mpr (balances_of_mem h hu)

/-- Where the calls of a text close. `jumps` and `scans` are about each `(` of the text, whether or
not it starts the arguments of a call; `reads` and `refuses` are about those that do. -/
structure CallsClose (t : Text) : Prop where
  jumps : ∀ l rest, t = l ++ '(' :: rest →
    (∀ c, Operator.closing? t 1 (Text.byteLength l) = some c ↔
      IsLeast (t.evenAfter (Text.byteLength l)) c) ∧
    (Operator.closing? t 1 (Text.byteLength l) = none ↔ t.evenAfter (Text.byteLength l) = ∅)
  scans : ∀ l rest, t = l ++ '(' :: rest →
    ∃ lexeme ls, Lexeme.ofScan (Text.byteLength l + 1) (.inside (Text.byteLength l) 1 [])
      (Scan.ofTextAfter ('(' :: l.reverse) 0 rest) = lexeme :: ls ∧
      lexeme.Starts t (Text.byteLength l)
  reads : ∀ lexeme ∈ Lexeme.ofText t, ∀ opening, lexeme.opening? = some opening →
    (∃ l rest, t = l ++ '(' :: rest ∧ Text.byteLength l = opening) ∧ lexeme.Starts t opening
  refuses : ∀ lexeme ∈ Lexeme.ofText t, ∀ opening, lexeme.opening? = some opening →
    ∀ (s : Formula.Stacks) i,
      s.read lexeme = .error (.callNotClosed i) ↔ i = opening ∧ t.evenAfter opening = ∅
  refused : ∀ i, Formula.ofText t = .error (.callNotClosed i) →
    .unclosed i ∈ Lexeme.ofText t ∧ t.evenAfter i = ∅
  arguments : ∀ f, Formula.ofText t = .ok f →
    ∀ function a sign, .call function a sign ∈ f.leaves → Arguments.Matching a

theorem Lexeme.Starts.eq_unclosed_iff {t : Text} {opening i : Nat} {lexeme : Lexeme}
    (h : lexeme.Starts t opening) :
    lexeme = .unclosed i ↔ i = opening ∧ t.evenAfter opening = ∅ := by
  cases h with
  | closed first between =>
    constructor
    · rintro ⟨⟩
    · rintro ⟨-, none⟩
      exact absurd none (Set.nonempty_iff_ne_empty.mp ⟨_, first.1⟩)
  | never none =>
    constructor
    · rintro ⟨⟩
      exact ⟨rfl, none⟩
    · rintro ⟨rfl, -⟩
      rfl

theorem Operator.closing?_iff (l rest : Text) :
    (∀ c, closing? (l ++ '(' :: rest) 1 (Text.byteLength l) = some c ↔
      IsLeast ((l ++ '(' :: rest).evenAfter (Text.byteLength l)) c) ∧
    (closing? (l ++ '(' :: rest) 1 (Text.byteLength l) = none ↔
      (l ++ '(' :: rest).evenAfter (Text.byteLength l) = ∅) := by
  have jumps : closing? (l ++ '(' :: rest) 1 (Text.byteLength l) = _ := closing?_eq 0 l rest rfl
  cases cut : Text.untilClose 0 rest with
  | none =>
    rw [cut, Option.map_none] at jumps
    simp [jumps, Text.evenAfter_eq_empty cut, IsLeast]
  | some parts =>
    obtain ⟨a, after⟩ := parts
    rw [cut, Option.map_some] at jumps
    obtain ⟨rfl, matching⟩ := Text.untilClose_eq_some.mp cut
    have least := Text.isLeast_evenAfter matching l after
    rw [jumps]
    constructor
    · intro c
      constructor
      · rintro ⟨⟩
        exact least
      · intro other
        rw [other.unique least]
    · constructor
      · rintro ⟨⟩
      · intro none
        exact absurd none (Set.nonempty_iff_ne_empty.mp ⟨_, least.1⟩)

/-- The arguments of a call go up to the first byte that closes as many parentheses as are open, and
a call without such a byte is refused as not closed; so the parentheses of arguments match. -/
theorem Formula.calls_close (t : Text) : CallsClose t := by
  have reads : ∀ lexeme ∈ Lexeme.ofText t, ∀ opening, lexeme.opening? = some opening →
      (∃ l rest, t = l ++ '(' :: rest ∧ Text.byteLength l = opening) ∧
        lexeme.Starts t opening := by
    intro lexeme mem opening opens
    obtain ⟨l, rest, whole, place, rfl⟩ := (lexes_ofText_iff.mpr rfl).eq_ofParenthesis mem opens
    obtain rfl : Text.byteLength l = opening := by omega
    refine ⟨⟨l, rest, whole, rfl⟩, ?_⟩
    rw [whole]
    exact Lexeme.starts_ofParenthesis l rest
  constructor
  case jumps =>
    rintro l rest rfl
    exact Operator.closing?_iff l rest
  case scans =>
    rintro l rest rfl
    obtain ⟨ls, scan⟩ := List.head?_eq_some_iff.mp (Lexeme.head?_ofScan_inside l rest)
    exact ⟨_, ls, scan, Lexeme.starts_ofParenthesis l rest⟩
  case reads => exact reads
  case refuses =>
    intro lexeme mem opening opens s i
    rw [Stacks.read_callNotClosed_iff]
    exact (reads lexeme mem opening opens).2.eq_unclosed_iff
  case refused =>
    intro i fails
    rcases error_or_of_bind fails with fails | ⟨s, -, fails⟩
    · obtain ⟨passed, l, after, s, lexemes, -, refused⟩ := exists_of_foldlM_eq_error fails
      obtain rfl := Stacks.read_callNotClosed_iff.mp refused
      have mem : .unclosed i ∈ Lexeme.ofText t := by simp [lexemes]
      exact ⟨mem, ((reads _ mem i rfl).2.eq_unclosed_iff.mp rfl).2⟩
    · cases Stacks.finish_error fails
  case arguments =>
    intro f reading function a sign mem
    obtain ⟨ts, tokens, -, leaves⟩ := exists_reads reading
    have called := leaves.arguments_mem (List.mem_map_of_mem (f := unsigned) mem)
    exact Arguments.matching_of_balances (tokens.matched _ called)

theorem Formula.calls_close_nested :
    Arguments.Matching "abs((x)), 1e-2".toList ∧
      ofText "(2) + abs((1)".toList = .error (.callNotClosed 9) ∧
      Text.evenAfter "(2) + abs((1)".toList 9 = ∅ := by
  have whole := calls_close "max(abs((x)), 1e-2)".toList
  have torn := calls_close "(2) + abs((1)".toList
  exact ⟨whole.arguments _ rfl "Math.max".toList _ none List.mem_cons_self, rfl,
    (torn.refused 9 rfl).2⟩

end FormulaMigration
