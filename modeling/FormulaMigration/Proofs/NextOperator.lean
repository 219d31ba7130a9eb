import FormulaMigration.Proofs.Numbers
import FormulaMigration.Proofs.QuotedArguments
import FormulaMigration.Proofs.Slices

namespace FormulaMigration

namespace Text

theorem byteLength_le_of_prefix {s t : Text} (h : s <+: t) : byteLength s ≤ byteLength t := by
  obtain ⟨r, rfl⟩ := h
  rw [byteLength_append]
  omega

theorem encodeChar_ascii {c : Char} (h : c.toNat < 0x80) :
    encodeChar c = [UInt8.ofNat c.toNat] := by
  simp only [encodeChar, if_pos h]

theorem encode_prefix_iff {s t : Text} (ascii : ∀ c ∈ s, c.toNat < 0x80) :
    encode s <+: encode t ↔ s <+: t := by
  induction s generalizing t with
  | nil => simp [encode]
  | cons c s ih =>
    obtain ⟨single, ascii⟩ := List.forall_mem_cons.mp ascii
    have byte : (UInt8.ofNat c.toNat).toNat = c.toNat := toNat_byte (by omega)
    rw [encode_cons, encodeChar_ascii single, List.singleton_append]
    cases t with
    | nil => simp [encode]
    | cons d t =>
      rw [List.cons_prefix_cons, ← ih ascii]
      constructor
      · intro start
        obtain ⟨b, bs, bytes, -⟩ := exists_encodeChar d
        have first : UInt8.ofNat c.toNat = b := by
          rw [encode_cons, bytes, List.cons_append, List.cons_prefix_cons] at start
          exact start.1
        have mem : UInt8.ofNat c.toNat ∈ encodeChar d := by simp [bytes, first]
        have same : d = c := by
          apply Char.toNat_inj.mp
          rw [toNat_of_mem_encodeChar mem (by omega), byte]
        subst same
        rw [encode_cons, encodeChar_ascii single, List.singleton_append,
          List.cons_prefix_cons] at start
        exact ⟨rfl, start.2⟩
      · rintro ⟨rfl, start⟩
        rw [encode_cons, encodeChar_ascii single, List.singleton_append, List.cons_prefix_cons]
        exact ⟨rfl, start⟩

theorem exists_of_last_byte {t : Text} {b : UInt8}
    (here : (encode t)[byteLength t - 1]? = some b) (ascii : b.toNat < 0x80) :
    ∃ s c, t = s ++ [c] ∧ c.toNat = b.toNat ∧ byteLength t = byteLength s + 1 := by
  rcases List.eq_nil_or_concat t with rfl | ⟨s, c, rfl⟩
  · cases here
  rw [List.concat_eq_append] at here ⊢
  have size := c.utf8Size_pos
  have width : byteLength (s ++ [c]) = byteLength s + c.utf8Size := by
    rw [byteLength_append, byteLength_cons]
    rfl
  have last : encode [c] = encodeChar c := List.flatMap_singleton _ _
  rw [width, encode_append, last, List.getElem?_append_right (by rw [length_encode]; omega)] at here
  have same := toNat_of_mem_encodeChar (List.mem_of_getElem? here) ascii
  refine ⟨s, c, rfl, same, ?_⟩
  rw [width, ← length_encodeChar, encodeChar_ascii (by omega)]
  rfl

end Text

namespace Operator

theorem matchesAt_iff {op : Operator} {t : Text} {i : Nat} :
    op.matchesAt t i ↔ ∃ l r, t = l ++ r ∧ Text.byteLength l = i ∧ op.standsAt l.reverse r := by
  unfold matchesAt
  constructor
  · intro h
    split at h
    next before rest cut =>
      obtain ⟨rfl, place⟩ := Text.splitAtByte_eq_some_iff.mp cut
      exact ⟨before.reverse, rest, rfl, place, by rwa [List.reverse_reverse]⟩
    next => cases h
  · rintro ⟨l, r, rfl, rfl, stands⟩
    rw [Text.splitAtByte_append, List.append_nil]
    exact stands

theorem symbol_prefix_of_standsAt {op : Operator} {before rest : Text}
    (h : op.standsAt before rest) : op.symbol <+: rest := by
  simp only [standsAt, Bool.and_eq_true, List.isPrefixOf_iff_prefix] at h
  exact h.1

section Bytes

def IsExponentByte (bytes : Bytes) (i : Nat) : Prop :=
  1 < i ∧ bytes[i - 1]? = some 0x65 ∧
    ∃ digit, bytes[i - 2]? = some digit ∧ 0x30 ≤ digit.toNat ∧ digit.toNat ≤ 0x39

def MatchesBytes (op : Operator) (bytes : Bytes) (i : Nat) : Prop :=
  Text.encode op.symbol <+: bytes.drop i ∧ ¬ (op = minus ∧ IsExponentByte bytes i)

theorem ascii_symbol (op : Operator) : ∀ c ∈ op.symbol, c.toNat < 0x80 := by
  have all : op.symbol.all (·.toNat < 0x80) = true := by cases op <;> rfl
  simpa using all

theorem isDigit_iff {c : Char} : c.isDigit ↔ 0x30 ≤ c.toNat ∧ c.toNat ≤ 0x39 := by
  simp only [Char.isDigit, Bool.and_eq_true, decide_eq_true_eq, ge_iff_le, UInt32.le_iff_toNat_le]
  exact Iff.rfl

theorem isExponentByte_iff (l r : Text) :
    IsExponentByte (Text.encode (l ++ r)) (Text.byteLength l) ↔ isExponentMark l.reverse := by
  rw [Literal.isExponentMark_reverse, IsExponentByte, Text.encode_append]
  constructor
  · rintro ⟨inside, mark, digit, here, low, high⟩
    have length := Text.length_encode l
    rw [List.getElem?_append_left (by omega)] at mark here
    obtain ⟨l, c, rfl, code, width⟩ := Text.exists_of_last_byte mark (by decide)
    obtain rfl : c = 'e' := Char.toNat_inj.mp code
    rw [width, Text.encode_append, List.getElem?_append_left (by rw [Text.length_encode]; omega)]
      at here
    obtain ⟨l, d, rfl, code, -⟩ := Text.exists_of_last_byte here (by omega)
    exact ⟨l, d, by simp, isDigit_iff.mpr (by omega)⟩
  · rintro ⟨l, digit, rfl, isDigit⟩
    obtain ⟨low, high⟩ := isDigit_iff.mp isDigit
    have byte : (UInt8.ofNat digit.toNat).toNat = digit.toNat := Text.toNat_byte (by omega)
    have bytes : Text.encode (l ++ [digit, 'e']) =
        Text.encode l ++ [UInt8.ofNat digit.toNat, 0x65] := by
      rw [Text.encode_append, Text.encode_cons, Text.encodeChar_ascii (by omega)]
      rfl
    have width : Text.byteLength (l ++ [digit, 'e']) = (Text.encode l).length + 2 := by
      rw [← Text.length_encode, bytes]
      simp
    rw [width, bytes, List.append_assoc]
    refine ⟨by omega, ?_, UInt8.ofNat digit.toNat, ?_, by omega, by omega⟩
    · rw [List.getElem?_append_right (by omega), Nat.add_sub_assoc (by omega),
        Nat.add_sub_cancel_left]
      rfl
    · rw [List.getElem?_append_right (by omega), Nat.add_sub_cancel, Nat.sub_self]
      rfl

theorem boundary_of_symbol {op : Operator} {t : Text} {i : Nat}
    (h : Text.encode op.symbol <+: (Text.encode t).drop i) : t.Boundary i := by
  obtain ⟨c, symbol, shape⟩ := List.exists_cons_of_ne_nil op.symbol_ne_nil
  have single : c.toNat < 0x80 := op.ascii_symbol c (by simp [shape])
  rw [shape, Text.encode_cons, Text.encodeChar_ascii single, List.singleton_append] at h
  obtain ⟨bs, whole⟩ := h
  have here : (Text.encode t)[i]? = some (UInt8.ofNat c.toNat) := by
    have first := congrArg List.head? whole
    rwa [List.head?_drop, eq_comm] at first
  obtain ⟨inside, -⟩ := List.getElem?_eq_some_iff.mp here
  rw [Text.length_encode] at inside
  refine Text.boundary_iff.mpr ⟨Nat.le_of_lt inside, fun b hb => ?_⟩
  obtain rfl := Option.some.inj (here.symm.trans hb)
  have small : ¬ 0x80 ≤ UInt8.ofNat c.toNat := by
    rw [Text.le_byte (by omega)]
    exact Nat.not_le.mpr single
  simp [Text.isContinuation, small]

theorem matchesAt_iff_bytes {op : Operator} {t : Text} {i : Nat} :
    op.matchesAt t i ↔ op.MatchesBytes (Text.encode t) i := by
  have split {l r : Text} : op.standsAt l.reverse r ↔
      op.MatchesBytes (Text.encode (l ++ r)) (Text.byteLength l) := by
    have behind : (Text.encode (l ++ r)).drop (Text.byteLength l) = Text.encode r := by
      rw [Text.encode_append, ← Text.length_encode, List.drop_left]
    rw [MatchesBytes, behind, Text.encode_prefix_iff op.ascii_symbol, isExponentByte_iff, standsAt]
    simp [imp_iff_not_or]
  rw [matchesAt_iff]
  constructor
  · rintro ⟨l, r, rfl, rfl, stands⟩
    exact split.mp stands
  · intro h
    obtain ⟨l, r, rfl, rfl⟩ := boundary_of_symbol h.1
    exact ⟨l, r, rfl, rfl, split.mpr h⟩

end Bytes

theorem all_pairwise : all.Pairwise fun op later => ¬ op.symbol <+: later.symbol := by
  decide

theorem byteLength_le_of_at? {before rest : Text} {op other : Operator}
    (first : at? before rest = some op) (stands : other.standsAt before rest) :
    Text.byteLength other.symbol ≤ Text.byteLength op.symbol := by
  obtain ⟨found, passed, later, table, absent⟩ := List.find?_eq_some_iff_append.mp first
  have listed := other.mem_all
  rw [table] at listed
  rcases List.mem_append.mp listed with mem | mem
  · have missed := absent other mem
    simp [stands] at missed
  rcases List.mem_cons.mp mem with rfl | mem
  · exact Nat.le_refl _
  · have order := all_pairwise
    rw [table, List.pairwise_append, List.pairwise_cons] at order
    have apart := order.2.1.1 other mem
    rcases List.prefix_or_prefix_of_prefix (symbol_prefix_of_standsAt found)
      (symbol_prefix_of_standsAt stands) with start | start
    · exact absurd start apart
    · exact Text.byteLength_le_of_prefix start

theorem eq_of_symbols {op other : Operator} {t : Text} (start : op.symbol <+: t)
    (start' : other.symbol <+: t)
    (width : Text.byteLength op.symbol = Text.byteLength other.symbol) : op = other := by
  have rest {s s' : Text} (h : s <+: s') (same : Text.byteLength s = Text.byteLength s') :
      s = s' := by
    obtain ⟨r, rfl⟩ := h
    rw [Text.byteLength_append] at same
    rw [Text.eq_nil_of_byteLength (t := r) (by omega), List.append_nil]
  apply symbol_injective
  rcases List.prefix_or_prefix_of_prefix start start' with h | h
  · exact rest h width
  · exact (rest h width.symm).symm

theorem at?_nil (before : Text) : at? before [] = none := rfl

theorem nextFrom_none {start offset : Nat} {before t l r : Text}
    (h : nextFrom start before offset t = none) (whole : t = l ++ r)
    (reached : start ≤ offset + Text.byteLength l) : at? (l.reverse ++ before) r = none := by
  induction t generalizing before offset l with
  | nil =>
    obtain ⟨rfl, rfl⟩ := List.nil_eq_append_iff.mp whole
    exact at?_nil before
  | cons c t ih =>
    rw [nextFrom] at h
    split at h
    next => cases h
    next absent =>
      cases l with
      | nil =>
        obtain rfl : c :: t = r := whole
        rwa [if_pos (by simpa [Text.byteLength] using reached)] at absent
      | cons d l =>
        obtain ⟨rfl, rfl⟩ := List.cons.inj whole
        have later := ih h rfl (by rw [Text.byteLength_cons] at reached; omega)
        simpa using later

theorem nextFrom_some {start offset place : Nat} {before t : Text} {op : Operator}
    (h : nextFrom start before offset t = some (place, op)) :
    ∃ l r, t = l ++ r ∧ offset + Text.byteLength l = place ∧ start ≤ place ∧
      at? (l.reverse ++ before) r = some op ∧
      ∀ l' r', t = l' ++ r' → start ≤ offset + Text.byteLength l' →
        offset + Text.byteLength l' < place → at? (l'.reverse ++ before) r' = none := by
  induction t generalizing before offset with
  | nil => cases h
  | cons c t ih =>
    rw [nextFrom] at h
    split at h
    next op' found =>
      obtain ⟨rfl, rfl⟩ := Prod.mk.inj (Option.some.inj h)
      split_ifs at found with reached
      refine ⟨[], c :: t, rfl, rfl, reached, found, ?_⟩
      intro l' r' _ _ earlier
      omega
    next absent =>
      obtain ⟨l, r, rfl, rfl, reached, found, earlier⟩ := ih h
      have place : offset + Text.byteLength (c :: l) = offset + c.utf8Size + Text.byteLength l := by
        rw [Text.byteLength_cons]
        omega
      refine ⟨c :: l, r, rfl, place, reached, by simpa using found, ?_⟩
      intro l' r' whole reached' before'
      cases l' with
      | nil =>
        obtain rfl : c :: (l ++ r) = r' := whole
        rwa [if_pos (by simpa [Text.byteLength] using reached')] at absent
      | cons d l' =>
        obtain ⟨rfl, rest⟩ := List.cons.inj whole
        rw [Text.byteLength_cons] at reached' before'
        simpa using earlier l' r' rest (by omega) (by omega)

/-- An operator at a place is the longest that stands there, and none stands between the start of
the search and that place. -/
structure IsNext (t : Text) (start place : Nat) (op : Operator) : Prop where
  reached : start ≤ place
  stands : op.matchesAt t place
  first : ∀ i, start ≤ i → i < place → ∀ other : Operator, ¬ other.matchesAt t i
  longest : ∀ other : Operator, other.matchesAt t place →
    Text.byteLength other.symbol ≤ Text.byteLength op.symbol

theorem not_matchesAt_of_at? {t : Text} {i : Nat}
    (h : ∀ l r, t = l ++ r → Text.byteLength l = i → at? l.reverse r = none) (op : Operator) :
    ¬ op.matchesAt t i := by
  rw [matchesAt_iff]
  rintro ⟨l, r, whole, place, stands⟩
  have none := at?_eq_none.mp (h l r whole place) op
  rw [stands] at none
  cases none

theorem next?_none {t : Text} {start : Nat} (h : next? t start = none) {i : Nat} (hi : start ≤ i)
    (op : Operator) : ¬ op.matchesAt t i := by
  apply not_matchesAt_of_at?
  rintro l r rfl rfl
  have absent := nextFrom_none h rfl (by rwa [Nat.zero_add])
  rwa [List.append_nil] at absent

theorem isNext_of_next? {t : Text} {start place : Nat} {op : Operator}
    (h : next? t start = some (place, op)) : IsNext t start place op := by
  obtain ⟨l, r, rfl, rfl, reached, found, earlier⟩ := nextFrom_some h
  rw [List.append_nil] at found
  have stands := List.find?_some found
  rw [Nat.zero_add] at reached earlier ⊢
  constructor
  case reached => exact reached
  case stands => exact matchesAt_iff.mpr ⟨l, r, rfl, rfl, stands⟩
  case first =>
    intro i hi before
    apply not_matchesAt_of_at?
    rintro l' r' whole rfl
    have absent := earlier l' r' whole (by rwa [Nat.zero_add]) (by rwa [Nat.zero_add])
    rwa [List.append_nil] at absent
  case longest =>
    intro other standsToo
    obtain ⟨l', r', whole, place, fits⟩ := matchesAt_iff.mp standsToo
    obtain ⟨rfl, rfl⟩ := Text.append_inj_of_byteLength whole place.symm
    exact byteLength_le_of_at? found fits

theorem IsNext.symbol {t : Text} {start place : Nat} {op : Operator} (h : IsNext t start place op) :
    t.slice? place (place + Text.byteLength op.symbol) = some op.symbol := by
  obtain ⟨l, r, rfl, rfl, stands⟩ := matchesAt_iff.mp h.stands
  obtain ⟨rest, rfl⟩ := symbol_prefix_of_standsAt stands
  exact Text.slice?_append l op.symbol rest

theorem IsNext.unique {t : Text} {start place place' : Nat} {op op' : Operator}
    (h : IsNext t start place op) (h' : IsNext t start place' op') : place = place' ∧ op = op' := by
  obtain rfl : place = place' := by
    rcases Nat.lt_trichotomy place place' with before | same | after
    · exact absurd h.stands (h'.first place h.reached before op)
    · exact same
    · exact absurd h'.stands (h.first place' h'.reached after op')
  refine ⟨rfl, ?_⟩
  obtain ⟨l, r, rfl, rfl, stands⟩ := matchesAt_iff.mp h.stands
  obtain ⟨l', r', whole, place, stands'⟩ := matchesAt_iff.mp h'.stands
  obtain ⟨rfl, rfl⟩ := Text.append_inj_of_byteLength whole place.symm
  exact eq_of_symbols (symbol_prefix_of_standsAt stands) (symbol_prefix_of_standsAt stands')
    (Nat.le_antisymm (h'.longest op h.stands) (h.longest op' h'.stands))

/-- The next operator is the longest of those at the first place, from the start of the search on,
where any operator stands. Both of its ends are boundaries, also when the search starts inside a
character. -/
theorem next?_first_longest (t : Text) (start : Nat) :
    (∀ place op, next? t start = some (place, op) ↔ IsNext t start place op) ∧
      (next? t start = none ↔ ∀ i, start ≤ i → ∀ op : Operator, ¬ op.matchesAt t i) ∧
      (∀ place op, next? t start = some (place, op) →
        t.slice? place (place + Text.byteLength op.symbol) = some op.symbol ∧
          t.Boundary place ∧ t.Boundary (place + Text.byteLength op.symbol)) ∧
      ∀ (op : Operator) i, op.matchesAt t i ↔ op.MatchesBytes (Text.encode t) i := by
  refine ⟨fun place op => ⟨isNext_of_next?, fun h => ?_⟩, ⟨fun h _ => next?_none h, fun h => ?_⟩,
    fun place op h => ?_, fun op i => matchesAt_iff_bytes⟩
  · cases found : next? t start with
    | none => exact absurd h.stands (next?_none found h.reached op)
    | some result =>
      obtain ⟨rfl, rfl⟩ := h.unique (isNext_of_next? found)
      rfl
  · cases found : next? t start with
    | none => rfl
    | some result =>
      have next := isNext_of_next? found
      exact absurd next.stands (h _ next.reached _)
  · have symbol := (isNext_of_next? h).symbol
    have ends := Text.slice?_isSome_iff.mp (Option.isSome_of_eq_some symbol)
    exact ⟨symbol, ends.2⟩

-- Byte 1 is inside the first character, and byte 4 is the sign of an exponent.
theorem next?_first_longest_inside :
    next? "\u00e91e-2<=x".toList 1 = some (6, .atMost) ∧
      IsNext "\u00e91e-2<=x".toList 1 6 .atMost ∧
      Text.slice? "\u00e91e-2<=x".toList 6 8 = some "<=".toList :=
  ⟨rfl, ((next?_first_longest _ 1).1 6 .atMost).mp rfl,
    ((next?_first_longest _ 1).2.2.1 6 .atMost rfl).1⟩

end Operator

end FormulaMigration
