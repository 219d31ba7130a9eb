import Mathlib.Data.List.DropRight
import FormulaMigration.Proofs.Token
import FormulaMigration.Script.Literal

namespace FormulaMigration

namespace Text

theorem trim_eq_nil {t : Text} (h : ∀ c ∈ t, isWhiteSpace c) : trim t = [] := by
  have empty : t.dropWhile isWhiteSpace = [] := List.dropWhile_eq_nil_iff.mpr h
  simp [trim, empty]

theorem trim_append_left {s : Text} (hs : ∀ c ∈ s, isWhiteSpace c) (t : Text) :
    trim (s ++ t) = trim t := by
  unfold trim
  rw [List.dropWhile_append_of_pos hs]

theorem exists_trim (t : Text) :
    ∃ s s', t = s ++ (trim t ++ s') ∧ (∀ c ∈ s, isWhiteSpace c) ∧ ∀ c ∈ s', isWhiteSpace c := by
  have back := List.takeWhile_append_dropWhile (p := isWhiteSpace)
    (l := (t.dropWhile isWhiteSpace).reverse)
  refine ⟨t.takeWhile isWhiteSpace,
    ((t.dropWhile isWhiteSpace).reverse.takeWhile isWhiteSpace).reverse, ?_, ?_, ?_⟩
  · rw [trim, ← List.reverse_append, back, List.reverse_reverse, List.takeWhile_append_dropWhile]
  · exact fun c hc => List.mem_takeWhile_imp hc
  · exact fun c hc => List.mem_takeWhile_imp (List.mem_reverse.mp hc)

theorem trim_eq_self {t : Text} (front : ∀ c ∈ t.head?, isWhiteSpace c = false)
    (back : ∀ c ∈ t.getLast?, isWhiteSpace c = false) : trim t = t := by
  have keep {s : Text} (h : ∀ c ∈ s.head?, isWhiteSpace c = false) :
      s.dropWhile isWhiteSpace = s := by
    cases s with
    | nil => rfl
    | cons c s => simp [h c (by simp)]
  rw [trim, keep front, keep (by simpa [List.head?_reverse] using back), List.reverse_reverse]

theorem head?_trim {t : Text} {c : Char} (h : c ∈ (trim t).head?) : isWhiteSpace c = false := by
  obtain ⟨rest, hr⟩ := List.rdropWhile_prefix isWhiteSpace (t.dropWhile isWhiteSpace)
  change trim t ++ rest = _ at hr
  have first : c ∈ (t.dropWhile isWhiteSpace).head? := by
    rw [← hr, List.head?_append]
    simp_all
  have stops := List.head?_dropWhile_not isWhiteSpace t
  rw [first] at stops
  exact stops

theorem getLast?_trim {t : Text} {c : Char} (h : c ∈ (trim t).getLast?) :
    isWhiteSpace c = false := by
  rw [trim, List.getLast?_reverse] at h
  have stops := List.head?_dropWhile_not isWhiteSpace (t.dropWhile isWhiteSpace).reverse
  rw [h] at stops
  exact stops

theorem trim_trim (t : Text) : trim (trim t) = trim t :=
  trim_eq_self (fun _ h => head?_trim h) (fun _ h => getLast?_trim h)

theorem trim_append_right {s : Text} (hs : ∀ c ∈ s, isWhiteSpace c) (t : Text) :
    trim (t ++ s) = trim t := by
  unfold trim
  rw [List.dropWhile_append]
  split_ifs with empty
  · rw [List.isEmpty_iff.mp empty, List.dropWhile_eq_nil_iff.mpr hs]
  · rw [List.reverse_append, List.dropWhile_append_of_pos]
    exact fun c hc => hs c (List.mem_reverse.mp hc)

theorem trim_quote (t : Text) : trim (quote t) = quote t := by
  apply trim_eq_self
  · rintro c hc
    obtain rfl : '\x22' = c := Option.some.inj hc
    rfl
  · rintro c hc
    obtain rfl : '\x22' = c := by simpa [quote, List.getLast?_cons] using hc
    rfl

theorem isWhiteSpace_of_blank {t : Text} (h : ∀ c ∈ t, isBlank c) : ∀ c ∈ t, isWhiteSpace c :=
  fun c hc => isWhiteSpace_of_isBlank (h c hc)

end Text

namespace Operator

def isSecond (c : Char) : Bool :=
  c == '|' || c == '&' || c == '='

/-- No operator starts in the text, whatever stands around it; only what follows must not complete a
symbol. -/
def Inert (t : Text) : Prop :=
  ∀ before rest, (∀ c ∈ rest.head?, isSecond c = false) → AbsentFrom before t rest

def Edge (before : Text) : Prop :=
  ∀ c ∈ before.head?, c ≠ 'e' ∧ c.isDigit = false

theorem at?_eq_none {before t : Text} :
    at? before t = none ↔ ∀ op : Operator, op.standsAt before t = false := by
  simp [at?, mem_all]

theorem symbol_cases (op : Operator) :
    (∃ c, op.symbol = [c]) ∨ ∃ c d, op.symbol = [c, d] ∧ isSecond d := by
  cases op <;> simp [symbol, isSecond]

theorem symbol_starts {op : Operator} {t rest : Text} (ht : t ≠ [])
    (hr : ∀ c ∈ rest.head?, isSecond c = false) (h : op.symbol <+: t ++ rest) :
    op.symbol <+: t := by
  obtain ⟨c, t, rfl⟩ := List.exists_cons_of_ne_nil ht
  rcases op.symbol_cases with ⟨d, hd⟩ | ⟨d, e, hd, he⟩
  · rw [hd, List.cons_append, List.cons_prefix_cons] at h
    rw [hd, List.cons_prefix_cons]
    exact ⟨h.1, List.nil_prefix⟩
  · rw [hd, List.cons_append, List.cons_prefix_cons] at h
    rw [hd, List.cons_prefix_cons]
    refine ⟨h.1, ?_⟩
    cases t with
    | nil =>
      obtain ⟨after, rfl⟩ := h.2
      cases he.symm.trans (hr e rfl)
    | cons f t => simpa using h.2

theorem plain_of_isWhiteSpace {c : Char} (h : isWhiteSpace c) : c ≠ 'e' ∧ c.isDigit = false := by
  constructor
  · rintro rfl
    cases h
  · by_contra digit
    simp only [Bool.not_eq_false, Char.isDigit, Bool.and_eq_true, decide_eq_true_eq,
      ge_iff_le, UInt32.le_iff_toNat_le] at digit
    simp only [isWhiteSpace, Bool.or_eq_true, Bool.and_eq_true, decide_eq_true_eq, beq_iff_eq,
      Char.toNat] at h
    have low : 48 ≤ c.val.toNat := digit.1
    have high : c.val.toNat ≤ 57 := digit.2
    omega

theorem Edge.append {before s : Text} (edge : Edge before) (hs : ∀ c ∈ s, isWhiteSpace c) :
    Edge (s.reverse ++ before) := by
  cases hr : s.reverse with
  | nil => exact edge
  | cons c rest =>
    rintro d hd
    obtain rfl : c = d := Option.some.inj hd
    exact plain_of_isWhiteSpace (hs c (List.mem_reverse.mp (hr ▸ List.mem_cons_self)))

theorem isExponentMark_append {before l : Text} (edge : Edge before)
    (h : isExponentMark (l ++ before)) (before' : Text) : isExponentMark (l ++ before') := by
  match l with
  | [] =>
    match before with
    | e :: digit :: rest =>
      simp only [List.nil_append, isExponentMark, Bool.and_eq_true, beq_iff_eq] at h
      exact absurd h.1 (edge e (by simp)).1
  | [e] =>
    match before with
    | digit :: rest =>
      simp only [List.cons_append, List.nil_append, isExponentMark, Bool.and_eq_true] at h
      cases h.2.symm.trans (edge digit (by simp)).2
  | e :: digit :: rest => exact h

theorem inert_of_absent {before s t s' rest : Text} (h : AbsentFrom before (s ++ (t ++ s')) rest)
    (edge : Edge before) (hs : ∀ c ∈ s, isWhiteSpace c) : Inert t := by
  intro before' rest' hr l r ht hne
  subst ht
  rw [at?_eq_none]
  intro op
  by_contra stands
  simp only [Bool.not_eq_false, standsAt, Bool.and_eq_true, List.isPrefixOf_iff_prefix] at stands
  have absent := at?_eq_none.mp (h (s ++ l) (r ++ s') (by simp) (by simp [hne])) op
  have fits : op.symbol <+: r ++ (s' ++ rest) :=
    (symbol_starts hne hr stands.1).trans (List.prefix_append _ _)
  have mark : op = .minus ∧ isExponentMark (l.reverse ++ (s.reverse ++ before)) := by
    simpa [standsAt, fits] using absent
  have same := isExponentMark_append (edge.append hs) mark.2 before'
  simp [mark.1, same] at stands

theorem edge_symbol (op : Operator) (before : Text) : Edge (op.symbol.reverse ++ before) := by
  rintro c hc
  cases op <;> obtain rfl := Option.some.inj hc <;> decide

theorem inert_nil : Inert [] :=
  fun before rest _ => absentFrom_nil before rest

theorem Inert.quote {t : Text} (h : Inert t) : Inert t.quote := by
  intro before rest _
  rw [Text.quote, List.cons_append, absentFrom_cons]
  refine ⟨rfl, absentFrom_append.mpr ⟨h _ _ (by simp [isSecond]), ?_⟩⟩
  exact absentFrom_cons.mpr ⟨rfl, absentFrom_nil _ _⟩

end Operator

namespace Token

theorem eq_trim_of_mem_ofGap {gap value : Text} (h : .operand value ∈ ofGap gap) :
    value = gap.trim := by
  unfold ofGap at h
  split_ifs at h
  · simpa using h
  · simp at h

theorem ofGap_eq {gap : Text} (h : gap.trim ≠ []) : ofGap gap = [operand gap.trim] := by
  unfold ofGap
  split_ifs with filled
  · rfl
  · refine absurd (Text.trim_eq_nil fun c hc => ?_) h
    simp only [Lexeme.isOperand, List.any_eq_true, not_exists, not_and] at filled
    exact isWhiteSpace_of_isBlank (by simpa using filled c hc)

theorem ofGap_blank {gap : Text} (h : ∀ c ∈ gap, isBlank c) : ofGap gap = [] := by
  unfold ofGap
  rw [if_neg]
  simp only [Lexeme.isOperand, List.any_eq_true, not_exists, not_and]
  exact fun c hc => by simp [h c hc]

end Token

namespace Reads

theorem inert {named : Bool} {before t : Text} {ts : List Token} (h : Reads named before t ts)
    (edge : Operator.Edge before) {value : Text} (hv : .operand value ∈ ts) :
    Operator.Inert value := by
  have inGap {before gap rest : Text} (absent : Operator.AbsentFrom before gap rest)
      (edge : Operator.Edge before) (hv : .operand value ∈ Token.ofGap gap) :
      Operator.Inert value := by
    obtain rfl := Token.eq_trim_of_mem_ofGap hv
    obtain ⟨s, s', hg, hs, -⟩ := gap.exists_trim
    rw [hg] at absent
    exact Operator.inert_of_absent absent edge hs
  induction h with
  | last absent => exact inGap absent edge hv
  | @operator named before gap rest op ts absent first uncalled tail ih =>
    rcases List.mem_append.mp hv with hv | hv
    · exact inGap absent edge hv
    · exact ih (Operator.edge_symbol op _) (by simpa using hv)
  | call absent called matching tail ih =>
    rcases List.mem_append.mp hv with hv | hv
    · exact inGap absent edge hv
    · exact ih (Operator.edge_symbol .closeGroup _) (by simpa using hv)

theorem trim_operand {named : Bool} {before t : Text} {ts : List Token}
    (h : Reads named before t ts) {value : Text} (hv : .operand value ∈ ts) :
    value.trim = value := by
  have inGap {gap : Text} (hv : .operand value ∈ Token.ofGap gap) : value.trim = value := by
    obtain rfl := Token.eq_trim_of_mem_ofGap hv
    exact gap.trim_trim
  induction h with
  | last absent => exact inGap hv
  | operator absent first uncalled tail ih =>
    exact (List.mem_append.mp hv).elim inGap fun hv => ih (by simpa using hv)
  | call absent called matching tail ih =>
    exact (List.mem_append.mp hv).elim inGap fun hv => ih (by simpa using hv)

end Reads

namespace Literal

theorem isScript_quote (t : Text) : isScript t.quote := by
  have quoted : t.quote.isQuoted := by
    simp [Text.isQuoted, Text.quote, List.getLast?_cons]
  simp [isScript, quoted]

theorem ofOperand_ofOperand (t : Text) : ofOperand (ofOperand t) = ofOperand t := by
  by_cases h : isScript t
  · simp [ofOperand, h]
  · simp [ofOperand, h, isScript_quote]

theorem ofOperand_cases (t : Text) : ofOperand t = t ∨ ofOperand t = t.quote := by
  unfold ofOperand
  split_ifs <;> simp

theorem ofOperand_eq_self_iff {t : Text} : ofOperand t = t ↔ isScript t := by
  constructor
  · intro same
    by_contra bare
    have length := congrArg List.length same
    rw [ofOperand, if_neg bare, Text.quote] at length
    simp only [List.length_cons, List.length_append, List.length_nil] at length
    omega
  · intro literal
    rw [ofOperand, if_pos literal]

theorem inert_ofOperand {t : Text} (h : Operator.Inert t) : Operator.Inert (ofOperand t) := by
  rcases ofOperand_cases t with he | he
  · rwa [he]
  · rw [he]
    exact h.quote

theorem trim_ofOperand {t : Text} (h : t.trim = t) : (ofOperand t).trim = ofOperand t := by
  rcases ofOperand_cases t with he | he
  · rwa [he]
  · rw [he, Text.trim_quote]

theorem isScript_equal_sign (t : Text) : isScript ('=' :: t) = false := by
  have word : isNumberWord ('=' :: t) = false := by
    simp [isNumberWord]
  have decimal : isDecimal ('=' :: t) = false := by
    simp [isDecimal, isTail, Char.isDigit]
  simp [isScript, isNumber, unsigned, word, decimal, isVariable, variableSigil, Text.isQuoted]

theorem head?_ofOperand (t : Text) : (ofOperand t).head? ≠ some '=' := by
  unfold ofOperand
  split_ifs with h
  · cases t with
    | nil => simp
    | cons c t =>
      rintro hc
      obtain rfl : c = '=' := Option.some.inj hc
      cases (isScript_equal_sign t).symm.trans h
  · simp [Text.quote]

theorem ofOperand_ne_nil {t : Text} (h : t ≠ []) : ofOperand t ≠ [] := by
  rcases ofOperand_cases t with he | he
  · rwa [he]
  · simp [he, Text.quote]

end Literal

end FormulaMigration
