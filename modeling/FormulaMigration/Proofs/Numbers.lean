import FormulaMigration.Proofs.Quotation

namespace FormulaMigration

namespace Literal

def isPlain (c : Char) : Bool :=
  c.isAlphanum || c == '.'

def isMantissaChar (c : Char) : Bool :=
  c.isDigit || c == '.'

end Literal

namespace Operator

theorem at?_of_plain {c : Char} (h : Literal.isPlain c) (before rest : Text) :
    at? before (c :: rest) = none := by
  simp only [Literal.isPlain, Bool.or_eq_true, beq_iff_eq] at h
  apply at?_eq_none_of_head
  intro op starts
  rcases h with h | rfl
  · cases op <;> cases starts <;> cases h
  · cases op <;> cases starts

theorem at?_plus (before rest : Text) : at? before ('+' :: rest) = some .plus := rfl

theorem at?_minus (before rest : Text) :
    at? before ('-' :: rest) = if isExponentMark before then none else some .minus := by
  cases marked : isExponentMark before <;> simp [at?, all, standsAt, symbol, marked]

end Operator

namespace Literal

theorem unsigned_cases (t : Text) :
    ∃ sign, t = sign ++ unsigned t ∧ (sign = [] ∨ sign = ['+'] ∨ sign = ['-']) := by
  cases t with
  | nil => exact ⟨[], rfl, .inl rfl⟩
  | cons c t =>
    rw [unsigned]
    split_ifs with signs
    · rcases signs with rfl | rfl
      · exact ⟨['+'], rfl, by simp⟩
      · exact ⟨['-'], rfl, by simp⟩
    · exact ⟨[], rfl, .inl rfl⟩

theorem isExponent_cases {x : Text} (h : isExponent x) :
    ∃ mark sign d, x = mark :: (sign ++ d) ∧ (mark = 'e' ∨ mark = 'E') ∧
      (sign = [] ∨ sign = ['+'] ∨ sign = ['-']) ∧ d ≠ [] ∧ ∀ c ∈ d, c.isDigit := by
  cases x with
  | nil => cases h
  | cons mark rest =>
    simp only [isExponent, Bool.and_eq_true, Bool.or_eq_true, beq_iff_eq, Bool.not_eq_true',
      List.isEmpty_eq_false_iff, List.all_eq_true] at h
    obtain ⟨⟨marks, filled⟩, digits⟩ := h
    obtain ⟨sign, whole, signs⟩ := unsigned_cases rest
    exact ⟨mark, sign, unsigned rest, by rw [← whole], marks, signs, filled, digits⟩

theorem isDecimal_cases {v : Text} (h : isDecimal v) :
    ∃ m x, v = m ++ x ∧ m ≠ [] ∧ (∀ c ∈ m, isMantissaChar c) ∧ (x = [] ∨ isExponent x) := by
  have whole := List.takeWhile_append_dropWhile (p := Char.isDigit) (l := v)
  have digits {t : Text} : ∀ c ∈ t.takeWhile Char.isDigit, isMantissaChar c := by
    intro c hc
    simp [isMantissaChar, List.mem_takeWhile_imp hc]
  rw [isDecimal] at h
  generalize ht : v.dropWhile Char.isDigit = tail at h whole
  cases tail with
  | nil =>
    rw [List.append_nil] at whole
    refine ⟨v, [], by simp, ?_, by rw [← whole]; exact digits, .inl rfl⟩
    rintro rfl
    simp [isTail] at h
  | cons c rest =>
    rw [isTail] at h
    split_ifs at h with point
    · subst point
      simp only [Bool.and_eq_true, Bool.or_eq_true, List.isEmpty_iff] at h
      have fraction := List.takeWhile_append_dropWhile (p := Char.isDigit) (l := rest)
      refine ⟨v.takeWhile Char.isDigit ++ '.' :: rest.takeWhile Char.isDigit,
        rest.dropWhile Char.isDigit, by simp [fraction, whole], by simp, ?_, h.2⟩
      exact List.forall_mem_append.mpr ⟨digits, List.forall_mem_cons.mpr ⟨rfl, digits⟩⟩
    · simp only [Bool.and_eq_true, Bool.not_eq_true', List.isEmpty_eq_false_iff] at h
      exact ⟨_, c :: rest, whole.symm, h.1, digits, .inr h.2⟩

theorem getLast?_of_isDecimal {v : Text} (h : isDecimal v) :
    ∃ c ∈ v.getLast?, isMantissaChar c := by
  obtain ⟨m, x, rfl, filled, mantissa, exponent⟩ := isDecimal_cases h
  rcases exponent with rfl | exponent
  · rw [List.append_nil]
    exact ⟨_, List.getLast?_eq_some_getLast filled, mantissa _ (List.getLast_mem filled)⟩
  · obtain ⟨mark, sign, d, rfl, -, -, filled, digits⟩ := isExponent_cases exponent
    refine ⟨d.getLast filled, ?_, ?_⟩
    · simp [List.getLast?_append, List.getLast?_cons, List.getLast?_eq_some_getLast filled]
    · simp [isMantissaChar, digits _ (List.getLast_mem filled)]

def SignsMarked (v : Text) : Prop :=
  ∀ l sign r, v = l ++ sign :: r → sign = '+' ∨ sign = '-' →
    sign = '-' ∧ ∃ l' digit, l = l' ++ [digit, 'e'] ∧ digit.isDigit

theorem isExponentMark_reverse {l : Text} :
    Operator.isExponentMark l.reverse ↔ ∃ l' digit, l = l' ++ [digit, 'e'] ∧ digit.isDigit := by
  constructor
  · intro marked
    match hl : l.reverse with
    | e :: digit :: rest =>
      rw [hl] at marked
      simp only [Operator.isExponentMark, Bool.and_eq_true, beq_iff_eq] at marked
      obtain ⟨rfl, digit'⟩ := marked
      refine ⟨rest.reverse, digit, ?_, digit'⟩
      rw [← List.reverse_reverse l, hl]
      simp
    | [] =>
      rw [hl] at marked
      cases marked
    | [e] =>
      rw [hl] at marked
      cases marked
  · rintro ⟨l', digit, rfl, digit'⟩
    simp [Operator.isExponentMark, digit']

theorem absentFrom_iff {v : Text} (h : ∀ c ∈ v, isPlain c ∨ c = '+' ∨ c = '-') :
    Operator.AbsentFrom [] v [] ↔ SignsMarked v := by
  constructor
  · rintro absent l sign r rfl signs
    have here := absent l (sign :: r) rfl (List.cons_ne_nil _ _)
    rw [List.append_nil, List.append_nil] at here
    rcases signs with rfl | rfl
    · cases here
    · rw [Operator.at?_minus] at here
      split_ifs at here with marked
      exact ⟨rfl, isExponentMark_reverse.mp marked⟩
  · rintro marked l r rfl filled
    obtain ⟨c, r, rfl⟩ := List.exists_cons_of_ne_nil filled
    rw [List.append_nil, List.append_nil]
    rcases h c (by simp) with plain | sign
    · exact Operator.at?_of_plain plain _ _
    · obtain ⟨rfl, mark⟩ := marked l c r rfl sign
      rw [Operator.at?_minus, if_pos (isExponentMark_reverse.mpr mark)]

theorem isPlain_of_toLower {c : Char} (h : c.toLower.isAlpha) : isPlain c := by
  unfold Char.toLower at h
  split_ifs at h with upper
  · have letter : c.isUpper = true := decide_eq_true upper
    have alpha : c.isAlpha = true := Bool.or_eq_true_iff.mpr (.inl letter)
    simp [isPlain, Char.isAlphanum, alpha]
  · simp [isPlain, Char.isAlphanum, h]

theorem isPlain_of_isNumberWord {v : Text} (h : isNumberWord v) : ∀ c ∈ v, isPlain c := by
  intro c hc
  have lower : c.toLower ∈ v.map Char.toLower := List.mem_map_of_mem hc
  have words : v.map Char.toLower ∈
      [['i', 'n', 'f'], ['i', 'n', 'f', 'i', 'n', 'i', 't', 'y'], ['n', 'a', 'n']] := by
    simpa [isNumberWord] using h
  have letters : [['i', 'n', 'f'], ['i', 'n', 'f', 'i', 'n', 'i', 't', 'y'], ['n', 'a', 'n']].all
      (fun w => w.all Char.isAlpha) = true := rfl
  have word := List.all_eq_true.mp letters _ words
  exact isPlain_of_toLower (List.all_eq_true.mp word _ lower)

theorem isPlain_of_isDigit {c : Char} (h : c.isDigit) : isPlain c := by
  simp [isPlain, Char.isAlphanum, h]

theorem isPlain_of_isMantissaChar {c : Char} (h : isMantissaChar c) : isPlain c := by
  simp only [isMantissaChar, Bool.or_eq_true] at h
  rcases h with digit | point
  · exact isPlain_of_isDigit digit
  · simp [isPlain, point]

theorem toLower_of_isMantissaChar {c : Char} (h : isMantissaChar c) : c.toLower = c := by
  unfold Char.toLower
  split_ifs with upper
  · have high : 65 ≤ c.val.toNat := UInt32.le_iff_toNat_le.mp upper.1
    simp only [isMantissaChar, Char.isDigit, Bool.or_eq_true, Bool.and_eq_true, decide_eq_true_eq,
      beq_iff_eq, UInt32.le_iff_toNat_le] at h
    rcases h with ⟨-, low⟩ | rfl
    · have low : c.val.toNat ≤ 57 := low
      omega
    · simp at high
  · rfl

theorem not_isWhiteSpace_of_isPlain {c : Char} (h : isPlain c) : isWhiteSpace c = false := by
  by_contra white
  simp only [Bool.not_eq_false, isWhiteSpace, Bool.or_eq_true, Bool.and_eq_true, decide_eq_true_eq,
    beq_iff_eq, Char.toNat] at white
  change (decide (c.val ≥ 65 ∧ c.val ≤ 90) || c.val ≥ 97 && c.val ≤ 122 ||
    c.val ≥ 48 && c.val ≤ 57 || c == '.') = true at h
  simp only [Bool.or_eq_true, Bool.and_eq_true, decide_eq_true_eq, beq_iff_eq, ge_iff_le,
    UInt32.le_iff_toNat_le] at h
  rcases h with ((⟨low, high⟩ | ⟨low, high⟩) | ⟨low, high⟩) | rfl
  · have low : 65 ≤ c.val.toNat := low
    have high : c.val.toNat ≤ 90 := high
    omega
  · have low : 97 ≤ c.val.toNat := low
    have high : c.val.toNat ≤ 122 := high
    omega
  · have low : 48 ≤ c.val.toNat := low
    have high : c.val.toNat ≤ 57 := high
    omega
  · simp at white

theorem trim_of_numeric {t : Text} (h : ∀ c ∈ t, isPlain c ∨ c = '+' ∨ c = '-') : t.trim = t := by
  have solid {c : Char} (hc : c ∈ t) : isWhiteSpace c = false := by
    rcases h c hc with plain | rfl | rfl
    · exact not_isWhiteSpace_of_isPlain plain
    · rfl
    · rfl
  exact Text.trim_eq_self (fun c hc => solid (List.mem_of_head? hc))
    (fun c hc => solid (List.mem_of_getLast? hc))

theorem ofGap_of_plain {t : Text} (h : ∀ c ∈ t, isPlain c) (filled : t ≠ []) :
    Token.ofGap t = [.operand t] := by
  have trimmed := trim_of_numeric fun c hc => .inl (h c hc)
  rw [Token.ofGap_eq (by rwa [trimmed]), trimmed]

theorem absentFrom_of_plain {t : Text} (h : ∀ c ∈ t, isPlain c) (before rest : Text) :
    Operator.AbsentFrom before t rest := by
  rintro l r rfl filled
  obtain ⟨c, r, rfl⟩ := List.exists_cons_of_ne_nil filled
  exact Operator.at?_of_plain (h c (by simp)) _ _

structure SignedExponent where
  mantissa : Text
  mark : Char
  sign : Operator
  digits : Text
  filled : mantissa ≠ []
  mantissa_char : ∀ c ∈ mantissa, isMantissaChar c
  marks : mark = 'e' ∨ mark = 'E'
  signs : sign = .plus ∨ sign = .minus
  digits_filled : digits ≠ []
  isDigit : ∀ c ∈ digits, c.isDigit

namespace SignedExponent

def front (s : SignedExponent) : Text :=
  s.mantissa ++ [s.mark]

def text (s : SignedExponent) : Text :=
  s.front ++ (s.sign.symbol ++ s.digits)

variable (s : SignedExponent)

theorem front_ne_nil : s.front ≠ [] := by
  simp [front]

theorem isPlain_front : ∀ c ∈ s.front, isPlain c := by
  have letter : isPlain s.mark := by
    rcases s.marks with h | h <;> rw [h] <;> rfl
  intro c hc
  rcases List.mem_append.mp hc with inside | last
  · exact isPlain_of_isMantissaChar (s.mantissa_char c inside)
  · rwa [List.mem_singleton.mp last]

theorem isPlain_digits : ∀ c ∈ s.digits, isPlain c :=
  fun c hc => isPlain_of_isDigit (s.isDigit c hc)

theorem isDecimal_front : isDecimal s.front = false := by
  by_contra decimal
  rw [Bool.not_eq_false] at decimal
  obtain ⟨c, last, mantissa⟩ := getLast?_of_isDecimal decimal
  rw [front, List.getLast?_concat, Option.mem_some_iff] at last
  subst last
  rcases s.marks with h | h <;> rw [h] at mantissa <;> cases mantissa

theorem isScript_front : isScript s.front = false := by
  obtain ⟨c, m, hm⟩ := List.exists_cons_of_ne_nil s.filled
  have shape : s.front = c :: (m ++ [s.mark]) := by rw [front, hm, List.cons_append]
  have first : isMantissaChar c := s.mantissa_char c (by rw [hm]; exact List.mem_cons_self)
  have other (d : Char) (h : isMantissaChar d = false) : c ≠ d := by
    rintro rfl
    cases first.symm.trans h
  have words : s.front ≠ ['t', 'r', 'u', 'e'] ∧ s.front ≠ ['f', 'a', 'l', 's', 'e'] := by
    simp [shape, other 't' rfl, other 'f' rfl]
  have unnumbered : isNumberWord s.front = false := by
    simp [isNumberWord, shape, toLower_of_isMantissaChar first, other 'i' rfl, other 'n' rfl]
  have bare : unsigned s.front = s.front := by
    simp [unsigned, shape, other '+' rfl, other '-' rfl]
  have unnamed : isVariable s.front = false := by
    simp [isVariable, variableSigil, shape, other '$' rfl]
  have unquoted : s.front.isQuoted = false := by
    simp [Text.isQuoted, shape, other '\x22' rfl]
  simp only [isScript, isNumber, bare, unnumbered, s.isDecimal_front, unnamed, unquoted,
    Bool.or_false, beq_eq_false_iff_ne.mpr words.1, beq_eq_false_iff_ne.mpr words.2]

theorem isScript_digits : isScript s.digits := by
  obtain ⟨c, d, hd⟩ := List.exists_cons_of_ne_nil s.digits_filled
  have first : c.isDigit := s.isDigit c (by rw [hd]; exact List.mem_cons_self)
  have bare : unsigned s.digits = s.digits := by
    rw [hd, unsigned, if_neg]
    rintro (rfl | rfl) <;> cases first
  have whole : s.digits.takeWhile Char.isDigit = s.digits :=
    List.takeWhile_eq_self_iff.mpr s.isDigit
  have none : s.digits.dropWhile Char.isDigit = [] := List.dropWhile_eq_nil_iff.mpr s.isDigit
  have decimal : isDecimal s.digits := by
    simp [isDecimal, whole, none, isTail, s.digits_filled]
  simp [isScript, isNumber, bare, decimal]

theorem numeric_text : ∀ c ∈ s.text, isPlain c ∨ c = '+' ∨ c = '-' := by
  intro c hc
  rcases List.mem_append.mp hc with front | hc
  · exact .inl (s.isPlain_front c front)
  rcases List.mem_append.mp hc with sign | digit
  · right
    rcases s.signs with h | h <;> rw [h] at sign
    · exact .inl (List.mem_singleton.mp sign)
    · exact .inr (List.mem_singleton.mp sign)
  · exact .inl (s.isPlain_digits c digit)

theorem absent_or_stands :
    Operator.AbsentFrom [] s.text [] ∨
      Operator.at? (s.front.reverse ++ []) (s.sign.symbol ++ s.digits) = some s.sign := by
  rcases s.signs with plus | minus
  · rw [plus]
    exact .inr (Operator.at?_plus _ _)
  · by_cases marked : Operator.isExponentMark s.front.reverse
    · left
      rw [text, minus, Operator.absentFrom_append]
      refine ⟨absentFrom_of_plain s.isPlain_front _ _, Operator.absentFrom_cons.mpr ⟨?_, ?_⟩⟩
      · rw [List.append_nil, Operator.at?_minus, if_pos marked]
      · exact absentFrom_of_plain s.isPlain_digits _ _
    · right
      rw [minus, List.append_nil]
      exact (Operator.at?_minus _ _).trans (if_neg marked)

theorem next?_split (stands :
    Operator.at? (s.front.reverse ++ []) (s.sign.symbol ++ s.digits) = some s.sign) :
    Operator.next? s.text 0 = some (Text.byteLength s.front, s.sign) := by
  have first := Operator.nextFrom_absent 0 (absentFrom_of_plain s.isPlain_front _ _) stands
  rwa [Nat.zero_add] at first

theorem reads (stands :
    Operator.at? (s.front.reverse ++ []) (s.sign.symbol ++ s.digits) = some s.sign) :
    Reads false [] s.text [.operand s.front, .operator s.sign, .operand s.digits] := by
  have plain : s.sign ≠ .openGroup ∧ s.sign ≠ .closeGroup := by
    rcases s.signs with h | h <;> rw [h] <;> decide
  have tail := @Reads.last false (s.sign.symbol.reverse ++ (s.front.reverse ++ []))
    s.digits (absentFrom_of_plain s.isPlain_digits _ _)
  have whole := @Reads.operator false _ _ _ _ _
    (absentFrom_of_plain s.isPlain_front _ _) stands (fun opens => absurd opens plain.1)
    (by simpa [plain.2] using tail)
  rwa [ofGap_of_plain s.isPlain_front s.front_ne_nil,
    ofGap_of_plain s.isPlain_digits s.digits_filled] at whole

theorem convert?_split (stands :
    Operator.at? (s.front.reverse ++ []) (s.sign.symbol ++ s.digits) = some s.sign) :
    Formula.convert? s.text =
      .ok ⟨s.front.quote ++ ' ' :: (s.sign.symbol ++ ' ' :: s.digits), []⟩ := by
  have binary : 0 < s.sign.precedence ∧ s.sign.precedence + 1 ≤ 8 := by
    rcases s.signs with h | h <;> rw [h] <;> decide
  have left : Grammar.Marked none false s.sign.precedence [.operand s.front]
      (.operand s.front none) := (Grammar.Marked.operand s.front_ne_nil).lower (by omega)
  have right : Grammar.Marked none false (s.sign.precedence + 1) [.operand s.digits]
      (.operand s.digits none) := (Grammar.Marked.operand s.digits_filled).lower (by omega)
  have marked := (Grammar.Marked.node left binary.1 right).lower (show 1 ≤ _ from binary.1)
  rw [Formula.convert?, marked.ofText_plain (s.reads stands)]
  have front : ofOperand s.front = s.front.quote := by
    rw [ofOperand, s.isScript_front]
    rfl
  have digits : ofOperand s.digits = s.digits := if_pos s.isScript_digits
  have token : s.sign.token = s.sign.symbol := by
    rcases s.signs with h | h <;> rw [h] <;> rfl
  change Except.ok (Conversion.mk (Text.join [' '] [ofOperand s.front, s.sign.token,
    ofOperand s.digits]) []) = _
  rw [front, digits, token]
  simp [Text.join]

end SignedExponent

theorem unsigned_eq {v : Text} (bare : ∀ c ∈ v.head?, c ≠ '+' ∧ c ≠ '-') : unsigned v = v := by
  cases v with
  | nil => rfl
  | cons c v =>
    obtain ⟨plus, minus⟩ := bare c rfl
    simp [unsigned, plus, minus]

theorem isNumber_cases {v : Text} (number : isNumber v)
    (bare : ∀ c ∈ v.head?, c ≠ '+' ∧ c ≠ '-') :
    (∀ c ∈ v, isPlain c) ∨ ∃ s : SignedExponent, s.text = v := by
  rw [isNumber, unsigned_eq bare, Bool.or_eq_true] at number
  rcases number with word | decimal
  · exact .inl (isPlain_of_isNumberWord word)
  obtain ⟨m, x, rfl, filled, mantissa, exponent⟩ := isDecimal_cases decimal
  have plain : ∀ c ∈ m, isPlain c := fun c hc => isPlain_of_isMantissaChar (mantissa c hc)
  rcases exponent with rfl | exponent
  · exact .inl (by rwa [List.append_nil])
  obtain ⟨mark, sign, d, rfl, marks, signs, filled', digits⟩ := isExponent_cases exponent
  have letter : isPlain mark := by rcases marks with rfl | rfl <;> rfl
  rcases signs with rfl | rfl | rfl
  · have number : ∀ c ∈ d, isPlain c := fun c hc => isPlain_of_isDigit (digits c hc)
    exact .inl (List.forall_mem_append.mpr ⟨plain, List.forall_mem_cons.mpr ⟨letter, number⟩⟩)
  · refine .inr ⟨⟨m, mark, .plus, d, filled, mantissa, marks, .inl rfl, filled', digits⟩, ?_⟩
    simp [SignedExponent.text, SignedExponent.front, Operator.symbol]
  · refine .inr ⟨⟨m, mark, .minus, d, filled, mantissa, marks, .inr rfl, filled', digits⟩, ?_⟩
    simp [SignedExponent.text, SignedExponent.front, Operator.symbol]

theorem numeric_of_isNumber {v : Text} (number : isNumber v)
    (bare : ∀ c ∈ v.head?, c ≠ '+' ∧ c ≠ '-') : ∀ c ∈ v, isPlain c ∨ c = '+' ∨ c = '-' := by
  rcases isNumber_cases number bare with plain | ⟨s, rfl⟩
  · exact fun c hc => .inl (plain c hc)
  · exact s.numeric_text

end Literal

namespace Formula

theorem convert?_literal {v : Text} (absent : Operator.AbsentFrom [] v []) (trimmed : v.trim = v)
    (filled : v ≠ []) (literal : Literal.isScript v) : convert? v = .ok ⟨v, []⟩ := by
  have reads := @Reads.last false [] v absent
  rw [Token.ofGap_eq (by rwa [trimmed]), trimmed] at reads
  have marked : Grammar.Marked none false 1 [.operand v] (.operand v none) :=
    (Grammar.Marked.operand filled).lower (by decide)
  have written : Literal.ofOperand v = v := if_pos literal
  rw [convert?, marked.ofText_plain reads]
  change Except.ok (Conversion.mk (Literal.ofOperand v) []) = _
  rw [written]

/-- A number is one operand, and written as it stands, exactly when every sign in it is a minus sign
behind a digit and an `e`. Else the sign of its exponent is read as an operator between the digits
of the exponent and what stands before it, which is no number and gets quoted. -/
theorem convert?_number {v : Text} (number : Literal.isNumber v)
    (bare : ∀ c ∈ v.head?, c ≠ '+' ∧ c ≠ '-') :
    (Operator.next? v 0 = none ↔ Literal.SignsMarked v) ∧
      (convert? v = .ok ⟨v, []⟩ ↔ Literal.SignsMarked v) ∧
      (¬ Literal.SignsMarked v → ∃ (m d : Text) (op : Operator), v = m ++ (op.symbol ++ d) ∧
        (op = .plus ∨ op = .minus) ∧ (∀ c ∈ d, c.isDigit) ∧
        Operator.next? v 0 = some (Text.byteLength m, op) ∧
        convert? v = .ok ⟨m.quote ++ ' ' :: (op.symbol ++ ' ' :: d), []⟩) := by
  have numeric := Literal.numeric_of_isNumber number bare
  have absent := Literal.absentFrom_iff numeric
  have next : Operator.next? v 0 = none ↔ Literal.SignsMarked v :=
    (Operator.nextFrom_eq_none_iff 0).trans absent
  have filled : v ≠ [] := by
    rintro rfl
    cases number
  have literal : Literal.isScript v := by simp [Literal.isScript, number]
  have whole (marked : Literal.SignsMarked v) : convert? v = .ok ⟨v, []⟩ :=
    convert?_literal (absent.mpr marked) (Literal.trim_of_numeric numeric) filled literal
  have split (unmarked : ¬ Literal.SignsMarked v) : ∃ s : Literal.SignedExponent, s.text = v ∧
      Operator.at? (s.front.reverse ++ []) (s.sign.symbol ++ s.digits) = some s.sign := by
    rw [← absent] at unmarked
    rcases Literal.isNumber_cases number bare with plain | ⟨s, rfl⟩
    · exact absurd (Literal.absentFrom_of_plain plain [] []) unmarked
    · exact ⟨s, rfl, s.absent_or_stands.resolve_left unmarked⟩
  refine ⟨next, ⟨?_, whole⟩, ?_⟩
  · intro same
    by_contra unmarked
    obtain ⟨s, rfl, stands⟩ := split unmarked
    -- The quotes and blanks make the output longer.
    rw [s.convert?_split stands] at same
    have lengths := congrArg (fun c => c.map (·.output.length)) same
    simp [Except.map, Literal.SignedExponent.text, Text.quote] at lengths
    omega
  · intro unmarked
    obtain ⟨s, rfl, stands⟩ := split unmarked
    exact ⟨s.front, s.digits, s.sign, rfl, s.signs, s.isDigit, s.next?_split stands,
      s.convert?_split stands⟩

theorem convert?_number_exponents :
    (∀ v ∈ ["1.5e-3".toList, "7.E+0".toList],
        Literal.isNumber v ∧ ∀ c ∈ v.head?, c ≠ '+' ∧ c ≠ '-') ∧
      Literal.SignsMarked "1.5e-3".toList ∧
      convert? "1.5e-3".toList = .ok ⟨"1.5e-3".toList, []⟩ ∧
      ¬ Literal.SignsMarked "7.E+0".toList ∧
      ∃ (m d : Text) (op : Operator), "7.E+0".toList = m ++ (op.symbol ++ d) ∧
        convert? "7.E+0".toList = .ok ⟨m.quote ++ ' ' :: (op.symbol ++ ' ' :: d), []⟩ := by
  have bare : ∀ c ∈ "1.5e-3".toList.head?, c ≠ '+' ∧ c ≠ '-' := by
    rintro c ⟨⟩
    decide
  have bare' : ∀ c ∈ "7.E+0".toList.head?, c ≠ '+' ∧ c ≠ '-' := by
    rintro c ⟨⟩
    decide
  obtain ⟨next, converted, -⟩ := convert?_number (v := "1.5e-3".toList) rfl bare
  obtain ⟨next', -, split⟩ := convert?_number (v := "7.E+0".toList) rfl bare'
  have marked : Literal.SignsMarked "1.5e-3".toList := next.mp rfl
  have unmarked : ¬ Literal.SignsMarked "7.E+0".toList := by
    have stands : Operator.next? "7.E+0".toList 0 = some (3, .plus) := rfl
    rw [← next', stands]
    exact Option.some_ne_none _
  obtain ⟨m, d, op, whole, -, -, -, output⟩ := split unmarked
  refine ⟨List.forall_mem_cons.mpr ⟨⟨rfl, bare⟩, List.forall_mem_singleton.mpr ⟨rfl, bare'⟩⟩,
    marked, converted.mpr marked, unmarked, m, d, op, whole, output⟩

theorem convert?_number_torn :
    (∀ v ∈ ["1e+5".toList, "1E-5".toList, "1.e-5".toList],
        Literal.isNumber v ∧ (∀ c ∈ v.head?, c ≠ '+' ∧ c ≠ '-') ∧ Operator.next? v 0 ≠ none) ∧
      convert? "1e+5".toList = .ok ⟨"\"1e\" + 5".toList, []⟩ ∧
      convert? "1E-5".toList = .ok ⟨"\"1E\" - 5".toList, []⟩ ∧
      convert? "1.e-5".toList = .ok ⟨"\"1.e\" - 5".toList, []⟩ := by
  refine ⟨?_, rfl, rfl, rfl⟩
  have unsigned (c : Char) (h : c ∈ some '1') : c ≠ '+' ∧ c ≠ '-' := by
    cases h
    decide
  simp only [List.forall_mem_cons, Option.ne_none_iff_isSome]
  exact ⟨⟨rfl, unsigned, rfl⟩, ⟨rfl, unsigned, rfl⟩, ⟨rfl, unsigned, rfl⟩, nofun⟩

end Formula

end FormulaMigration
