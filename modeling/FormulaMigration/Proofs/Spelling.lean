import FormulaMigration.Proofs.Operand
import FormulaMigration.Script

namespace FormulaMigration

namespace Script

theorem join_cons (separator t : Text) {us : List Text} (hu : us ≠ []) :
    Text.join separator (t :: us) = t ++ separator ++ Text.join separator us := by
  obtain ⟨u, us, rfl⟩ := List.exists_cons_of_ne_nil hu
  rfl

theorem join_append {separator : Text} {ts us : List Text} (ht : ts ≠ []) (hu : us ≠ []) :
    Text.join separator (ts ++ us) =
      Text.join separator ts ++ separator ++ Text.join separator us := by
  induction ts with
  | nil => exact absurd rfl ht
  | cons t ts ih =>
    cases ts with
    | nil => exact join_cons separator t hu
    | cons t' ts =>
      have tail := ih (by simp)
      have nonempty : t' :: ts ++ us ≠ [] := by simp
      rw [List.cons_append, join_cons separator t nonempty, tail,
        join_cons separator t (List.cons_ne_nil t' ts)]
      simp

theorem join_mapFirst (separator s : Text) {ts : List Text} (h : ts ≠ []) :
    Text.join separator (mapFirst (s ++ ·) ts) = s ++ Text.join separator ts := by
  match ts, h with
  | [t], _ => rfl
  | t :: u :: ts, _ => simp [mapFirst, Text.join]

theorem join_mapLast (separator s : Text) {ts : List Text} (h : ts ≠ []) :
    Text.join separator (mapLast (· ++ s) ts) = Text.join separator ts ++ s := by
  induction ts with
  | nil => exact absurd rfl h
  | cons t ts ih =>
    cases ts with
    | nil => rfl
    | cons u ts =>
      have tail := ih (by simp)
      cases ts <;> simp_all [mapLast, Text.join]

theorem mapFirst_ne_nil {f : Text → Text} {ts : List Text} (h : ts ≠ []) : mapFirst f ts ≠ [] := by
  cases ts <;> simp_all [mapFirst]

theorem mapLast_ne_nil {f : Text → Text} {ts : List Text} (h : ts ≠ []) : mapLast f ts ≠ [] := by
  match ts, h with
  | [t], _ => simp [mapLast]
  | t :: u :: ts, _ => simp [mapLast]

theorem inParentheses_ne_nil {ts : List Text} (h : ts ≠ []) : inParentheses ts ≠ [] :=
  mapLast_ne_nil (mapFirst_ne_nil h)

theorem join_inParentheses (separator : Text) {ts : List Text} (h : ts ≠ []) :
    Text.join separator (inParentheses ts) = '(' :: (Text.join separator ts ++ [')']) := by
  have opened := join_mapFirst separator ['('] h
  rw [inParentheses, join_mapLast _ _ (mapFirst_ne_nil h)]
  simp_all

end Script

namespace Token

def spelling : Token → Text
  | operand value => value
  | operator op => if op.precedence = 0 then op.symbol else ' ' :: (op.symbol ++ [' '])
  | arguments a => '(' :: (a ++ [')'])

def spell (ts : List Token) : Text :=
  ts.flatMap spelling

/-- Tokens in which operators stand between operands, and what is an operand can be read back.
`after` says that an operand or a group came last. -/
inductive Alternates : (after : Bool) → List Token → Prop
  | nil {after : Bool} : Alternates after []
  | operand {value : Text} {ts : List Token} (inert : Operator.Inert value)
      (trimmed : value.trim = value) (filled : value ≠ []) (tail : Alternates true ts) :
      Alternates false (.operand value :: ts)
  | opens {ts : List Token} (tail : Alternates false ts) :
      Alternates false (.operator .openGroup :: ts)
  | closes {ts : List Token} (tail : Alternates true ts) :
      Alternates true (.operator .closeGroup :: ts)
  | binary {op : Operator} {ts : List Token} (h : 0 < op.precedence)
      (tail : Alternates false ts) : Alternates true (.operator op :: ts)

theorem Alternates.head?_ne {ts : List Token} (h : Alternates false ts)
    (plain : ∀ value, .operand value ∈ ts → value.head? ≠ some '=') :
    (spell ts).head? ≠ some '=' := by
  intro hc
  cases h with
  | nil => simp [spell] at hc
  | @operand value ts inert trimmed filled tail =>
    obtain ⟨c, rest, rfl⟩ := List.exists_cons_of_ne_nil filled
    obtain rfl : c = '=' := by simpa [spell, spelling] using hc
    exact plain ('=' :: rest) (by simp) rfl
  | opens tail => simp [spell, spelling, Operator.symbol, Operator.precedence] at hc

end Token

namespace Operator

theorem token_of_isUnary {op : Operator} (h : op.isUnary) : op.token = op.symbol := by
  cases op <;> first | rfl | cases h

theorem at?_unary {op : Operator} (h : op.isUnary) {rest : Text} (hr : rest.head? ≠ some '=') :
    at? [] (op.symbol ++ rest) = some op := by
  cases op with
  | negation =>
    cases rest with
    | nil => rfl
    | cons c rest =>
      have plain : c ≠ '=' := by simpa using hr
      simp [at?, all, standsAt, symbol, List.isPrefixOf, plain.symm]
  | plus => rfl
  | minus => rfl
  | _ => cases h

theorem at?_blank {c : Char} (h : isBlank c) (before rest : Text) :
    at? before (c :: rest) = none := by
  simp only [isBlank, Bool.or_eq_true, beq_iff_eq] at h
  rcases h with ((rfl | rfl) | rfl) | rfl <;> rfl

theorem absentFrom_blank {gap : Text} (h : ∀ c ∈ gap, isBlank c) (before rest : Text) :
    AbsentFrom before gap rest := by
  induction gap generalizing before with
  | nil => exact absentFrom_nil _ _
  | cons c gap ih =>
    exact absentFrom_cons.mpr ⟨at?_blank (h c (by simp)) _ _, ih (fun d hd => h d (by simp [hd])) _⟩

theorem at?_symbol (op : Operator) (before rest : Text) :
    at? (' ' :: before) (op.symbol ++ ' ' :: rest) = some op := by
  cases op <;> cases before <;> rfl

end Operator

namespace Token

theorem isOperand_blank {gap : Text} (h : ∀ c ∈ gap, isBlank c) : Lexeme.isOperand gap = false := by
  simpa [Lexeme.isOperand] using h

theorem ofGap_append_blank (gap : Text) : ofGap (gap ++ [' ']) = ofGap gap := by
  have white : ∀ c ∈ [' '], isWhiteSpace c := Text.isWhiteSpace_of_blank (by simp [isBlank])
  unfold ofGap
  rw [Text.trim_append_right white]
  simp [Lexeme.isOperand, isBlank]

end Token

namespace Reads

theorem of_alternates {after : Bool} {ts : List Token} (h : Token.Alternates after ts)
    {named : Bool} {before blank value : Text} (hb : ∀ c ∈ blank, isBlank c)
    (inert : Operator.Inert value) (fresh : after = false → value = [] ∧ named = false) :
    Reads named before (blank ++ value ++ Token.spell ts) (Token.ofGap (blank ++ value) ++ ts) := by
  induction h generalizing named before blank value with
  | nil =>
    have absent : Operator.AbsentFrom before (blank ++ value) [] :=
      Operator.absentFrom_append.mpr ⟨Operator.absentFrom_blank hb _ _, inert _ _ (by simp)⟩
    simpa [Token.spell] using Reads.last absent
  | @operand value' ts inert' trimmed filled tail ih =>
    obtain ⟨rfl, rfl⟩ := fresh rfl
    have white := Text.isWhiteSpace_of_blank hb
    have trim : Text.trim (blank ++ value') = value' := by
      rw [Text.trim_append_left white, trimmed]
    have reads := @ih false before blank value' hb inert' (by simp)
    rw [Token.ofGap_eq (by rwa [trim]), trim] at reads
    rw [List.append_nil, Token.ofGap_blank hb]
    simpa [Token.spell, Token.spelling] using reads
  | @opens ts tail ih =>
    obtain ⟨rfl, rfl⟩ := fresh rfl
    have reads := @ih false ('(' :: (blank.reverse ++ before)) [] [] (by simp) Operator.inert_nil
      fun _ => ⟨rfl, rfl⟩
    have absent := Operator.absentFrom_blank hb before ('(' :: Token.spell ts)
    rw [List.append_nil]
    refine Reads.operator absent (Operator.at?_open _ _) (fun _ => ?_) reads
    simp [Token.isOperand_blank hb]
  | @closes ts tail ih =>
    have reads := @ih (named || Lexeme.isOperand (blank ++ value))
      (')' :: ((blank ++ value).reverse ++ before)) [] [] (by simp) Operator.inert_nil (by simp)
    have absent : Operator.AbsentFrom before (blank ++ value) (')' :: Token.spell ts) :=
      Operator.absentFrom_append.mpr ⟨Operator.absentFrom_blank hb _ _,
        inert _ _ (by simp [Operator.isSecond])⟩
    exact Reads.operator absent (Operator.at?_close _ _) (by simp) reads
  | @binary op ts h tail ih =>
    have reads := @ih false (op.symbol.reverse ++ ((blank ++ value ++ [' ']).reverse ++ before))
      [' '] [] (by simp [isBlank]) Operator.inert_nil fun _ => ⟨rfl, rfl⟩
    have absent : Operator.AbsentFrom before (blank ++ value ++ [' '])
        (op.symbol ++ ' ' :: Token.spell ts) := by
      refine Operator.absentFrom_append.mpr ⟨Operator.absentFrom_append.mpr
        ⟨Operator.absentFrom_blank hb _ _, inert _ _ (by simp [Operator.isSecond])⟩, ?_⟩
      exact Operator.absentFrom_blank (by simp [isBlank]) _ _
    have first : Operator.at? ((blank ++ value ++ [' ']).reverse ++ before)
        (op.symbol ++ ' ' :: Token.spell ts) = some op := by
      rw [List.reverse_append]
      exact Operator.at?_symbol op _ _
    have plain : op ≠ .openGroup ∧ op ≠ .closeGroup := by
      constructor <;> rintro rfl <;> cases h
    have bare : Token.ofGap [' '] = [] := rfl
    rw [List.append_nil, bare] at reads
    have whole := @Reads.operator named before (blank ++ value ++ [' ']) _ op ts absent first
      (fun ho => absurd ho plain.1) (by simpa [plain.2] using reads)
    rw [Token.ofGap_append_blank] at whole
    simpa [Token.spell, Token.spelling, Nat.ne_of_gt h] using whole

end Reads

end FormulaMigration
