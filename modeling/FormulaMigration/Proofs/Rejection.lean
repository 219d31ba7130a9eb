import FormulaMigration.Ledger
import FormulaMigration.Proofs.Leaves

/-!
Output and ledger tell the same. Main statement: a text that is no formula is kept and gives one
issue, and every other issue is for an argument that was rejected and has its place in the output.
-/

namespace FormulaMigration

theorem Text.exists_join_of_mem (separator : Text) {t : Text} {ts : List Text} (h : t ∈ ts) :
    ∃ l r, join separator ts = l ++ (t ++ r) := by
  induction ts with
  | nil => cases h
  | cons u ts ih =>
    cases ts with
    | nil =>
      obtain rfl := List.mem_singleton.mp h
      exact ⟨[], [], by simp [join]⟩
    | cons v ts =>
      rcases List.mem_cons.mp h with rfl | h
      · exact ⟨[], separator ++ join separator (v :: ts), by simp [join]⟩
      · obtain ⟨l, r, whole⟩ := ih h
        exact ⟨u ++ separator ++ l, r, by simp [join, whole]⟩

theorem Text.byteLength_le_join (separator : Text) {t : Text} {ts : List Text} (h : t ∈ ts) :
    byteLength t ≤ byteLength (join separator ts) := by
  obtain ⟨l, r, whole⟩ := exists_join_of_mem separator h
  rw [whole, byteLength_append, byteLength_append]
  omega

theorem Arguments.exists_of_mem {a t : Text} (h : t ∈ ofText a) : ∃ l r, a = l ++ (t ++ r) := by
  have whole := Text.exists_join_of_mem [','] ((List.takeWhile_sublist _).subset h)
  rwa [join_pieces] at whole

theorem Arguments.byteLength_le {a t : Text} (h : t ∈ ofText a) :
    Text.byteLength t ≤ Text.byteLength a := by
  obtain ⟨l, r, rfl⟩ := exists_of_mem h
  rw [Text.byteLength_append, Text.byteLength_append]
  omega

theorem Lexeme.byteLength_pos {gap : Text} (h : isOperand gap = true) :
    0 < Text.byteLength gap := by
  cases gap with
  | nil => cases h
  | cons c gap =>
    have := c.utf8Size_pos
    rw [Text.byteLength]
    omega

theorem Reads.byteLength_le {named : Bool} {before t : Text} {ts : List Token}
    (h : Reads named before t ts) {a : Text} (ha : .arguments a ∈ ts) :
    Text.byteLength a + 3 ≤ Text.byteLength t + if named then 1 else 0 := by
  have notGap {gap : Text} : .arguments a ∉ Token.ofGap gap := by
    unfold Token.ofGap
    split_ifs <;> simp
  induction h with
  | last absent => exact absurd ha notGap
  | @operator named before gap rest op ts absent first uncalled tail ih =>
    have later := ih (by simpa [notGap] using ha)
    have symbol := op.byteLength_symbol_pos
    rw [Text.byteLength_append, Text.byteLength_append]
    split_ifs at later <;> omega
  | @call named before gap a' rest ts absent called matching tail ih =>
    have opening : Text.byteLength ['('] = 1 := rfl
    have closing : Text.byteLength [')'] = 1 := rfl
    have whole : Text.byteLength (gap ++ '(' :: (a' ++ ')' :: rest)) =
        Text.byteLength gap + (1 + (Text.byteLength a' + (1 + Text.byteLength rest))) := by
      rw [← List.singleton_append, ← List.singleton_append (l := rest)]
      simp only [Text.byteLength_append, opening, closing]
    rw [whole]
    rcases List.mem_append.mp ha with ha | ha
    · exact absurd ha notGap
    rcases List.mem_cons.mp ha with ha | ha
    · cases ha
      cases named with
      | true => simp only [if_true]; omega
      | false =>
        have filled : Lexeme.isOperand gap = true := by simpa using called
        have := Lexeme.byteLength_pos filled
        omega
    · have := ih ha
      simp only [Bool.false_eq_true, if_false] at this
      omega

namespace Token

theorem mem_of_argumentsNext {ts : List Token} {a : Text} (h : argumentsNext ts = some a) :
    .arguments a ∈ ts := by
  induction ts with
  | nil => cases h
  | cons t ts ih =>
    cases t with
    | operand value => cases h
    | operator op =>
      rw [argumentsNext] at h
      split_ifs at h with closes
      exact List.mem_cons_of_mem _ (ih h)
    | arguments a' =>
      cases h
      exact List.mem_cons_self

theorem Leaves.arguments_mem {ts : List Token} {fs : List Formula} (h : Leaves ts fs)
    {function a : Text} {sign : Option Operator} (hc : .call function a sign ∈ fs) :
    .arguments a ∈ ts := by
  induction h with
  | nil => cases hc
  | operand alone tail ih => exact List.mem_cons_of_mem _ (ih (by simpa using hc))
  | call next h tail ih =>
    rcases List.mem_cons.mp hc with hc | hc
    · cases hc
      exact List.mem_cons_of_mem _ (mem_of_argumentsNext next)
    · exact List.mem_cons_of_mem _ (ih hc)
  | operator op tail ih => exact List.mem_cons_of_mem _ (ih hc)
  | arguments a tail ih => exact List.mem_cons_of_mem _ (ih hc)

end Token

theorem Formula.byteLength_le_of_call {t : Text} {f : Formula} (h : ofText t = .ok f)
    {function a : Text} {sign : Option Operator} (hc : .call function a sign ∈ f.leaves) :
    Text.byteLength a + 3 ≤ Text.byteLength t := by
  obtain ⟨ts, reads, -, leaves⟩ := exists_reads h
  have called := leaves.arguments_mem (List.mem_map_of_mem (f := unsigned) hc)
  simpa using reads.byteLength_le called

theorem Formula.byteLength_le_of_part {t u : Text} {f : Formula} (h : ofText t = .ok f)
    {function a : Text} {sign : Option Operator} (hc : .call function a sign ∈ f.leaves)
    (hu : u ∈ Arguments.ofText a) : Text.byteLength u + 3 ≤ Text.byteLength t := by
  have call := byteLength_le_of_call h hc
  have part := Arguments.byteLength_le hu
  omega

namespace Script

def nested (t : Text) : Script :=
  ofArgument (Text.byteLength t / 3 + 1) t

theorem ofFormulaWith_congr {formula formula' : Text → Script} {f : Formula}
    (h : ∀ function a sign, .call function a sign ∈ f.leaves →
      ∀ t ∈ Arguments.ofText a, formula t = formula' t) :
    ofFormulaWith formula f = ofFormulaWith formula' f := by
  induction f with
  | missing => rfl
  | operand value sign => rfl
  | call function a sign =>
    have same (position : Nat) {ts : List Text} (hs : ∀ t ∈ ts, formula t = formula' t) :
        argumentsFrom formula function position ts =
          argumentsFrom formula' function position ts := by
      induction ts generalizing position with
      | nil => rfl
      | cons t ts ih =>
        have tail := ih (position + 1) fun u hu => hs u (List.mem_cons_of_mem _ hu)
        rw [argumentsFrom, argumentsFrom, tail, argument, argument, hs t List.mem_cons_self]
    have parts := same 0 (h function a sign List.mem_cons_self)
    rw [ofFormulaWith, ofFormulaWith, call, call, parts]
  | node left right op sign grouped ihl ihr =>
    have l := ihl fun function a sign hc => h function a sign (List.mem_append_left _ hc)
    have r := ihr fun function a sign hc => h function a sign (List.mem_append_right _ hc)
    rw [ofFormulaWith, ofFormulaWith, l, r]

theorem ofArgument_eq {depth depth' : Nat} {t : Text} (h : Text.byteLength t / 3 < depth)
    (h' : Text.byteLength t / 3 < depth') : ofArgument depth t = ofArgument depth' t := by
  induction depth generalizing depth' t with
  | zero => omega
  | succ depth ih =>
    obtain ⟨depth', rfl⟩ : ∃ n, depth' = n + 1 := ⟨depth' - 1, by omega⟩
    rw [ofArgument, ofArgument]
    cases hf : Formula.ofText t with
    | error e => rfl
    | ok f =>
      apply ofFormulaWith_congr
      intro function a sign hc u hu
      have shorter := Formula.byteLength_le_of_part hf hc hu
      apply ih <;> omega

theorem nested_of_ok {t : Text} {f : Formula} (h : Formula.ofText t = .ok f) :
    nested t = ofFormula f := by
  rw [nested, ofArgument, h]
  apply ofFormulaWith_congr
  intro function a sign hc u hu
  have shorter := Formula.byteLength_le_of_part h hc hu
  apply ofArgument_eq <;> omega

theorem nested_of_error {t : Text} {e : FormulaError} (h : Formula.ofText t = .error e) :
    nested t = placeholder t e := by
  rw [nested, ofArgument, h]

structure Rejection where
  argument : Text
  error : FormulaError

def Rejection.issue (r : Rejection) : Issue :=
  ⟨.argumentPlaceholder, r.argument.trim, r.error.message⟩

def copied? (function : Text) (position : Nat) (t : Text) : Option Text :=
  if takesDiceLiterals function then
    if (position = 0 ∨ function ≠ diceRoll) ∧ '(' ∉ t then some (diceLiteral t) else none
  else if t.isQuoted then some t
  else none

theorem argument_of_copied {formula : Text → Script} {function : Text} {position : Nat}
    {t token : Text} (h : copied? function position t = some token) :
    argument formula function position t = ⟨[token], []⟩ := by
  unfold copied? at h
  unfold argument
  split_ifs at h with dice literal quoted
  · cases h
    simp_all [Script.token]
  · cases h
    simp_all [Script.token]

theorem argument_of_read {formula : Text → Script} {function : Text} {position : Nat} {t : Text}
    (h : copied? function position t = none) :
    argument formula function position t = formula t := by
  unfold copied? at h
  unfold argument
  split_ifs at h with dice literal quoted
  · simp_all
  · simp_all

def beforeNext {α : Type} (rest : List α) (tokens : List Text) : List Text :=
  if rest.isEmpty then tokens else mapLast (· ++ [',']) tokens

theorem separate_cons (s : Script) (rest : List Script) :
    separate (s :: rest) = ⟨beforeNext rest s.tokens ++ (separate rest).tokens,
      s.issues ++ (separate rest).issues⟩ := by
  cases rest with
  | nil => simp [separate, beforeNext, empty]
  | cons u rest => rfl

theorem isEmpty_argumentsFrom (formula : Text → Script) (function : Text) (position : Nat)
    (ts : List Text) : (argumentsFrom formula function position ts).isEmpty = ts.isEmpty := by
  cases ts <;> rfl

theorem separate_argumentsFrom_cons (formula : Text → Script) (function : Text) (position : Nat)
    (t : Text) (rest : List Text) :
    separate (argumentsFrom formula function position (t :: rest)) =
      ⟨beforeNext rest (argument formula function position t).tokens ++
          (separate (argumentsFrom formula function (position + 1) rest)).tokens,
        (argument formula function position t).issues ++
          (separate (argumentsFrom formula function (position + 1) rest)).issues⟩ := by
  rw [argumentsFrom, separate_cons, beforeNext, isEmpty_argumentsFrom, ← beforeNext]

def nodeTokens (left right : Formula) (operator sign : Option Operator) (grouped : Bool)
    (ts us : List Text) : List Text :=
  let tokens := ts ++ operatorTokens left right operator ++ us
  let tokens := if left.isPresent && right.isPresent then tokens else withSign sign tokens
  if grouped then inParentheses tokens else tokens

inductive Part
  | formula (f : Formula)
  | arguments (function : Text) (position : Nat) (ts : List Text)

/-- The tokens of a formula or of arguments, and the arguments that are rejected on the way, at any
depth. -/
inductive Written : Part → List Text → List Rejection → Prop
  | missing : Written (.formula .missing) [] []
  | operand (value : Text) (sign : Option Operator) :
      Written (.formula (.operand value sign)) [signToken sign ++ Literal.ofOperand value] []
  | node {left right : Formula} {ts us : List Text} {rs rs' : List Rejection}
      (operator sign : Option Operator) (grouped : Bool) (l : Written (.formula left) ts rs)
      (r : Written (.formula right) us rs') :
      Written (.formula (.node left right operator sign grouped))
        (nodeTokens left right operator sign grouped ts us) (rs ++ rs')
  | call {function a : Text} {ts : List Text} {rs : List Rejection} (sign : Option Operator)
      (parts : Written (.arguments function 0 (Arguments.ofText a)) ts rs) :
      Written (.formula (.call function a sign))
        [signToken sign ++ function ++ '(' :: Text.join [' '] ts ++ [')']] rs
  | nil (function : Text) (position : Nat) : Written (.arguments function position []) [] []
  | copied {function t token : Text} {position : Nat} {rest us : List Text} {rs : List Rejection}
      (h : copied? function position t = some token)
      (tail : Written (.arguments function (position + 1) rest) us rs) :
      Written (.arguments function position (t :: rest)) (beforeNext rest [token] ++ us) rs
  | read {function t : Text} {position : Nat} {f : Formula} {rest ts us : List Text}
      {rs rs' : List Rejection} (h : copied? function position t = none)
      (reading : Formula.ofText t = .ok f) (inner : Written (.formula f) ts rs)
      (tail : Written (.arguments function (position + 1) rest) us rs') :
      Written (.arguments function position (t :: rest)) (beforeNext rest ts ++ us) (rs ++ rs')
  | rejected {function t : Text} {position : Nat} {e : FormulaError} {rest us : List Text}
      {rs : List Rejection} (h : copied? function position t = none)
      (reading : Formula.ofText t = .error e)
      (tail : Written (.arguments function (position + 1) rest) us rs) :
      Written (.arguments function position (t :: rest))
        (beforeNext rest [errorPlaceholder] ++ us) (⟨t, e⟩ :: rs)

theorem Written.unique {p : Part} {ts us : List Text} {rs rs' : List Rejection}
    (h : Written p ts rs) (h' : Written p us rs') : us = ts ∧ rs' = rs := by
  induction h generalizing us rs' with
  | missing =>
    cases h'
    exact ⟨rfl, rfl⟩
  | operand value sign =>
    cases h'
    exact ⟨rfl, rfl⟩
  | node operator sign grouped l r ihl ihr =>
    cases h' with
    | node _ _ _ l' r' =>
      obtain ⟨rfl, rfl⟩ := ihl l'
      obtain ⟨rfl, rfl⟩ := ihr r'
      exact ⟨rfl, rfl⟩
  | call sign parts ih =>
    cases h' with
    | call _ parts' =>
      obtain ⟨rfl, rfl⟩ := ih parts'
      exact ⟨rfl, rfl⟩
  | nil function position =>
    cases h'
    exact ⟨rfl, rfl⟩
  | copied h tail ih =>
    cases h' with
    | copied h' tail' =>
      obtain ⟨rfl, rfl⟩ := ih tail'
      cases h.symm.trans h'
      exact ⟨rfl, rfl⟩
    | read h' reading' inner' tail' => cases h.symm.trans h'
    | rejected h' reading' tail' => cases h.symm.trans h'
  | read h reading inner tail ihi iht =>
    cases h' with
    | copied h' tail' => cases h.symm.trans h'
    | read h' reading' inner' tail' =>
      cases reading.symm.trans reading'
      obtain ⟨rfl, rfl⟩ := ihi inner'
      obtain ⟨rfl, rfl⟩ := iht tail'
      exact ⟨rfl, rfl⟩
    | rejected h' reading' tail' => cases reading.symm.trans reading'
  | rejected h reading tail ih =>
    cases h' with
    | copied h' tail' => cases h.symm.trans h'
    | read h' reading' inner' tail' => cases reading.symm.trans reading'
    | rejected h' reading' tail' =>
      cases reading.symm.trans reading'
      obtain ⟨rfl, rfl⟩ := ih tail'
      exact ⟨rfl, rfl⟩

def Tells (s : Script) (p : Part) : Prop :=
  ∃ rs, Written p s.tokens rs ∧ s.issues = rs.map Rejection.issue

theorem arguments_tell {ts : List Text}
    (h : ∀ t ∈ ts, ∀ f, Formula.ofText t = .ok f → (ofFormula f).Tells (.formula f))
    (function : Text) (position : Nat) :
    (separate (argumentsFrom nested function position ts)).Tells
      (.arguments function position ts) := by
  induction ts generalizing position with
  | nil => exact ⟨[], .nil _ _, rfl⟩
  | cons t rest ih =>
    obtain ⟨rs', tail, issues'⟩ :=
      ih (fun u hu => h u (List.mem_cons_of_mem _ hu)) (position + 1)
    rw [separate_argumentsFrom_cons]
    cases hc : copied? function position t with
    | some token =>
      rw [argument_of_copied hc]
      exact ⟨rs', .copied hc tail, issues'⟩
    | none =>
      rw [argument_of_read hc]
      cases hf : Formula.ofText t with
      | error e =>
        rw [nested_of_error hf]
        refine ⟨_, .rejected hc hf tail, ?_⟩
        simp [placeholder, issues', Rejection.issue]
      | ok f =>
        obtain ⟨rs, inner, issues⟩ := h t List.mem_cons_self f hf
        rw [nested_of_ok hf]
        refine ⟨_, .read hc hf inner tail, ?_⟩
        rw [issues, issues', List.map_append]

theorem formula_tells {f : Formula}
    (h : ∀ function a sign, .call function a sign ∈ f.leaves → ∀ t ∈ Arguments.ofText a,
      ∀ g, Formula.ofText t = .ok g → (ofFormula g).Tells (.formula g)) :
    (ofFormula f).Tells (.formula f) := by
  induction f with
  | missing => exact ⟨[], .missing, rfl⟩
  | operand value sign => exact ⟨[], .operand value sign, rfl⟩
  | call function a sign =>
    obtain ⟨rs, parts, issues⟩ := arguments_tell (h function a sign List.mem_cons_self) function 0
    exact ⟨rs, .call sign parts, issues⟩
  | node left right operator sign grouped ihl ihr =>
    obtain ⟨rs, l, issues⟩ :=
      ihl fun function a sign hc => h function a sign (List.mem_append_left _ hc)
    obtain ⟨rs', r, issues'⟩ :=
      ihr fun function a sign hc => h function a sign (List.mem_append_right _ hc)
    refine ⟨rs ++ rs', .node operator sign grouped l r, ?_⟩
    rw [List.map_append, ← issues, ← issues']
    rfl

theorem ofFormula_tells {t : Text} {f : Formula} (h : Formula.ofText t = .ok f) :
    (ofFormula f).Tells (.formula f) := by
  induction hn : Text.byteLength t using Nat.strongRecOn generalizing t f with
  | ind n ih =>
    -- Arguments are read as texts of their own, and each is shorter than the text of the call.
    apply formula_tells
    intro function a sign hc u hu g hg
    have shorter := Formula.byteLength_le_of_part h hc hu
    exact ih (Text.byteLength u) (by omega) hg rfl

end Script

end FormulaMigration
