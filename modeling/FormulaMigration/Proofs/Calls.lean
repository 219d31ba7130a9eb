import FormulaMigration.Proofs.Parentheses
import FormulaMigration.Proofs.Regrouping

namespace FormulaMigration

namespace Text

def call (name a : Text) : Text :=
  name ++ '(' :: (a ++ [')'])

def Sheltered (t : Text) : Prop :=
  ∀ l r, t = l ++ ',' :: r → l.count '(' ≠ l.count ')'

theorem balances_append_plain {t : Text} (plain : Plain t) (depth : Nat) (s : Text) :
    balances depth (s ++ t) = balances depth s := by
  induction s generalizing depth with
  | nil => simpa using balances_append (balances_of_plain plain) depth []
  | cons c s ih => rw [List.cons_append, balances, balances, ih, ih, ih]

end Text

namespace Arguments

theorem pieces_cons {c : Char} {depth : Int} (h : ¬(c = ',' ∧ depth = 0)) (t : Text) :
    pieces depth (c :: t) =
      (pieces (depth + [c].count '(' - [c].count ')') t).modifyHead (c :: ·) := by
  have deep : (if c = '(' then depth + 1 else if c = ')' then depth - 1 else depth) =
      depth + [c].count '(' - [c].count ')' := by
    by_cases opens : c = '('
    · simp [opens]
    · by_cases closes : c = ')' <;> simp [opens, closes]
  rw [pieces, if_neg h, ← deep]
  dsimp only
  split
  next piece more cut => rw [cut, List.modifyHead_cons]
  next none => exact absurd none (pieces_ne_nil _ _)

def level (t : Text) : Int :=
  t.count '(' - t.count ')'

theorem level_cons (c : Char) (t : Text) :
    level (c :: t) = [c].count '(' - [c].count ')' + level t := by
  have front : c :: t = [c] ++ t := rfl
  rw [level, level, front, List.count_append, List.count_append]
  push_cast
  omega

theorem pieces_comma (t : Text) : pieces 0 (',' :: t) = [] :: pieces 0 t := by
  rw [pieces, if_pos ⟨rfl, rfl⟩]

theorem pieces_append_level (depth : Int) (s t : Text) :
    pieces depth (s ++ t) = (pieces depth s).dropLast ++
      (pieces (depth + level s) t).modifyHead
        ((pieces depth s).getLast (pieces_ne_nil depth s) ++ ·) := by
  induction s generalizing depth with
  | nil =>
    obtain ⟨piece, more, cut⟩ := List.exists_cons_of_ne_nil (pieces_ne_nil depth t)
    simp [pieces, level, cut]
  | cons c s ih =>
    rw [level_cons, List.cons_append]
    by_cases comma : c = ',' ∧ depth = 0
    · obtain ⟨rfl, rfl⟩ := comma
      have flat : ([','].count '(' : Int) - [','].count ')' + level s = level s := by simp
      simp only [pieces_comma, ih, List.dropLast_cons_of_ne_nil (pieces_ne_nil 0 s),
        List.getLast_cons (pieces_ne_nil 0 s), List.cons_append, flat]
    · obtain ⟨piece, more, cut⟩ := List.exists_cons_of_ne_nil
        (pieces_ne_nil (depth + [c].count '(' - [c].count ')') s)
      have deep : depth + [c].count '(' - [c].count ')' + level s =
          depth + ([c].count '(' - [c].count ')' + level s) := by omega
      simp only [pieces_cons comma, ih, cut, deep, List.modifyHead_cons]
      cases more with
      | nil =>
        simp only [List.dropLast_singleton, List.getLast_singleton, List.nil_append,
          List.modifyHead_modifyHead]
        rfl
      | cons next more => simp

theorem pieces_append {depth : Int} {a : Text}
    (sheltered : ∀ l r, a = l ++ ',' :: r → depth + l.count '(' ≠ l.count ')') (t : Text) :
    pieces depth (a ++ t) =
      (pieces (depth + a.count '(' - a.count ')') t).modifyHead (a ++ ·) := by
  induction a generalizing depth with
  | nil =>
    cases cut : pieces depth t with
    | nil => exact absurd cut (pieces_ne_nil _ _)
    | cons piece more => simp [cut]
  | cons c a ih =>
    have inner : ¬(c = ',' ∧ depth = 0) := by
      rintro ⟨rfl, rfl⟩
      exact sheltered [] a rfl rfl
    have count (d : Char) : (c :: a).count d = [c].count d + a.count d := by
      rw [← List.singleton_append, List.count_append]
    rw [List.cons_append, pieces_cons inner, ih, List.modifyHead_modifyHead]
    · have same : depth + [c].count '(' - [c].count ')' + a.count '(' - a.count ')' =
          depth + (c :: a).count '(' - (c :: a).count ')' := by
        rw [count, count]
        push_cast
        omega
      rw [same]
      rfl
    · intro l r hl
      have outer := sheltered (c :: l) r (by rw [hl, List.cons_append])
      rw [← List.singleton_append, List.count_append, List.count_append] at outer
      push_cast at outer
      omega

theorem pieces_append_of_sheltered {a : Text} (sheltered : a.Sheltered) (t : Text) :
    pieces 0 (a ++ t) = (pieces (0 + a.count '(' - a.count ')') t).modifyHead (a ++ ·) := by
  apply pieces_append
  intro l r hl
  have := sheltered l r hl
  omega

theorem pieces_of_sheltered {a : Text} (sheltered : a.Sheltered) : pieces 0 a = [a] := by
  have cut := pieces_append_of_sheltered sheltered []
  rw [List.append_nil] at cut
  rw [cut, pieces, List.modifyHead_cons, List.append_nil]

theorem two_le_length_pieces {depth : Int} {l : Text} (h : depth + l.count '(' = l.count ')')
    (r : Text) : 2 ≤ (pieces depth (l ++ ',' :: r)).length := by
  induction l generalizing depth with
  | nil =>
    obtain rfl : depth = 0 := by simpa using h
    have := List.length_pos_iff.mpr (pieces_ne_nil 0 r)
    simp only [List.nil_append, pieces, and_self, if_true, List.length_cons]
    omega
  | cons c l ih =>
    rw [List.cons_append]
    by_cases comma : c = ',' ∧ depth = 0
    · obtain ⟨rfl, rfl⟩ := comma
      have := List.length_pos_iff.mpr (pieces_ne_nil 0 (l ++ ',' :: r))
      simp only [pieces, and_self, if_true, List.length_cons]
      omega
    · rw [pieces_cons comma, List.length_modifyHead]
      apply ih
      rw [← List.singleton_append, List.count_append, List.count_append] at h
      push_cast at h
      omega

theorem ofText_eq_singleton_iff {t : Text} : ofText t = [t] ↔ t ≠ [] ∧ t.Sheltered := by
  constructor
  · intro single
    have whole := join_pieces 0 t
    have filled : t ≠ [] := by
      rintro rfl
      cases single
    refine ⟨filled, ?_⟩
    intro l r hl even
    have level : (0 : Int) + l.count '(' = l.count ')' := by rw [even, Int.zero_add]
    have long := two_le_length_pieces level r
    rw [← hl] at long
    unfold ofText at single
    cases cut : pieces 0 t with
    | nil => exact pieces_ne_nil _ _ cut
    | cons piece more =>
      rw [cut] at long whole single
      -- The first piece cannot be the whole text when a comma follows it.
      obtain ⟨next, more, rfl⟩ : ∃ next rest, more = next :: rest := by
        cases more with
        | nil => simp at long
        | cons next rest => exact ⟨next, rest, rfl⟩
      have first : piece = t := by
        rw [List.takeWhile_cons] at single
        split_ifs at single
        exact (List.cons.inj single).1
      have length := congrArg List.length whole
      rw [Text.join, first] at length
      simp only [List.length_append, List.length_cons, List.length_nil] at length
      omega
  · rintro ⟨filled, sheltered⟩
    rw [ofText, pieces_of_sheltered sheltered]
    simp [filled]

structure Whole (t : Text) : Prop where
  filled : t ≠ []
  balanced : t.Balanced
  sheltered : t.Sheltered

theorem pieces_join {ts : List Text} (filled : ts ≠ []) (whole : ∀ t ∈ ts, Whole t) :
    pieces 0 (Text.join [','] ts) = ts := by
  induction ts with
  | nil => exact absurd rfl filled
  | cons t ts ih =>
    obtain ⟨first, rest⟩ := List.forall_mem_cons.mp whole
    cases ts with
    | nil => exact pieces_of_sheltered first.sheltered
    | cons u ts =>
      have cut := pieces_append_of_sheltered first.sheltered (',' :: Text.join [','] (u :: ts))
      have even := first.balanced.2
      have back : (0 : Int) + t.count '(' - t.count ')' = 0 := by omega
      rw [back, pieces, if_pos ⟨rfl, rfl⟩, ih (by simp) rest, List.modifyHead_cons,
        List.append_nil] at cut
      simpa [Text.join] using cut

theorem ofText_join {ts : List Text} (whole : ∀ t ∈ ts, Whole t) :
    ofText (Text.join [','] ts) = ts := by
  by_cases none : ts = []
  · subst none
    rfl
  · rw [ofText, pieces_join none whole, List.takeWhile_eq_self_iff]
    intro t ht
    simpa using (whole t ht).filled

theorem balances_join {ts : List Text} (whole : ∀ t ∈ ts, Whole t) :
    (Text.join [','] ts).balances 0 := by
  induction ts with
  | nil => rfl
  | cons t ts ih =>
    obtain ⟨first, rest⟩ := List.forall_mem_cons.mp whole
    have matching := Text.balanced_iff.mp first.balanced
    cases ts with
    | nil => exact matching
    | cons u ts =>
      rw [Text.join, List.append_assoc, Text.balances_append matching]
      exact ih rest

end Arguments

def isNameChar (c : Char) : Bool :=
  c.isAlphanum || c == '_'

theorem name_of_scriptCall? {name function : Text} (h : scriptCall? name = some function) :
    (∀ c ∈ name, isNameChar c) ∧ name.trim = name ∧ Lexeme.isOperand name := by
  obtain ⟨l, l', table, -⟩ := List.lookup_eq_some_iff.mp h
  have names : functionTable.all (fun row => row.1.all isNameChar && row.1.trim == row.1 &&
      Lexeme.isOperand row.1) := rfl
  have row := List.all_eq_true.mp names (name, function) (by simp [table])
  simp only [Bool.and_eq_true, List.all_eq_true, beq_iff_eq] at row
  exact ⟨row.1.1, row.1.2, row.2⟩

theorem Operator.absentFrom_name {name : Text} (h : ∀ c ∈ name, isNameChar c)
    (before rest : Text) : AbsentFrom before name rest := by
  induction name generalizing before with
  | nil => exact absentFrom_nil _ _
  | cons c name ih =>
    obtain ⟨hc, tail⟩ := List.forall_mem_cons.mp h
    refine absentFrom_cons.mpr ⟨?_, ih tail _⟩
    apply at?_eq_none_of_head
    intro op starts
    cases op <;> cases starts <;> cases hc

namespace Reads

theorem call_alone {name function : Text} (h : scriptCall? name = some function) {a : Text}
    (matching : a.balances 0) :
    Reads false [] (Text.call name a) [.operand name, .arguments a] := by
  obtain ⟨letters, trimmed, filled⟩ := name_of_scriptCall? h
  have absent := Operator.absentFrom_name letters [] ('(' :: (a ++ ')' :: []))
  have reads := @Reads.call false [] name a [] _ absent filled matching
    (.last (Operator.absentFrom_nil _ _))
  have first : Token.ofGap name = [.operand name] := by rw [Token.ofGap, if_pos filled, trimmed]
  rwa [first] at reads

end Reads

namespace Formula

theorem ofText_call {name function : Text} (h : scriptCall? name = some function) {a : Text} :
    ofText (Text.call name a) = .ok (.call function a none) ↔ a.balances 0 := by
  constructor
  · intro reading
    obtain ⟨ts, reads, -, leaves⟩ := exists_reads reading
    have called := leaves.arguments_mem (List.mem_map_of_mem List.mem_cons_self)
    exact reads.matched _ called
  · intro matching
    have marked : Grammar.Marked none false 1 [.operand name, .arguments a]
        (.call function a none) := (Grammar.Marked.call h a).lower (by decide)
    exact marked.ofText_plain (Reads.call_alone h matching)

theorem convert?_call {name function : Text} (h : scriptCall? name = some function)
    {ts : List Text} (whole : ∀ t ∈ ts, Arguments.Whole t) {parts : Script}
    (written : Script.separate (Script.argumentsFrom Script.nested function 0 ts) = parts) :
    convert? (Text.call name (Text.join [','] ts)) =
      .ok ⟨Text.call function (Text.join [' '] parts.tokens), parts.issues⟩ := by
  rw [convert?, (ofText_call h).mpr (Arguments.balances_join whole)]
  have script : Script.ofFormula (.call function (Text.join [','] ts) none) =
      ⟨[Text.call function (Text.join [' '] parts.tokens)], parts.issues⟩ := by
    change Script.call Script.nested function _ none = _
    rw [Script.call, Arguments.ofText_join whole, written]
    simp [Script.signToken, Text.call]
  change Except.ok (Conversion.mk (Script.ofFormula _).text (Script.ofFormula _).issues) = _
  rw [script]
  rfl

end Formula

end FormulaMigration
