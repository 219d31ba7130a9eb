import FormulaMigration.Proofs.Emission

namespace FormulaMigration

namespace Script

def readItem (t : Text) : Conversion :=
  match Formula.convert? t with
  | .ok conversion => conversion
  | .error e => ⟨errorPlaceholder, [⟨.argumentPlaceholder, t.trim, e.message⟩]⟩

def item (function : Text) (position : Nat) (t : Text) : Conversion :=
  if takesDiceLiterals function ∧ (position = 0 ∨ function ≠ diceRoll) ∧ '(' ∉ t then
    ⟨if Literal.isVariable t.trim ∨ t.trim.isQuoted then t.trim else t.trim.quote, []⟩
  else if ¬ takesDiceLiterals function ∧ t.isQuoted then ⟨t, []⟩
  else readItem t

theorem item_of_copied {function t token : Text} {position : Nat}
    (h : copied? function position t = some token) : item function position t = ⟨token, []⟩ := by
  unfold copied? at h
  unfold item
  split_ifs at h with dice literal quoted
  · cases h
    rw [if_pos ⟨dice, literal⟩, diceLiteral]
    congr 1
    simp only [Bool.or_eq_true]
  · cases h
    rw [if_neg fun literal => dice literal.1, if_pos ⟨dice, quoted⟩]

theorem item_of_read {function t : Text} {position : Nat} (h : copied? function position t = none) :
    item function position t = readItem t := by
  unfold copied? at h
  unfold item
  split_ifs at h with dice literal quoted
  · rw [if_neg fun h => literal h.2, if_neg fun h => h.1 dice]
  · rw [if_neg fun h => dice h.1, if_neg fun h => quoted h.2]

structure Spells (s : Script) (item : Conversion) : Prop where
  filled : s.tokens ≠ []
  text : s.text = item.output
  issues : s.issues = item.issues

theorem argument_spells (function t : Text) (position : Nat) :
    (argument nested function position t).Spells (item function position t) := by
  have filled := argument_ne_nil function t position
  cases hc : copied? function position t with
  | some token =>
    rw [argument_of_copied hc] at filled ⊢
    rw [item_of_copied hc]
    exact ⟨filled, rfl, rfl⟩
  | none =>
    rw [argument_of_read hc] at filled ⊢
    rw [item_of_read hc, readItem, Formula.convert?]
    cases hf : Formula.ofText t with
    | error e =>
      rw [nested_of_error hf] at filled ⊢
      exact ⟨filled, rfl, rfl⟩
    | ok f =>
      rw [nested_of_ok hf] at filled ⊢
      exact ⟨filled, rfl, rfl⟩

theorem argumentsFrom_spells (function : Text) (position : Nat) (ts : List Text) :
    List.Forall₂ Spells (argumentsFrom nested function position ts)
      (ts.mapIdx fun i => item function (position + i)) := by
  induction ts generalizing position with
  | nil => exact .nil
  | cons t ts ih =>
    rw [argumentsFrom, List.mapIdx_cons]
    refine .cons (argument_spells function t position) ?_
    have next := ih (position + 1)
    simpa only [Nat.add_assoc, Nat.add_comm 1] using next

theorem separate_spells {ss : List Script} {items : List Conversion}
    (h : List.Forall₂ Spells ss items) :
    (ss ≠ [] → (separate ss).tokens ≠ []) ∧
      (separate ss).text = Text.join [',', ' '] (items.map (·.output)) ∧
      (separate ss).issues = items.flatMap (·.issues) := by
  induction h with
  | nil => exact ⟨fun h => absurd rfl h, rfl, rfl⟩
  | @cons s item ss items first rest ih =>
    obtain ⟨filled, text, issues⟩ := ih
    cases rest with
    | nil =>
      refine ⟨fun _ => first.filled, first.text, ?_⟩
      rw [List.flatMap_singleton]
      exact first.issues
    | @cons s' item' ss items second rest =>
      have more := filled (List.cons_ne_nil _ _)
      have comma : beforeNext (s' :: ss) s.tokens = mapLast (· ++ [',']) s.tokens := rfl
      have first' := mapLast_ne_nil (f := (· ++ [','])) first.filled
      rw [separate_cons, comma]
      refine ⟨fun _ => List.append_ne_nil_of_left_ne_nil first' _, ?_, ?_⟩
      · have here : Text.join [' '] s.tokens = item.output := first.text
        have tail : Text.join [' '] (separate (s' :: ss)).tokens = _ := text
        change Text.join [' '] (mapLast (· ++ [',']) s.tokens ++ (separate (s' :: ss)).tokens) =
          item.output ++ [',', ' '] ++ Text.join [',', ' '] ((item' :: items).map (·.output))
        rw [join_append first' more, join_mapLast _ _ first.filled, here, tail]
        simp
      · rw [List.flatMap_cons, ← issues, ← first.issues]

def items (function a : Text) : List Conversion :=
  (Arguments.ofText a).mapIdx (item function)

theorem signToken_eq (sign : Option Operator) : signToken sign = sign.elim [] Operator.token := by
  cases sign <;> rfl

/-- A call has one item for each argument, with `, ` between them, and the issues of these in their
order. That all arguments are put onto one list makes no difference: each of them has a token that
takes its comma. -/
theorem ofFormula_call (function a : Text) (sign : Option Operator) (clock : Nat → UInt64)
    (l : Ledger) :
    ofFormula (.call function a sign) =
        ⟨[sign.elim [] Operator.token ++ function ++
            '(' :: Text.join [',', ' '] ((items function a).map (·.output)) ++ [')']],
          (items function a).flatMap (·.issues)⟩ ∧
      (∀ time, (l.extend time (ofFormula (.call function a sign)).issues).records =
        l.records ++ (items function a).flatMap (fun i => i.issues.map (⟨time, ·⟩))) ∧
      (items function a).length = (Arguments.ofText a).length ∧
      ∃ parts, List.Forall₂ Spells parts (items function a) ∧
        Text.join [' '] (separate parts).tokens =
          Text.join [',', ' '] ((items function a).map (·.output)) ∧
        ∀ depth, 1 + Text.byteLength a / 3 ≤ depth →
          Sheet.arguments (Sheet.readArgument clock depth) function 0 (Arguments.ofText a) ⟨[], l⟩ =
            some ⟨(separate parts).tokens,
              l.recordAll clock ((items function a).flatMap (·.issues))⟩ := by
  have parts := argumentsFrom_spells function 0 (Arguments.ofText a)
  simp only [Nat.zero_add] at parts
  change List.Forall₂ Spells _ (items function a) at parts
  obtain ⟨-, text, issues⟩ := separate_spells parts
  have written : ofFormula (.call function a sign) =
      ⟨[signToken sign ++ function ++ '(' ::
          (separate (argumentsFrom nested function 0 (Arguments.ofText a))).text ++ [')']],
        (separate (argumentsFrom nested function 0 (Arguments.ofText a))).issues⟩ := rfl
  refine ⟨?_, fun time => ?_, ?_, _, parts, text, fun depth deep => ?_⟩
  · rw [written, text, issues, signToken_eq]
  · rw [written, issues, Ledger.extend, List.map_flatMap]
  · rw [items, List.length_mapIdx]
  · rw [Sheet.arguments_readArgument deep, Sheet.add, issues, List.nil_append]

example : ofFormula (.call diceRoll " 2d6,1+x,)".toList none) =
    ⟨["dice.roll(\"2d6\", 1 + \"x\", <error>)".toList],
      [⟨.argumentPlaceholder, [')'], "unmatched ')' at index 0".toList⟩]⟩ := rfl

end Script

end FormulaMigration
