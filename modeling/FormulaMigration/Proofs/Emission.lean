import FormulaMigration.Proofs.Rejection
import FormulaMigration.Proofs.Spelling

/-!
Emission writes a formula onto a list of tokens that holds others already, and reads the arguments
of calls on the way. Main statements: however calls are nested it ends, no deeper than a third of
the bytes of the outermost arguments; and it appends the tokens and the issues of the formula alone,
whatever was there before.
-/

namespace FormulaMigration

namespace Script

theorem argument_ne_nil (function t : Text) (position : Nat) :
    (argument nested function position t).tokens ≠ [] := by
  cases hc : copied? function position t with
  | some token =>
    rw [argument_of_copied hc]
    exact List.cons_ne_nil _ _
  | none =>
    rw [argument_of_read hc]
    cases hf : Formula.ofText t with
    | error e =>
      rw [nested_of_error hf]
      exact List.cons_ne_nil _ _
    | ok f =>
      rw [nested_of_ok hf]
      obtain ⟨ts, reads, built, leaves⟩ := Formula.exists_reads hf
      exact built.tokens_ne_nil _

theorem modify_append (ts us : List Text) (f : Text → Text) :
    (ts ++ us).modify ts.length f = ts ++ mapFirst f us := by
  induction ts with
  | nil => cases us <;> rfl
  | cons t ts ih =>
    rw [List.cons_append, List.length_cons, List.modify_succ_cons, ih, List.cons_append]

theorem mapLast_append {us : List Text} (h : us ≠ []) (ts : List Text) (f : Text → Text) :
    mapLast f (ts ++ us) = ts ++ mapLast f us := by
  induction ts with
  | nil => rfl
  | cons t ts ih =>
    obtain ⟨u, more, rest⟩ := List.exists_cons_of_ne_nil (List.append_ne_nil_of_right_ne_nil ts h)
    rw [List.cons_append, List.cons_append, ← ih, rest, mapLast]

theorem beforeNext_append {us : List Text} (h : us ≠ []) (rest ts : List Text) :
    beforeNext rest (ts ++ us) = ts ++ beforeNext rest us := by
  rw [beforeNext, beforeNext]
  split_ifs
  · rfl
  · exact mapLast_append h _ _

theorem sign_append (both : Bool) (sign : Option Operator) (ts us : List Text) :
    (if both then ts ++ us else (ts ++ us).modify ts.length (signToken sign ++ ·)) =
      ts ++ if both then us else withSign sign us := by
  rw [modify_append, ← withSign]
  split_ifs <;> rfl

theorem enclose_append (grouped : Bool) (ts us : List Text) :
    (if grouped && ts.length < (ts ++ us).length then
        mapLast (· ++ [')']) ((ts ++ us).modify ts.length ('(' :: ·))
      else ts ++ us) = ts ++ if grouped then inParentheses us else us := by
  cases grouped with
  | false => simp
  | true =>
    cases us with
    | nil => simp [inParentheses, mapFirst, mapLast]
    | cons u us =>
      have longer : ts.length < (ts ++ u :: us).length := by simp
      have opened := mapFirst_ne_nil (f := ('(' :: ·)) (List.cons_ne_nil u us)
      rw [Bool.true_and, if_pos (decide_eq_true longer), modify_append, mapLast_append opened]
      rfl

end Script

namespace Ledger

def record (clock : Nat → UInt64) (l : Ledger) (issue : Issue) : Ledger :=
  l.push ⟨clock l.records.length, issue⟩

def recordAll (clock : Nat → UInt64) : Ledger → List Issue → Ledger :=
  List.foldl (record clock)

def Gains (l : Ledger) (issues : List Issue) (l' : Ledger) : Prop :=
  ∃ records, l'.records = l.records ++ records ∧ records.map (·.issue) = issues

theorem gains_recordAll (clock : Nat → UInt64) (l : Ledger) (issues : List Issue) :
    l.Gains issues (l.recordAll clock issues) := by
  induction issues generalizing l with
  | nil => exact ⟨[], (List.append_nil _).symm, rfl⟩
  | cons issue issues ih =>
    obtain ⟨records, grown, same⟩ := ih (l.record clock issue)
    refine ⟨⟨clock l.records.length, issue⟩ :: records, ?_, congrArg _ same⟩
    rw [recordAll, List.foldl_cons, ← recordAll, grown, record, push, List.append_assoc,
      List.singleton_append]

theorem recordAll_append (clock : Nat → UInt64) (l : Ledger) (issues issues' : List Issue) :
    l.recordAll clock (issues ++ issues') = (l.recordAll clock issues).recordAll clock issues' :=
  List.foldl_append

theorem recordAll_const (time : UInt64) (l : Ledger) (issues : List Issue) :
    l.recordAll (fun _ => time) issues = l.extend time issues := by
  induction issues generalizing l with
  | nil => simp [recordAll, extend]
  | cons issue issues ih =>
    rw [recordAll, List.foldl_cons, ← recordAll, ih]
    simp [extend, record, push]

end Ledger

structure Sheet where
  tokens : List Text
  ledger : Ledger

namespace Sheet

open Script

def push (s : Sheet) (t : Text) : Sheet :=
  ⟨s.tokens ++ [t], s.ledger⟩

def reject (clock : Nat → UInt64) (s : Sheet) (r : Rejection) : Sheet :=
  ⟨s.tokens ++ [errorPlaceholder], s.ledger.record clock r.issue⟩

def finish (first : Nat) (both : Bool) (sign : Option Operator) (grouped : Bool)
    (tokens : List Text) : List Text :=
  let tokens := if both then tokens else tokens.modify first (signToken sign ++ ·)
  if grouped && first < tokens.length then
    mapLast (· ++ [')']) (tokens.modify first ('(' :: ·))
  else tokens

section

variable (read : Text → Sheet → Option Sheet)

def argument (function : Text) (position : Nat) (t : Text) (s : Sheet) : Option Sheet :=
  match copied? function position t with
  | some copy => some (s.push copy)
  | none => read t s

def arguments (function : Text) : (position : Nat) → List Text → Sheet → Option Sheet
  | _, [], s => some s
  | position, t :: rest, s => do
    let s ← argument read function position t s
    arguments function (position + 1) rest ⟨beforeNext rest s.tokens, s.ledger⟩

def write : Formula → Sheet → Option Sheet
  | .missing, s => some s
  | .operand value sign, s => some (s.push (signToken sign ++ Literal.ofOperand value))
  | .call function a sign, s => do
    let parts ← arguments read function 0 (Arguments.ofText a) ⟨[], s.ledger⟩
    let call := signToken sign ++ function ++ '(' :: Text.join [' '] parts.tokens ++ [')']
    some ⟨s.tokens ++ [call], parts.ledger⟩
  | .node left right operator sign grouped, s => do
    let l ← write left s
    let r ← write right ⟨l.tokens ++ operatorTokens left right operator, l.ledger⟩
    let both := left.isPresent && right.isPresent
    some ⟨finish s.tokens.length both sign grouped r.tokens, r.ledger⟩

end

/-- Reads and writes an argument. There is no result when the arguments that are read nest more than
`depth` deep, this one counted. -/
def readArgument (clock : Nat → UInt64) : (depth : Nat) → Text → Sheet → Option Sheet
  | 0, _, _ => none
  | depth + 1, t, s =>
    match Formula.ofText t with
    | .ok f => write (readArgument clock depth) f s
    | .error e => some (s.reject clock ⟨t, e⟩)

def add (clock : Nat → UInt64) (s : Sheet) (script : Script) : Sheet :=
  ⟨s.tokens ++ script.tokens, s.ledger.recordAll clock script.issues⟩

variable {clock : Nat → UInt64} {read : Text → Sheet → Option Sheet}

theorem finish_append (left right : Formula) (operator sign : Option Operator) (grouped : Bool)
    (before ts us : List Text) :
    finish before.length (left.isPresent && right.isPresent) sign grouped
        (before ++ ts ++ operatorTokens left right operator ++ us) =
      before ++ nodeTokens left right operator sign grouped ts us := by
  rw [List.append_assoc before, List.append_assoc before, finish, sign_append, enclose_append,
    nodeTokens]

def Appends (clock : Nat → UInt64) (read : Text → Sheet → Option Sheet) (t : Text) : Prop :=
  ∀ s, read t s = some (s.add clock (nested t))

theorem argument_eq {t : Text} (h : Appends clock read t) (function : Text) (position : Nat)
    (s : Sheet) :
    argument read function position t s =
      some (s.add clock (Script.argument nested function position t)) := by
  rw [argument]
  cases hc : copied? function position t with
  | some copy =>
    rw [argument_of_copied hc]
    rfl
  | none =>
    rw [argument_of_read hc]
    exact h s

theorem arguments_eq {ts : List Text} (h : ∀ t ∈ ts, Appends clock read t) (function : Text)
    (position : Nat) (s : Sheet) :
    arguments read function position ts s =
      some (s.add clock (separate (argumentsFrom nested function position ts))) := by
  induction ts generalizing position s with
  | nil => simp [arguments, argumentsFrom, separate, empty, add, Ledger.recordAll]
  | cons t rest ih =>
    have comma := beforeNext_append (argument_ne_nil function t position) rest s.tokens
    rw [arguments, argument_eq (h t List.mem_cons_self), separate_argumentsFrom_cons]
    change arguments read function (position + 1) rest ⟨beforeNext rest (_ ++ _), _⟩ = _
    rw [comma, ih fun u hu => h u (List.mem_cons_of_mem _ hu)]
    simp [add, Ledger.recordAll]

theorem write_eq {f : Formula}
    (h : ∀ function a sign, .call function a sign ∈ f.leaves →
      ∀ t ∈ Arguments.ofText a, Appends clock read t) (s : Sheet) :
    write read f s = some (s.add clock (ofFormula f)) := by
  induction f generalizing s with
  | missing => simp [write, ofFormula, ofFormulaWith, empty, add, Ledger.recordAll]
  | operand value sign => rfl
  | call function a sign =>
    rw [write, arguments_eq (h function a sign List.mem_cons_self)]
    rfl
  | node left right operator sign grouped ihl ihr =>
    have l := ihl fun function a sign hc => h function a sign (List.mem_append_left _ hc)
    have r := ihr fun function a sign hc => h function a sign (List.mem_append_right _ hc)
    rw [write, l, Option.bind_eq_bind, Option.bind_some, r, Option.bind_some]
    simp only [add, finish_append, Ledger.recordAll, ← List.foldl_append]
    rfl

theorem readArgument_eq {depth : Nat} {t : Text} (h : Text.byteLength t / 3 < depth) :
    Appends clock (readArgument clock depth) t := by
  intro s
  induction depth generalizing t s with
  | zero => omega
  | succ depth ih =>
    rw [readArgument]
    cases reading : Formula.ofText t with
    | error e =>
      rw [nested_of_error reading]
      rfl
    | ok f =>
      rw [nested_of_ok reading]
      apply write_eq
      intro function a sign called u part s
      have shorter := Formula.byteLength_le_of_part reading called part
      exact ih (by omega) s

theorem arguments_readArgument {a : Text} {depth : Nat} (h : 1 + Text.byteLength a / 3 ≤ depth)
    (function : Text) (s : Sheet) :
    arguments (readArgument clock depth) function 0 (Arguments.ofText a) s =
      some (s.add clock (separate (argumentsFrom nested function 0 (Arguments.ofText a)))) := by
  apply arguments_eq
  intro t part
  have := Arguments.byteLength_le part
  exact readArgument_eq (by omega)

end Sheet

inductive Arguments.Holds (a : Text) : Text → Prop
  | intro {t b function : Text} {f : Formula} {sign : Option Operator} (part : t ∈ ofText a)
      (reading : Formula.ofText t = .ok f) (called : .call function b sign ∈ f.leaves) : Holds a b

theorem Arguments.Holds.shorter {a b : Text} (h : Holds a b) :
    Text.byteLength b + 3 ≤ Text.byteLength a := by
  obtain ⟨part, reading, called⟩ := h
  exact (Formula.byteLength_le_of_call reading called).trans (byteLength_le part)

theorem Arguments.length_chain_le {a : Text} {bs : List Text} (h : List.IsChain Holds (a :: bs)) :
    (a :: bs).length ≤ 1 + Text.byteLength a / 3 := by
  induction bs generalizing a with
  | nil => simp
  | cons b bs ih =>
    rw [List.isChain_cons_cons] at h
    have shorter := h.1.shorter
    have later := ih h.2
    rw [List.length_cons]
    omega

namespace Formula

open Script

/-- How deep the arguments that are read for a formula can nest. -/
def room : Formula → Nat
  | call _ a _ => 1 + Text.byteLength a / 3
  | node left right _ _ _ => max left.room right.room
  | _ => 0

theorem le_room {f : Formula} {function a : Text} {sign : Option Operator}
    (h : .call function a sign ∈ f.leaves) : 1 + Text.byteLength a / 3 ≤ f.room := by
  induction f with
  | missing => cases h
  | operand value sign => simp [leaves] at h
  | call function a sign =>
    simp only [leaves, List.mem_singleton] at h
    cases h
    exact Nat.le_refl _
  | node left right operator sign grouped ihl ihr =>
    rw [leaves, List.mem_append] at h
    rcases h with h | h
    · exact (ihl h).trans (Nat.le_max_left _ _)
    · exact (ihr h).trans (Nat.le_max_right _ _)

theorem write_readArgument {f : Formula} {depth : Nat} (h : f.room ≤ depth)
    (clock : Nat → UInt64) (s : Sheet) :
    Sheet.write (Sheet.readArgument clock depth) f s = some (s.add clock (ofFormula f)) := by
  apply Sheet.write_eq
  intro function a sign called t part
  have := le_room called
  have := Arguments.byteLength_le part
  exact Sheet.readArgument_eq (by omega)

/-- That writing a formula, which reads the arguments of its calls, comes to an end. -/
structure EmissionEnds (f : Formula) : Prop where
  shorter : ∀ t, ofText t = .ok f → ∀ function a sign, .call function a sign ∈ f.leaves →
    Text.byteLength a + 3 ≤ Text.byteLength t
  parts : ∀ function a sign, .call function a sign ∈ f.leaves →
    ∀ t ∈ Arguments.ofText a, Text.byteLength t ≤ Text.byteLength a
  ends : ∀ clock s depth, f.room ≤ depth →
    Sheet.write (Sheet.readArgument clock depth) f s = some (s.add clock (ofFormula f))
  nesting : ∀ function a sign, .call function a sign ∈ f.leaves →
    ∀ bs, List.IsChain Arguments.Holds (a :: bs) → (a :: bs).length ≤ 1 + Text.byteLength a / 3

/-- Whatever its calls hold as arguments, a formula is written to the end. -/
theorem emissionEnds (f : Formula) : EmissionEnds f where
  shorter _ reading _ _ _ called := byteLength_le_of_call reading called
  parts _ _ _ _ _ part := Arguments.byteLength_le part
  ends clock s _ deep := write_readArgument deep clock s
  nesting _ _ _ _ _ chain := Arguments.length_chain_le chain

example (clock : Nat → UInt64) (l : Ledger) :
    let f := call "Math.round".toList "abs(abs(1))".toList none
    Sheet.write (Sheet.readArgument clock 2) f ⟨[], l⟩ = none ∧
      Sheet.write (Sheet.readArgument clock 3) f ⟨[], l⟩ =
        some ⟨["Math.round(Math.abs(Math.abs(1)))".toList], l⟩ := ⟨rfl, rfl⟩

def emit (clock : Nat → UInt64) (f : Formula) (s : Sheet) : Option Sheet :=
  Sheet.write (Sheet.readArgument clock f.room) f s

structure EmissionAppends (f : Formula) : Prop where
  alone : ∀ clock l, ∃ l', emit clock f ⟨[], l⟩ = some ⟨(ofFormula f).tokens, l'⟩ ∧
    l.Gains (ofFormula f).issues l'
  onto : ∀ clock ts l, ∃ l', emit clock f ⟨ts, l⟩ = some ⟨ts ++ (ofFormula f).tokens, l'⟩ ∧
    l.Gains (ofFormula f).issues l'
  timed : ∀ time ts l, emit (fun _ => time) f ⟨ts, l⟩ =
    some ⟨ts ++ (ofFormula f).tokens, l.extend time (ofFormula f).issues⟩
  filled : ∀ t, ofText t = .ok f → (ofFormula f).tokens ≠ []

/-- The tokens that a formula is written in, and the issues on the way, are the same on every sheet,
though signs, parentheses and commas go onto tokens of the sheet by their places. -/
theorem emissionAppends (f : Formula) : EmissionAppends f where
  alone clock l := ⟨_, write_readArgument (Nat.le_refl _) clock ⟨[], l⟩,
    l.gains_recordAll clock _⟩
  onto clock ts l := ⟨_, write_readArgument (Nat.le_refl _) clock ⟨ts, l⟩,
    l.gains_recordAll clock _⟩
  timed time ts l := by
    rw [emit, write_readArgument (Nat.le_refl _), Sheet.add, Ledger.recordAll_const]
  filled t reading := by
    obtain ⟨ts, reads, built, leaves⟩ := exists_reads reading
    exact built.tokens_ne_nil _

example (clock : Nat → UInt64) (t : Text) (l : Ledger) :
    emit clock (node missing (node missing missing none (some .minus) true) (some .plus)
      (some .minus) true) ⟨[t], l⟩ = some ⟨[t], l⟩ := rfl

end Formula

end FormulaMigration
