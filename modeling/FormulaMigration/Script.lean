import FormulaMigration.Formula.Reading
import FormulaMigration.Script.Arguments
import FormulaMigration.Script.Literal

namespace FormulaMigration

inductive IssueKind
  | originalKept
  | argumentPlaceholder
deriving DecidableEq

structure Issue where
  kind : IssueKind
  subject : Text
  detail : Text
deriving DecidableEq

def errorPlaceholder : Text := "<error>".toList

structure Script where
  tokens : List Text
  issues : List Issue
deriving DecidableEq

namespace Script

def empty : Script := ⟨[], []⟩

def token (t : Text) : Script := ⟨[t], []⟩

def append (s t : Script) : Script :=
  ⟨s.tokens ++ t.tokens, s.issues ++ t.issues⟩

def mapFirst (f : Text → Text) : List Text → List Text
  | [] => []
  | t :: rest => f t :: rest

def mapLast (f : Text → Text) : List Text → List Text
  | [] => []
  | [t] => [f t]
  | t :: u :: rest => t :: mapLast f (u :: rest)

def signToken : Option Operator → Text
  | some op => op.token
  | none => []

def withSign (sign : Option Operator) (tokens : List Text) : List Text :=
  mapFirst (signToken sign ++ ·) tokens

def inParentheses (tokens : List Text) : List Text :=
  mapLast (· ++ [')']) (mapFirst ('(' :: ·) tokens)

def separate : List Script → Script
  | [] => empty
  | [argument] => argument
  | argument :: next :: rest =>
    append ⟨mapLast (· ++ [',']) argument.tokens, argument.issues⟩ (separate (next :: rest))

def diceLiteral (argument : Text) : Text :=
  let t := argument.trim
  if Literal.isVariable t || t.isQuoted then t else t.quote

def argument (formula : Text → Script) (function : Text) (position : Nat) (t : Text) : Script :=
  if takesDiceLiterals function then
    if (position = 0 || function ≠ diceRoll) && !t.contains '(' then token (diceLiteral t)
    else formula t
  else if t.isQuoted then token t
  else formula t

def argumentsFrom (formula : Text → Script) (function : Text) : Nat → List Text → List Script
  | _, [] => []
  | position, t :: rest =>
    argument formula function position t :: argumentsFrom formula function (position + 1) rest

def call (formula : Text → Script) (function arguments : Text) (sign : Option Operator) : Script :=
  let parts := separate (argumentsFrom formula function 0 (Arguments.ofText arguments))
  ⟨[signToken sign ++ function ++ '(' :: Text.join [' '] parts.tokens ++ [')']], parts.issues⟩

def operatorTokens (left right : Formula) (operator : Option Operator) : List Text :=
  match operator with
  | some op => if left.isPresent && right.isPresent then [op.token] else []
  | none => []

def ofFormulaWith (formula : Text → Script) : Formula → Script
  | .missing => empty
  | .operand value sign => token (signToken sign ++ Literal.ofOperand value)
  | .call function arguments sign => call formula function arguments sign
  | .node left right operator sign grouped =>
    let l := ofFormulaWith formula left
    let r := ofFormulaWith formula right
    let tokens := l.tokens ++ operatorTokens left right operator ++ r.tokens
    let tokens := if left.isPresent && right.isPresent then tokens else withSign sign tokens
    ⟨if grouped then inParentheses tokens else tokens, l.issues ++ r.issues⟩

theorem ofFormulaWith_node (formula : Text → Script) {left right : Formula}
    (hl : left.isPresent = true) (hr : right.isPresent = true) (op : Operator) (grouped : Bool)
    {l r : Script} (left_eq : ofFormulaWith formula left = l)
    (right_eq : ofFormulaWith formula right = r) :
    ofFormulaWith formula (.node left right (some op) none grouped) =
      ⟨if grouped then inParentheses (l.tokens ++ op.token :: r.tokens)
        else l.tokens ++ op.token :: r.tokens, l.issues ++ r.issues⟩ := by
  simp [ofFormulaWith, operatorTokens, hl, hr, left_eq, right_eq]

def placeholder (t : Text) (error : FormulaError) : Script :=
  ⟨[errorPlaceholder], [⟨.argumentPlaceholder, t.trim, error.message⟩]⟩

def ofArgument : (depth : Nat) → Text → Script
  | 0, _ => empty
  | depth + 1, t =>
    match Formula.ofText t with
    | .ok f => ofFormulaWith (ofArgument depth) f
    | .error error => placeholder t error

/-- Writes a formula. A call takes three bytes at least beside its arguments, which bounds how deep
calls can nest in an argument. -/
def ofFormula (f : Formula) : Script :=
  ofFormulaWith (fun t => ofArgument (Text.byteLength t / 3 + 1) t) f

def text (s : Script) : Text :=
  Text.join [' '] s.tokens

end Script

structure Conversion where
  output : Text
  issues : List Issue
deriving DecidableEq

namespace Formula

def convert? (t : Text) : Except FormulaError Conversion := do
  let script := Script.ofFormula (← ofText t)
  .ok ⟨script.text, script.issues⟩

def convert (t : Text) : Conversion :=
  match convert? t with
  | .ok conversion => conversion
  | .error error => ⟨t, [⟨.originalKept, t, error.message⟩]⟩

end Formula

end FormulaMigration
