import FormulaMigration.Formula.Scan
import FormulaMigration.FunctionTable

/-!
Reading a formula with two stacks. Before an operator is stacked, every stacked operator that binds
at least as tight is folded with its operands, so equal precedence groups to the left. A sign is
taken as one only at the very start of the text.
-/

namespace FormulaMigration

namespace Formula

structure Frame where
  op : Operator
  sign : Option Operator
deriving DecidableEq

/-- What was read and is not yet folded, latest first, and the sign of what comes next. -/
structure Stacks where
  operands : List Formula
  frames : List Frame
  sign : Option Operator
deriving DecidableEq

def isInGroup : List Frame → Bool
  | frame :: _ => frame.op = .openGroup
  | [] => false

def combine (index : Nat) (op : Operator) (grouped : Bool) :
    List Formula → Except FormulaError (List Formula)
  | [] => .error (.unexpectedState index)
  | [right] => .ok [node missing right (some op) none grouped]
  | right :: left :: rest => .ok (node left right (some op) none grouped :: rest)

def reduceWhile (index : Nat) (p : Frame → Bool) :
    List Frame → List Formula → Except FormulaError (List Formula × List Frame)
  | [], operands => .ok (operands, [])
  | frame :: frames, operands =>
    if p frame then do
      let operands ← combine index frame.op (isInGroup frames) operands
      reduceWhile index p frames operands
    else .ok (operands, frame :: frames)

namespace Stacks

def empty : Stacks := ⟨[], [], none⟩

def close (index : Nat) (s : Stacks) : Except FormulaError Stacks := do
  let (operands, frames) ← reduceWhile index (·.op ≠ .openGroup) s.frames s.operands
  match frames with
  | [] => .error (.unmatchedClose index)
  | frame :: frames =>
    match frame.sign, operands with
    | none, _ => .ok ⟨operands, frames, none⟩
    | some _, [] => .error (.unexpectedState index)
    | some sign, inner :: rest =>
      .ok ⟨node inner missing none (some sign) false :: rest, frames, none⟩

def pushOperator (index : Nat) (op : Operator) (s : Stacks) : Except FormulaError Stacks := do
  let (operands, frames) ←
    reduceWhile index (fun frame => op.precedence ≤ frame.op.precedence) s.frames s.operands
  .ok ⟨operands, ⟨op, s.sign⟩ :: frames, none⟩

def readOperator (start : Nat) (op : Operator) (s : Stacks) : Except FormulaError Stacks :=
  if op.isUnary && s.sign.isSome then .error (.consecutiveUnary start)
  else if op.isUnary && start = 0 then .ok { s with sign := some op }
  else if op = .openGroup then .ok ⟨s.operands, ⟨op, s.sign⟩ :: s.frames, none⟩
  else if op = .closeGroup then s.close start
  else s.pushOperator start op

def readOperand (start : Nat) (t : Text) (s : Stacks) : Except FormulaError Stacks :=
  if t.trim = [] then .error (.emptyOperand start)
  else .ok ⟨operand t.trim s.sign :: s.operands, s.frames, none⟩

def readArguments (closing : Nat) (t : Text) (s : Stacks) : Except FormulaError Stacks :=
  match s.operands with
  | operand name sign :: rest =>
    match scriptCall? name with
    | some function => .ok ⟨call function t sign :: rest, s.frames, none⟩
    | none => .error (.undefinedFunction name)
  | _ => .error (.unexpectedState closing)

def read (s : Stacks) : Lexeme → Except FormulaError Stacks
  | .operand start t => s.readOperand start t
  | .operator start op => s.readOperator start op
  | .arguments _ closing t => s.readArguments closing t
  | .unclosed opening => .error (.callNotClosed opening)

def finish (index : Nat) (s : Stacks) : Except FormulaError Formula := do
  let (operands, _) ← reduceWhile index (fun _ => true) s.frames s.operands
  match operands with
  | [root] => .ok root
  | _ => .error (.unexpectedState index)

end Stacks

def ofText (t : Text) : Except FormulaError Formula := do
  let s ← (Lexeme.ofText t).foldlM Stacks.read Stacks.empty
  s.finish (Text.byteLength t)

end Formula

end FormulaMigration
