import FormulaMigration.Operator

namespace FormulaMigration

inductive Formula
  | missing
  | operand (value : Text) (sign : Option Operator)
  | call (function arguments : Text) (sign : Option Operator)
  | node (left right : Formula) (operator sign : Option Operator) (grouped : Bool)
deriving DecidableEq, Inhabited

namespace Formula

def isPresent : Formula → Bool
  | missing => false
  | _ => true

def leaves : Formula → List Formula
  | missing => []
  | node left right _ _ _ => left.leaves ++ right.leaves
  | leaf => [leaf]

end Formula

inductive FormulaError
  | emptyOperand (index : Nat)
  | consecutiveUnary (index : Nat)
  | unmatchedClose (index : Nat)
  | callNotClosed (index : Nat)
  | undefinedFunction (name : Text)
  | unexpectedState (index : Nat)
deriving DecidableEq

def FormulaError.message : FormulaError → Text
  | .emptyOperand index =>
    "expression is invalid at index ".toList ++ Text.ofNat index ++ ": empty operand".toList
  | .consecutiveUnary index =>
    "consecutive unary operators are not allowed at index ".toList ++ Text.ofNat index
  | .unmatchedClose index => "unmatched ')' at index ".toList ++ Text.ofNat index
  | .callNotClosed index => "function not closed at index ".toList ++ Text.ofNat index
  | .undefinedFunction name => "function not defined: ".toList ++ name
  | .unexpectedState index => "unexpected stack state at index ".toList ++ Text.ofNat index

end FormulaMigration
