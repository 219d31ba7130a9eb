import FormulaMigration.Text

namespace FormulaMigration

inductive Operator
  | openGroup
  | closeGroup
  | disjunction
  | conjunction
  | unequal
  | negation
  | equal
  | atLeast
  | greater
  | atMost
  | less
  | plus
  | minus
  | times
  | divide
  | remainder
  | power
deriving DecidableEq

namespace Operator

def all : List Operator :=
  [openGroup, closeGroup, disjunction, conjunction, unequal, negation, equal, atLeast, greater,
    atMost, less, plus, minus, times, divide, remainder, power]

theorem mem_all (op : Operator) : op ∈ all := by
  cases op <;> decide

def symbol : Operator → Text
  | openGroup => ['(']
  | closeGroup => [')']
  | disjunction => ['|', '|']
  | conjunction => ['&', '&']
  | unequal => ['!', '=']
  | negation => ['!']
  | equal => ['=', '=']
  | atLeast => ['>', '=']
  | greater => ['>']
  | atMost => ['<', '=']
  | less => ['<']
  | plus => ['+']
  | minus => ['-']
  | times => ['*']
  | divide => ['/']
  | remainder => ['%']
  | power => ['^']

theorem symbol_ne_nil (op : Operator) : op.symbol ≠ [] := by
  cases op <;> decide

def replacement : Operator → Text
  | power => ['*', '*']
  | _ => []

def token (op : Operator) : Text :=
  if op.replacement = [] then op.symbol else op.replacement

def precedence : Operator → Nat
  | openGroup | closeGroup | negation => 0
  | disjunction => 1
  | conjunction => 2
  | unequal | equal => 3
  | atLeast | greater | atMost | less => 4
  | plus | minus => 5
  | times | divide | remainder => 6
  | power => 7

def isUnary : Operator → Bool
  | negation | plus | minus => true
  | _ => false

/-- Whether the text before a place ends in a digit and an `e`, so that a minus sign there is the
sign of an exponent. The text is given nearest character first. -/
def isExponentMark : Text → Bool
  | e :: digit :: _ => e == 'e' && digit.isDigit
  | _ => false

def standsAt (op : Operator) (before rest : Text) : Bool :=
  op.symbol.isPrefixOf rest && !(op == minus && isExponentMark before)

def at? (before rest : Text) : Option Operator :=
  all.find? (·.standsAt before rest)

def matchesAt (op : Operator) (text : Text) (start : Nat) : Bool :=
  match Text.splitAtByte [] start text with
  | some (before, rest) => op.standsAt before rest
  | none => false

def nextFrom (start : Nat) (before : Text) (offset : Nat) : Text → Option (Nat × Operator)
  | [] => none
  | c :: rest =>
    match if start ≤ offset then at? before (c :: rest) else none with
    | some op => some (offset, op)
    | none => nextFrom start (c :: before) (offset + c.utf8Size) rest

def next? (text : Text) (start : Nat) : Option (Nat × Operator) :=
  nextFrom start [] 0 text

end Operator

end FormulaMigration
