import FormulaMigration.FunctionTable

namespace FormulaMigration

namespace Literal

def unsigned : Text → Text
  | c :: rest => if c = '+' ∨ c = '-' then rest else c :: rest
  | [] => []

def isNumberWord (t : Text) : Bool :=
  [['i', 'n', 'f'], ['i', 'n', 'f', 'i', 'n', 'i', 't', 'y'], ['n', 'a', 'n']].contains
    (t.map Char.toLower)

def isExponent : Text → Bool
  | mark :: rest =>
    (mark == 'e' || mark == 'E') && !(unsigned rest).isEmpty && (unsigned rest).all Char.isDigit
  | [] => false

def isTail (bare : Bool) : Text → Bool
  | [] => !bare
  | c :: rest =>
    if c = '.' then
      -- A point may stand at either end of the digits, but not alone.
      let after := rest.dropWhile Char.isDigit
      !(bare && (rest.takeWhile Char.isDigit).isEmpty) && (after.isEmpty || isExponent after)
    else !bare && isExponent (c :: rest)

def isDecimal (t : Text) : Bool :=
  isTail (t.takeWhile Char.isDigit).isEmpty (t.dropWhile Char.isDigit)

def isNumber (t : Text) : Bool :=
  isNumberWord (unsigned t) || isDecimal (unsigned t)

def isVariable (t : Text) : Bool :=
  t.head? == some variableSigil

def isScript (t : Text) : Bool :=
  t == ['t', 'r', 'u', 'e'] || t == ['f', 'a', 'l', 's', 'e'] || isNumber t || isVariable t ||
    t.isQuoted

def ofOperand (t : Text) : Text :=
  if isScript t then t else t.quote

end Literal

end FormulaMigration
