import FormulaMigration.Decimal.Shortest

namespace FormulaMigration

inductive JsonNumber
  | natural (n : UInt64)
  | negative (n : Int64)
  | double (x : Double)
deriving DecidableEq

def JsonNumber.text : JsonNumber → Text
  | natural n => Text.ofNat n.toNat
  | negative n => '-' :: Text.ofNat n.toInt.natAbs
  | double x => Decimal.ofDouble x

inductive Json
  | null
  | bool (b : Bool)
  | number (n : JsonNumber)
  | string (t : Text)
  | array (items : List Json)
  | object (members : List (Text × Json))

namespace Json

def ofNat (n : Nat) : Json :=
  number (.natural (UInt64.ofNat n))

def ofString (s : String) : Json :=
  string s.toList

def ofText? : Option Text → Json
  | some t => string t
  | none => null

def record (members : List (String × Json)) : Json :=
  object (members.map fun member => (member.1.toList, member.2))

def setMember (key : Text) (value : Json) : List (Text × Json) → List (Text × Json)
  | [] => [(key, value)]
  | (k, v) :: rest => if k = key then (k, value) :: rest else (k, v) :: setMember key value rest

def member? (key : Text) : Json → Option Json
  | object members => members.lookup key
  | _ => none

theorem lookup_setMember (key : Text) (value : Json) (members : List (Text × Json)) :
    (setMember key value members).lookup key = some value := by
  induction members with
  | nil => simp [setMember]
  | cons member rest ih =>
    simp only [setMember]
    split
    next h => simp [h]
    next h => rw [List.lookup_cons, ih]; simp [beq_eq_false_iff_ne.mpr (Ne.symm h)]

def hexDigit (n : Nat) : Char :=
  Nat.digitChar (n % 16)

def escape (c : Char) : Text :=
  if c = '\x22' then ['\x5c', '\x22']
  else if c = '\x5c' then ['\x5c', '\x5c']
  else if c = '\x08' then ['\x5c', 'b']
  else if c = '\x0c' then ['\x5c', 'f']
  else if c = '\n' then ['\x5c', 'n']
  else if c = '\r' then ['\x5c', 'r']
  else if c = '\t' then ['\x5c', 't']
  else if c.toNat < 0x20 then
    ['\x5c', 'u', '0', '0', hexDigit (c.toNat / 16), hexDigit c.toNat]
  else [c]

def stringText (t : Text) : Text :=
  Text.quote (t.flatMap escape)

mutual
def compact : Json → Text
  | null => ['n', 'u', 'l', 'l']
  | bool true => ['t', 'r', 'u', 'e']
  | bool false => ['f', 'a', 'l', 's', 'e']
  | number n => n.text
  | string t => stringText t
  | array items => '[' :: compactItems items ++ [']']
  | object members => '\x7b' :: compactMembers members ++ ['\x7d']
def compactItems : List Json → Text
  | [] => []
  | [v] => compact v
  | v :: w :: rest => compact v ++ ',' :: compactItems (w :: rest)
def compactMembers : List (Text × Json) → Text
  | [] => []
  | [(k, v)] => stringText k ++ ':' :: compact v
  | (k, v) :: w :: rest => stringText k ++ ':' :: compact v ++ ',' :: compactMembers (w :: rest)
end

def newLine (depth : Nat) : Text :=
  '\n' :: List.replicate (2 * depth) ' '

mutual
def prettyAt (depth : Nat) : Json → Text
  | array items =>
    if items.isEmpty then ['[', ']']
    else '[' :: prettyItems (depth + 1) items ++ newLine depth ++ [']']
  | object members =>
    if members.isEmpty then ['\x7b', '\x7d']
    else '\x7b' :: prettyMembers (depth + 1) members ++ newLine depth ++ ['\x7d']
  | null => ['n', 'u', 'l', 'l']
  | bool true => ['t', 'r', 'u', 'e']
  | bool false => ['f', 'a', 'l', 's', 'e']
  | number n => n.text
  | string t => stringText t
def prettyItems (depth : Nat) : List Json → Text
  | [] => []
  | [v] => newLine depth ++ prettyAt depth v
  | v :: w :: rest => newLine depth ++ prettyAt depth v ++ ',' :: prettyItems depth (w :: rest)
def prettyMembers (depth : Nat) : List (Text × Json) → Text
  | [] => []
  | [(k, v)] => newLine depth ++ stringText k ++ ':' :: ' ' :: prettyAt depth v
  | (k, v) :: w :: rest =>
    newLine depth ++ stringText k ++ ':' :: ' ' :: prettyAt depth v ++
      ',' :: prettyMembers depth (w :: rest)
end

def pretty (v : Json) : Text :=
  prettyAt 0 v

end Json

end FormulaMigration
