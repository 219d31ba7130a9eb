import FormulaMigration.Json.Numeral

/-!
What a JSON text says, as far as it can be read. Reading stops at the first fault and leaves it in
its place in the tree, so whoever uses the tree from left to right meets it there, after all that
came before it.
-/

namespace FormulaMigration

inductive JsonFault
  | ended
  | malformed
  | mismatch
deriving DecidableEq

def JsonFault.message : JsonFault → Text
  | ended => "unexpected end of text".toList
  | malformed => "malformed JSON".toList
  | mismatch => "unexpected shape".toList

inductive StringUnit
  | char (c : Char)
  | code (n : Nat)
deriving DecidableEq

structure StringReading where
  units : List StringUnit
  fault : Option JsonFault
deriving DecidableEq

namespace StringReading

def push (u : StringUnit) (reading : StringReading × Text) : StringReading × Text :=
  (⟨u :: reading.1.units, reading.1.fault⟩, reading.2)

def isLeading (n : Nat) : Bool :=
  0xD800 ≤ n && n ≤ 0xDBFF

def isTrailing (n : Nat) : Bool :=
  0xDC00 ≤ n && n ≤ 0xDFFF

def ofPair (n m : Nat) : Char :=
  Char.ofNat (0x10000 + (n - 0xD800) * 0x400 + (m - 0xDC00))

def decode (fault : Option JsonFault) : List StringUnit → Except JsonFault Text
  | [] =>
    match fault with
    | some f => .error f
    | none => .ok []
  | .char c :: rest => do .ok (c :: (← decode fault rest))
  | .code n :: rest =>
    if isTrailing n then .error .malformed
    else if isLeading n then
      match rest with
      | .code m :: rest =>
        if isTrailing m then do .ok (ofPair n m :: (← decode fault rest)) else .error .malformed
      | .char _ :: _ => .error .malformed
      | [] => .error (fault.getD .malformed)
    else do .ok (Char.ofNat n :: (← decode fault rest))

def text? (s : StringReading) : Except JsonFault Text :=
  decode s.fault s.units

def escaped? (c : Char) : Option Char :=
  [('\x22', '\x22'), ('\x5c', '\x5c'), ('/', '/'), ('b', '\x08'), ('f', '\x0c'), ('n', '\n'),
    ('r', '\r'), ('t', '\t')].lookup c

def stop (f : JsonFault) : StringReading × Text :=
  (⟨[], some f⟩, [])

def read : Text → StringReading × Text
  | [] => stop .ended
  | c :: rest =>
    if c = '\x22' then (⟨[], none⟩, rest)
    else if c = '\x5c' then
      match rest with
      | [] => stop .ended
      | e :: rest =>
        match escaped? e with
        | some d => push (.char d) (read rest)
        | none =>
          if e ≠ 'u' then stop .malformed
          else if Text.byteLength rest < 4 then stop .ended
          else
            match rest with
            | a :: b :: c :: d :: rest =>
              match Text.hexNumber? [a, b, c, d] with
              | some n => push (.code n) (read rest)
              | none => stop .malformed
            | _ => stop .malformed
    else if c.toNat < 0x20 then stop .malformed
    else push (.char c) (read rest)

end StringReading

/-- A JSON text as far as it could be read. -/
inductive JsonReading
  | null
  | bool (b : Bool)
  | number (n : Numeral)
  | string (s : StringReading)
  | array (items : List JsonReading) (fault : Option JsonFault)
  | object (members : List (StringReading × JsonReading)) (fault : Option JsonFault)
  | cutNumber
  | cutWord
  | broken (fault : JsonFault)

namespace JsonReading

def readWord (value : JsonReading) : (word : Text) → Text → JsonReading × Option Text
  | [], rest => (value, some rest)
  | _ :: _, [] => (cutWord, none)
  | w :: word, c :: rest => if c = w then readWord value word rest else (broken .malformed, none)

def missingDigits (rest : Text) : JsonReading × Option Text :=
  (if rest.isEmpty then cutNumber else broken .malformed, none)

def readExponent (negative : Bool) (whole : Text) (fraction : Option Text) (t : Text) :
    JsonReading × Option Text :=
  match t with
  | mark :: rest =>
    if mark = 'e' ∨ mark = 'E' then
      let unsigned := match rest with
        | c :: after => if c = '+' ∨ c = '-' then after else rest
        | [] => rest
      let digits := unsigned.takeWhile Char.isDigit
      let after := unsigned.dropWhile Char.isDigit
      if digits.isEmpty then missingDigits after
      else (number ⟨negative, whole, fraction, some (rest.head? = some '-', digits)⟩, some after)
    else (number ⟨negative, whole, fraction, none⟩, some t)
  | [] => (number ⟨negative, whole, fraction, none⟩, some t)

def readNumber (negative : Bool) (t : Text) : JsonReading × Option Text :=
  let whole := t.takeWhile Char.isDigit
  let rest := t.dropWhile Char.isDigit
  if whole.isEmpty then missingDigits rest
  else if whole.head? = some '0' ∧ whole.length ≠ 1 then (broken .malformed, none)
  else
    match rest with
    | c :: after =>
      if c = '.' then
        let fraction := after.takeWhile Char.isDigit
        let rest := after.dropWhile Char.isDigit
        if fraction.isEmpty then missingDigits rest
        else readExponent negative whole (some fraction) rest
      else readExponent negative whole none rest
    | [] => readExponent negative whole none rest

mutual
def readValue : (fuel : Nat) → Text → JsonReading × Option Text
  | 0, _ => (broken .malformed, none)
  | fuel + 1, t =>
    match t.dropWhile isBlank with
    | [] => (broken .ended, none)
    | c :: rest =>
      if c = '\x22' then
        let (s, rest) := StringReading.read rest
        (string s, if s.fault.isNone then some rest else none)
      else if c = '[' then
        let (items, fault, rest) := readItems fuel true rest
        (array items fault, rest)
      else if c = '\x7b' then
        let (members, fault, rest) := readMembers fuel true rest
        (object members fault, rest)
      else if c = 'n' then readWord null ['u', 'l', 'l'] rest
      else if c = 't' then readWord (bool true) ['r', 'u', 'e'] rest
      else if c = 'f' then readWord (bool false) ['a', 'l', 's', 'e'] rest
      else if c = '-' then readNumber true rest
      else if c.isDigit then readNumber false (c :: rest)
      else (broken .malformed, none)
def readItems : (fuel : Nat) → (first : Bool) → Text →
    List JsonReading × Option JsonFault × Option Text
  | 0, _, _ => ([], some .malformed, none)
  | fuel + 1, first, t =>
    match t.dropWhile isBlank with
    | [] => ([], some .ended, none)
    | c :: rest =>
      if c = ']' then ([], none, some rest)
      else if first ∨ c = ',' then
        match readValue fuel (if first then c :: rest else rest) with
        | (v, none) => ([v], none, none)
        | (v, some rest) =>
          let (vs, fault, rest) := readItems fuel false rest
          (v :: vs, fault, rest)
      else ([], some .malformed, none)
def readMembers : (fuel : Nat) → (first : Bool) → Text →
    List (StringReading × JsonReading) × Option JsonFault × Option Text
  | 0, _, _ => ([], some .malformed, none)
  | fuel + 1, first, t =>
    match t.dropWhile isBlank with
    | [] => ([], some .ended, none)
    | c :: rest =>
      if c = '\x7d' then ([], none, some rest)
      else if first ∨ c = ',' then
        match readMember fuel ((if first then c :: rest else rest).dropWhile isBlank) with
        | (m, none) => ([m], none, none)
        | (m, some rest) =>
          let (ms, fault, rest) := readMembers fuel false rest
          (m :: ms, fault, rest)
      else ([], some .malformed, none)
def readMember : (fuel : Nat) → Text → (StringReading × JsonReading) × Option Text
  | 0, _ => ((⟨[], some .malformed⟩, broken .malformed), none)
  | fuel + 1, t =>
    match t with
    | [] => ((⟨[], some .ended⟩, broken .ended), none)
    | c :: rest =>
      if c = '\x22' then
        let (key, rest) := StringReading.read rest
        match rest.dropWhile isBlank with
        | [] => ((key, broken .ended), none)
        | d :: rest =>
          if d = ':' then
            let (v, rest) := readValue fuel rest
            ((key, v), rest)
          else ((key, broken .malformed), none)
      else ((⟨[], some .malformed⟩, broken .malformed), none)
end

def ofText (t : Text) : JsonReading × Option JsonFault :=
  match readValue (3 * t.length + 4) t with
  | (v, none) => (v, none)
  | (v, some rest) =>
    (v, match rest.dropWhile isBlank with
      | [] => none
      | _ :: _ => some .malformed)

def decodeText {α : Type} (use : JsonReading → Except JsonFault α) (t : Text) :
    Except JsonFault α := do
  let (v, fault) := ofText t
  let a ← use v
  match fault with
  | some f => .error f
  | none => .ok a

def skipFault : Option JsonFault → Except JsonFault Unit
  | some f => .error f
  | none => .ok ()

mutual
/-- Passes over a value that is not needed. Only its form is looked at: numbers may be of any size,
strings may hold halves of pairs, and arrays may nest to any depth. -/
def skip : JsonReading → Except JsonFault Unit
  | string s => skipFault s.fault
  | array items fault => do
    skipItems items
    skipFault fault
  | object members fault => do
    skipMembers members
    skipFault fault
  | cutNumber => .error .malformed
  | cutWord => .error .ended
  | broken f => .error f
  | null => .ok ()
  | bool _ => .ok ()
  | number _ => .ok ()
def skipItems : List JsonReading → Except JsonFault Unit
  | [] => .ok ()
  | v :: rest => do
    skip v
    skipItems rest
def skipMembers : List (StringReading × JsonReading) → Except JsonFault Unit
  | [] => .ok ()
  | (key, v) :: rest => do
    skipFault key.fault
    skip v
    skipMembers rest
end

end JsonReading

end FormulaMigration
