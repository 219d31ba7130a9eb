import FormulaMigration.Json.Reading

namespace FormulaMigration

namespace JsonReading

def nestingLimit : Nat := 127

mutual
def document (depth : Nat) : JsonReading → Except JsonFault Json
  | null => .ok .null
  | bool b => .ok (.bool b)
  | number n =>
    match n.value? with
    | some v => .ok (.number v)
    | none => .error .malformed
  | string s => do .ok (.string (← s.text?))
  | array items fault =>
    match depth with
    | 0 => .error .malformed
    | depth + 1 => do
      let items ← documents depth items
      skipFault fault
      .ok (.array items)
  | object members fault =>
    match depth with
    | 0 => .error .malformed
    | depth + 1 => do
      let members ← memberDocuments depth [] members
      skipFault fault
      .ok (.object members)
  | cutNumber => .error .ended
  | cutWord => .error .ended
  | broken f => .error f
def documents (depth : Nat) : List JsonReading → Except JsonFault (List Json)
  | [] => .ok []
  | v :: rest => do
    let v ← document depth v
    .ok (v :: (← documents depth rest))
/-- The members of an object, after those that were read already. A key that comes again keeps its
place and takes the later value. -/
def memberDocuments (depth : Nat) (known : List (Text × Json)) :
    List (StringReading × JsonReading) → Except JsonFault (List (Text × Json))
  | [] => .ok known
  | (key, v) :: rest => do
    let key ← key.text?
    let v ← document depth v
    memberDocuments depth (Json.setMember key v known) rest
end

end JsonReading

def JsonNumber.numeral : JsonNumber → Numeral
  | natural n => ⟨false, Text.ofNat n.toNat, none, none⟩
  | negative n => ⟨true, Text.ofNat n.toInt.natAbs, none, none⟩
  | double x => ⟨x.negative, Text.ofNat (Decimal.shortest x).digits, none,
      some ((Decimal.shortest x).exponent < 0, Text.ofNat (Decimal.shortest x).exponent.natAbs)⟩

namespace Json

def ofText (t : Text) : Except JsonFault Json :=
  JsonReading.decodeText (JsonReading.document JsonReading.nestingLimit) t

def stringReading (t : Text) : StringReading :=
  ⟨t.map .char, none⟩

mutual
def reading : Json → JsonReading
  | null => .null
  | bool b => .bool b
  | number n => .number n.numeral
  | string t => .string (stringReading t)
  | array items => .array (readings items) none
  | object members => .object (memberReadings members) none
def readings : List Json → List JsonReading
  | [] => []
  | v :: rest => reading v :: readings rest
def memberReadings : List (Text × Json) → List (StringReading × JsonReading)
  | [] => []
  | (key, v) :: rest => (stringReading key, reading v) :: memberReadings rest
end

def decode {α : Type} (use : JsonReading → Except JsonFault α) (v : Json) : Except JsonFault α :=
  match use v.reading with
  | .ok a => .ok a
  | .error _ => .error .mismatch

end Json

end FormulaMigration
