import FormulaMigration.Json.Document

namespace FormulaMigration

structure JsonField (σ : Type) where
  name : Text
  isSet : σ → Bool
  set : JsonReading → σ → Except JsonFault σ
  omittable : Bool

namespace JsonReading

def refusal : JsonReading → JsonFault
  | broken f => f
  | cutNumber => .ended
  | cutWord => .ended
  | number n => if n.value?.isNone then .malformed else .mismatch
  | string s =>
    match s.text? with
    | .ok _ => .mismatch
    | .error f => f
  | _ => .mismatch

def text : JsonReading → Except JsonFault Text
  | string s => s.text?
  | v => .error v.refusal

def word : JsonReading → Except JsonFault UInt64
  | number n =>
    match n.value? with
    | some (.natural k) => .ok k
    | some _ => .error .mismatch
    | none => .error .malformed
  | v => .error v.refusal

def count (v : JsonReading) : Except JsonFault Nat := do
  .ok (← v.word).toNat

def truth : JsonReading → Except JsonFault Bool
  | bool b => .ok b
  | v => .error v.refusal

def list {α : Type} (item : JsonReading → Except JsonFault α) :
    JsonReading → Except JsonFault (List α)
  | array items fault => do
    let items ← items.mapM item
    skipFault fault
    .ok items
  | v => .error v.refusal

def optional {α : Type} (item : JsonReading → Except JsonFault α) :
    JsonReading → Except JsonFault (Option α)
  | null => .ok none
  | v => do .ok (some (← item v))

def variant {α : Type} (variants : List (Text × α)) (s : StringReading) : Except JsonFault α := do
  match variants.lookup (← s.text?) with
  | some a => .ok a
  | none => .error .mismatch

/-- Reads one of a list of words, which may also stand as the key of an object with the value
`null`. -/
def choice {α : Type} (variants : List (Text × α)) : JsonReading → Except JsonFault α
  | string s => variant variants s
  | object [] fault => .error (fault.getD .malformed)
  | object ((key, v) :: rest) fault => do
    let a ← variant variants key
    match v with
    | null =>
      if rest.isEmpty then
        skipFault fault
        .ok a
      else .error .malformed
    | v => .error v.refusal
  | broken f => .error f
  | _ => .error .malformed

def setMember {σ : Type} (fields : List (JsonField σ)) (s : σ) (m : StringReading × JsonReading) :
    Except JsonFault σ := do
  let key ← m.1.text?
  match fields.find? (·.name = key) with
  | none =>
    m.2.skip
    .ok s
  | some field => if field.isSet s then .error .mismatch else field.set m.2 s

def setItems {σ : Type} (fault : Option JsonFault) :
    List (JsonField σ) → List JsonReading → σ → Except JsonFault σ
  | [], [], s => do
    skipFault fault
    .ok s
  | [], _ :: _, _ => .error .malformed
  | field :: fields, v :: items, s => do setItems fault fields items (← field.set v s)
  | field :: fields, [], s => do
    skipFault fault
    if (field :: fields).all (·.omittable) then .ok s else .error .mismatch

def fields {σ : Type} (fields : List (JsonField σ)) (start : σ) : JsonReading → Except JsonFault σ
  | object members fault => do
    let s ← members.foldlM (setMember fields) start
    skipFault fault
    .ok s
  | array items fault => setItems fault fields items start
  | v => .error v.refusal

def required {α : Type} : Option α → Except JsonFault α
  | some a => .ok a
  | none => .error .mismatch

end JsonReading

def JsonField.of {σ α : Type} (name : String) (item : JsonReading → Except JsonFault α)
    (get : σ → Option α) (put : α → σ → σ) : JsonField σ :=
  ⟨name.toList, fun s => (get s).isSome, fun v s => do .ok (put (← item v) s), false⟩

def JsonField.mayBeOmitted {σ : Type} (field : JsonField σ) : JsonField σ :=
  { field with omittable := true }

end FormulaMigration
