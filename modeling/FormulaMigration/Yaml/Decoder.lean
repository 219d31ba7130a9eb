import FormulaMigration.Json.Numeral
import FormulaMigration.Yaml

namespace FormulaMigration

structure YamlField (σ : Type) where
  name : Text
  isSet : σ → Bool
  set : Yaml → σ → Option σ

def YamlField.of {σ α : Type} (name : String) (item : Yaml → Option α) (get : σ → Option α)
    (put : α → σ → σ) : YamlField σ :=
  ⟨name.toList, fun s => (get s).isSome, fun v s => (item v).map (put · s)⟩

namespace Yaml

def text? : Yaml → Option Text
  | scalar t _ => some t
  | _ => none

def truth? : Yaml → Option Bool
  | scalar t true =>
    if ["true".toList, "True".toList, "TRUE".toList].contains t then some true
    else if ["false".toList, "False".toList, "FALSE".toList].contains t then some false
    else none
  | _ => none

def digits? (base : Nat) (t : Text) : Option Nat :=
  if t.isEmpty then none
  else
    t.foldlM (fun n c => do
      let d ← Text.hexValue? c
      if d < base then some (base * n + d) else none) 0

def natural? (t : Text) : Option Nat :=
  let unsigned := match t with
    | c :: rest => if c = '+' then rest else c :: rest
    | [] => []
  let marked := match unsigned with
    | '0' :: mark :: rest =>
      match [('x', 16), ('o', 8), ('b', 2)].lookup mark with
      | some base => digits? base rest
      | none => none
    | _ => none
  match marked with
  | some n => some n
  | none =>
    if unsigned.length > 1 && unsigned.head? = some '0' && unsigned.all Char.isDigit then none
    else digits? 10 unsigned

def word? : Yaml → Option UInt64
  | scalar t true => do
    let n ← natural? t
    if n < Numeral.wordSize then some (UInt64.ofNat n) else none
  | _ => none

def count? (v : Yaml) : Option Nat := do
  some (← v.word?).toNat

def list? {α : Type} (item : Yaml → Option α) : Yaml → Option (List α)
  | sequence items => items.mapM item
  | scalar [] true => some []
  | _ => none

def setEntry {σ : Type} (fields : List (YamlField σ)) (s : σ) (entry : Yaml × Yaml) : Option σ := do
  let key ← entry.1.text?
  match fields.find? (·.name = key) with
  | none => some s
  | some field => if field.isSet s then none else field.set entry.2 s

def fields? {σ : Type} (fields : List (YamlField σ)) (start : σ) : Yaml → Option σ
  | mapping entries => entries.foldlM (setEntry fields) start
  | scalar [] true => some start
  | _ => none

end Yaml

end FormulaMigration
