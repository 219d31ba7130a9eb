import FormulaMigration.Yaml.Token

namespace FormulaMigration

namespace Yaml

inductive Setting
  | flow
  | item
  | field
deriving DecidableEq

def afterItem? (closing : Token) : List Token → Option (List Token)
  | t :: rest => if t = .comma then some rest else if t = closing then some (t :: rest) else none
  | [] => none

mutual

def readValue? : (fuel : Nat) → Setting → List Token → Option (Yaml × List Token)
  | 0, _, _ => none
  | fuel + 1, setting, tokens =>
    match tokens with
    | .scalar t plain :: rest => some (scalar t plain, rest)
    | .openSequence :: rest => do
      let (items, rest) ← readFlowItems? fuel rest
      some (sequence items, rest)
    | .openMapping :: rest => do
      let (entries, rest) ← readFlowEntries? fuel rest
      some (mapping entries, rest)
    | .entry :: _ =>
      if setting = .field then do
        let (items, rest) ← readLooseItems? fuel tokens
        some (sequence items, rest)
      else none
    | .blockSequence :: rest =>
      if setting = .flow then none
      else do
        let (items, rest) ← readItems? fuel rest
        some (sequence items, rest)
    | .blockMapping :: rest =>
      if setting = .flow then none
      else do
        let (entries, rest) ← readEntries? fuel rest
        some (mapping entries, rest)
    | _ => none

def readOrNothing? : (fuel : Nat) → (stops : List Token) → Setting → List Token →
    Option (Yaml × List Token)
  | 0, _, _, _ => none
  | fuel + 1, stops, setting, tokens =>
    if tokens.head?.any stops.contains then some (nothing, tokens)
    else readValue? fuel setting tokens

def readAfterKey? : (fuel : Nat) → (stops : List Token) → Setting → List Token →
    Option (Yaml × List Token)
  | fuel + 1, stops, setting, .value :: rest => readOrNothing? fuel stops setting rest
  | _ + 1, _, _, tokens => some (nothing, tokens)
  | 0, _, _, _ => none

def readItems? : (fuel : Nat) → List Token → Option (List Yaml × List Token)
  | fuel + 1, .entry :: rest => do
    let (item, rest) ← readOrNothing? fuel [.entry, .blockEnd] .item rest
    let (items, rest) ← readItems? fuel rest
    some (item :: items, rest)
  | _ + 1, .blockEnd :: rest => some ([], rest)
  | _, _ => none

def readLooseItems? : (fuel : Nat) → List Token → Option (List Yaml × List Token)
  | fuel + 1, .entry :: rest => do
    let (item, rest) ← readOrNothing? fuel [.entry, .key, .value, .blockEnd] .item rest
    let (items, rest) ← readLooseItems? fuel rest
    some (item :: items, rest)
  | _ + 1, tokens => some ([], tokens)
  | 0, _ => none

def readEntries? : (fuel : Nat) → List Token → Option (List (Yaml × Yaml) × List Token)
  | fuel + 1, .key :: rest => do
    let stops := [.key, .value, .blockEnd]
    let (key, rest) ← readOrNothing? fuel stops .field rest
    let (value, rest) ← readAfterKey? fuel stops .field rest
    let (entries, rest) ← readEntries? fuel rest
    some ((key, value) :: entries, rest)
  | _ + 1, .blockEnd :: rest => some ([], rest)
  | _, _ => none

def readFlowItems? : (fuel : Nat) → List Token → Option (List Yaml × List Token)
  | _ + 1, .closeSequence :: rest => some ([], rest)
  | fuel + 1, .key :: rest => do
    let (key, rest) ←
      if rest.head?.any [.value, .comma, .closeSequence].contains then some (nothing, rest.drop 1)
      else readValue? fuel .flow rest
    let (value, rest) ← readAfterKey? fuel [.comma, .closeSequence] .flow rest
    let (items, rest) ← readFlowItems? fuel (← afterItem? .closeSequence rest)
    some (mapping [(key, value)] :: items, rest)
  | fuel + 1, tokens => do
    let (item, rest) ← readValue? fuel .flow tokens
    let (items, rest) ← readFlowItems? fuel (← afterItem? .closeSequence rest)
    some (item :: items, rest)
  | 0, _ => none

def readFlowEntries? : (fuel : Nat) → List Token → Option (List (Yaml × Yaml) × List Token)
  | _ + 1, .closeMapping :: rest => some ([], rest)
  | fuel + 1, .key :: rest => do
    let (key, rest) ← readOrNothing? fuel [.value, .comma, .closeMapping] .flow rest
    let (value, rest) ← readAfterKey? fuel [.comma, .closeMapping] .flow rest
    let (entries, rest) ← readFlowEntries? fuel (← afterItem? .closeMapping rest)
    some ((key, value) :: entries, rest)
  | fuel + 1, tokens => do
    let (key, rest) ← readValue? fuel .flow tokens
    let (entries, rest) ← readFlowEntries? fuel (← afterItem? .closeMapping rest)
    some ((key, nothing) :: entries, rest)
  | 0, _ => none

end

def ofTokens? (tokens : List Token) : Option Yaml := do
  let body := if tokens.head? = some .documentStart then tokens.drop 1 else tokens
  let isEmpty := tokens.isEmpty || (body.length < tokens.length &&
    body.head?.all [.documentStart, .documentEnd].contains)
  let (v, rest) ←
    if isEmpty then some (nothing, body) else readValue? (2 * tokens.length + 2) .item body
  if rest.all (· = .documentEnd) then some v else none

def ofText? (t : Text) : Option Yaml := do
  ofTokens? (← Token.ofText? t)

end Yaml

end FormulaMigration
