import FormulaMigration.Yaml.Scalar

/-!
The tokens of a YAML text. Indentation is told by tokens of its own: one opens a collection at its
column, and one closes it where a later line stands left of that column. That a scalar or a bracket
started a key shows only at the colon after it, so the token of a key is put in at an earlier place.
-/

namespace FormulaMigration

namespace Yaml

inductive Token
  | scalar (t : Text) (plain : Bool)
  | openSequence
  | closeSequence
  | openMapping
  | closeMapping
  | comma
  | blockSequence
  | blockMapping
  | blockEnd
  | entry
  | key
  | value
  | documentStart
  | documentEnd
deriving DecidableEq

structure KeyStart where
  tokenCount : Nat
  line : Nat
  column : Nat
  required : Bool

/-- Whether it is too late for a colon: a key stands on one line, and the colon at most 1024
characters after its start. -/
def KeyStart.isStale (k : KeyStart) (p : Place) : Bool :=
  k.line < p.line || k.column + 1024 < p.column

structure Layout where
  place : Place
  tokens : List Token
  columns : List Nat
  keyStart : Option KeyStart
  outerKeyStarts : List (Option KeyStart)
  keyAllowed : Bool

namespace Layout

def ofText (t : Text) : Layout :=
  ⟨⟨0, 0, t⟩, [], [], none, [], true⟩

def isFlow (s : Layout) : Bool :=
  !s.outerKeyStarts.isEmpty

def push (s : Layout) (t : Token) (width : Nat) (keyAllowed : Bool) : Layout :=
  { s with place := s.place.advance width, tokens := t :: s.tokens, keyAllowed }

def skipText (flow keyAllowed comment : Bool) (line column : Nat) : Text → Bool × Place
  | [] => (keyAllowed, ⟨line, column, []⟩)
  | c :: rest =>
    if isBreak c then skipText flow (keyAllowed || !flow) false (line + 1) 0 rest
    else if comment || c == ' ' || (c == '\t' && (flow || !keyAllowed)) then
      skipText flow keyAllowed comment line (column + 1) rest
    else if c == '#' then skipText flow keyAllowed true line (column + 1) rest
    else (keyAllowed, ⟨line, column, c :: rest⟩)

def skip (s : Layout) : Layout :=
  let (keyAllowed, place) :=
    skipText s.isFlow s.keyAllowed false s.place.line s.place.column s.place.rest
  { s with place, keyAllowed }

def dropKey? (s : Layout) : Option Layout :=
  if s.keyStart.any (·.required) then none else some { s with keyStart := none }

def dropStaleKeys? (s : Layout) : Option Layout :=
  let starts := s.keyStart :: s.outerKeyStarts
  if starts.any (·.any fun k => k.required && k.isStale s.place) then none
  else
    let keep (k : Option KeyStart) := k.filter (!·.isStale s.place)
    some { s with
      keyStart := keep s.keyStart
      outerKeyStarts := s.outerKeyStarts.map keep }

def startKey? (s : Layout) : Option Layout :=
  if s.keyAllowed then do
    let s ← s.dropKey?
    let required := !s.isFlow && s.columns.head? = some s.place.column
    some { s with
      keyStart := some ⟨s.tokens.length, s.place.line, s.place.column, required⟩ }
  else some s

def opensAt (s : Layout) (column : Nat) : Bool :=
  !s.isFlow && s.columns.head?.all (· < column)

def openEntry? (s : Layout) (start : Token) : Option Layout :=
  if !s.isFlow && !s.keyAllowed then none
  else if s.opensAt s.place.column then
    some { s with tokens := start :: s.tokens, columns := s.place.column :: s.columns }
  else some s

def markKey (s : Layout) (k : KeyStart) : Layout :=
  let later := s.tokens.length - k.tokenCount
  let opens := s.opensAt k.column
  { s with
    tokens := s.tokens.take later ++ (if opens then [.key, .blockMapping] else [.key]) ++
      s.tokens.drop later
    columns := if opens then k.column :: s.columns else s.columns
    keyStart := none }

def closeBlocks (s : Layout) (closed : Nat → Bool) : Layout :=
  if s.isFlow then s
  else
    { s with
      tokens := (s.columns.takeWhile closed).map (fun _ => .blockEnd) ++ s.tokens
      columns := s.columns.dropWhile closed }

def closeAll? (s : Layout) : Option Layout :=
  (s.closeBlocks fun _ => true).dropKey?

def openBracket (s : Layout) (t : Token) : Layout :=
  { s.push t 1 true with keyStart := none, outerKeyStarts := s.keyStart :: s.outerKeyStarts }

def closeBracket (s : Layout) (t : Token) : Layout :=
  match s.outerKeyStarts with
  | [] => s.push t 1 false
  | k :: outer => { s.push t 1 false with keyStart := k, outerKeyStarts := outer }

def quoted? (s : Layout) (quote : Char) : Option Layout := do
  let (t, after) ← readQuoted? quote s.place.rest.length s.place.next
  some { s with place := after, tokens := .scalar t false :: s.tokens, keyAllowed := false }

def plain? (s : Layout) : Option Layout := do
  let least := match s.columns with
    | column :: _ => column + 1
    | [] => 0
  let r ← readPlain? s.isFlow least (s.place.rest.length + 1) s.place
  some { s with
    place := r.after
    tokens := .scalar r.text true :: s.tokens
    keyAllowed := r.broken }

def next? (s : Layout) (c : Char) (rest : Text) : Option Layout :=
  let indicates := s.isFlow || isGapNext rest
  if s.place.column = 0 ∧ c = '%' then none
  else if s.place.isMarker then do
    some ((← s.closeAll?).push (if c = '-' then .documentStart else .documentEnd) 3 false)
  else if c = '[' then do some ((← s.startKey?).openBracket .openSequence)
  else if c = '\x7b' then do some ((← s.startKey?).openBracket .openMapping)
  else if c = ']' then do some ((← s.dropKey?).closeBracket .closeSequence)
  else if c = '\x7d' then do some ((← s.dropKey?).closeBracket .closeMapping)
  else if c = ',' then do some ((← s.dropKey?).push .comma 1 true)
  else if c = '-' ∧ isGapNext rest then do
    some ((← (← s.openEntry? .blockSequence).dropKey?).push .entry 1 true)
  else if c = '?' ∧ indicates then do
    some ((← (← s.openEntry? .blockMapping).dropKey?).push .key 1 !s.isFlow)
  else if c = ':' ∧ indicates then
    match s.keyStart with
    | some k => some ((s.markKey k).push .value 1 false)
    | none => do some ((← s.openEntry? .blockMapping).push .value 1 !s.isFlow)
  else if c = '\x22' ∨ c = '\x27' then do (← s.startKey?).quoted? c
  else if startsPlain c then do (← s.startKey?).plain?
  else none

def tokens? : (fuel : Nat) → Layout → Option (List Token)
  | 0, _ => none
  | fuel + 1, s => do
    let s ← s.skip.dropStaleKeys?
    let s := s.closeBlocks (s.place.column < ·)
    match s.place.rest with
    | [] => do some (← s.closeAll?).tokens.reverse
    | c :: rest => tokens? fuel (← s.next? c rest)

end Layout

namespace Token

def isAllowed (c : Char) : Bool :=
  let n := c.toNat
  n == 9 || n == 10 || n == 13 || (0x20 ≤ n && n ≤ 0x7E) || n == 0x85 ||
    (0xA0 ≤ n && n ≤ 0xFFFD && n != 0xFEFF) || 0x10000 ≤ n

def normalizeBreaks : Text → Text
  | [] => []
  | c :: rest =>
    if c = '\r' then
      if rest.head? = some '\n' then normalizeBreaks rest else '\n' :: normalizeBreaks rest
    else if c = '\u0085' then '\n' :: normalizeBreaks rest
    else c :: normalizeBreaks rest

def ofText? (t : Text) : Option (List Token) :=
  let t := if t.head? = some '\ufeff' then t.drop 1 else t
  if t.all isAllowed then
    let t := normalizeBreaks t
    (Layout.ofText t).tokens? (t.length + 1)
  else none

end Token

end Yaml

end FormulaMigration
