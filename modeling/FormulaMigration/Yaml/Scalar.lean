import FormulaMigration.Yaml

namespace FormulaMigration

namespace Yaml

def isSpaceOrTab (c : Char) : Bool :=
  c == ' ' || c == '\t'

def isBreak (c : Char) : Bool :=
  c == '\n' || c == '\u2028' || c == '\u2029'

def isGapNext : Text → Bool
  | [] => true
  | c :: _ => isSpaceOrTab c || isBreak c

def isFlowIndicator (c : Char) : Bool :=
  [',', '[', ']', '\x7b', '\x7d'].contains c

structure Place where
  line : Nat
  column : Nat
  rest : Text

namespace Place

def next (p : Place) : Place :=
  match p.rest with
  | [] => p
  | c :: rest => if isBreak c then ⟨p.line + 1, 0, rest⟩ else ⟨p.line, p.column + 1, rest⟩

def advance (p : Place) : Nat → Place
  | 0 => p
  | n + 1 => p.next.advance n

def isMarker (p : Place) : Bool :=
  p.column == 0 && [['-', '-', '-'], ['.', '.', '.']].contains (p.rest.take 3) &&
    isGapNext (p.rest.drop 3)

end Place

structure Gap where
  blanks : Text
  breaks : Text
  after : Place

namespace Gap

def ofText? (least : Nat) (broken : Bool) (line column : Nat) : Text → Option Gap
  | [] => some ⟨[], [], ⟨line, column, []⟩⟩
  | c :: rest =>
    if isBreak c then do
      let g ← ofText? least true (line + 1) 0 rest
      some { g with breaks := c :: g.breaks }
    else if isSpaceOrTab c then
      if c == '\t' && broken && column < least then none
      else do
        let g ← ofText? least broken line (column + 1) rest
        some { g with blanks := c :: g.blanks }
    else some ⟨[], [], ⟨line, column, c :: rest⟩⟩

def ofPlace? (least : Nat) (p : Place) : Option Gap :=
  ofText? least false p.line p.column p.rest

def isEmpty (g : Gap) : Bool :=
  g.blanks.isEmpty && g.breaks.isEmpty

/-- What a gap is read as: its blanks if it is on one line, a space if it is a single line feed, and
else its line breaks, less the first one if that is a line feed. -/
def text (g : Gap) : Text :=
  match g.breaks with
  | [] => g.blanks
  | b :: more => if b ≠ '\n' then b :: more else if more.isEmpty then [' '] else more

end Gap

def startsPlain (c : Char) : Bool :=
  !(isSpaceOrTab c || isFlowIndicator c ||
    ['#', '&', '*', '!', '|', '>', '\x27', '\x22', '%', '@', '\x60'].contains c)

def readWord? (flow : Bool) : Text → Option (Text × Text)
  | [] => some ([], [])
  | c :: rest =>
    if isGapNext (c :: rest) then some ([], c :: rest)
    else if flow && c == ':' && rest.head?.any (fun d => isFlowIndicator d || d == '?') then none
    else if (c == ':' && isGapNext rest) || (flow && isFlowIndicator c) then some ([], c :: rest)
    else do
      let (word, rest) ← readWord? flow rest
      some (c :: word, rest)

structure PlainReading where
  text : Text
  broken : Bool
  after : Place

def readPlain? (flow : Bool) (least : Nat) : (fuel : Nat) → Place → Option PlainReading
  | 0, _ => none
  | fuel + 1, p => do
    let (word, rest) ← readWord? flow p.rest
    let g ← Gap.ofPlace? least ⟨p.line, p.column + word.length, rest⟩
    let broken := !g.breaks.isEmpty
    if g.isEmpty || (!flow && g.after.column < least) || g.after.isMarker ||
        g.after.rest.head? = some '#' then
      some ⟨word, broken, g.after⟩
    else
      let more ← readPlain? flow least fuel g.after
      if more.text.isEmpty then some ⟨word, broken, more.after⟩
      else some { more with text := word ++ g.text ++ more.text }

def escaped? (c : Char) : Option Char :=
  [('0', '\x00'), ('a', '\x07'), ('b', '\x08'), ('t', '\t'), ('\t', '\t'), ('n', '\n'),
    ('v', '\x0b'), ('f', '\x0c'), ('r', '\r'), ('e', '\x1b'), (' ', ' '), ('\x22', '\x22'),
    ('/', '/'), ('\x5c', '\x5c'), ('N', '\u0085'), ('_', '\u00a0'), ('L', '\u2028'),
    ('P', '\u2029')].lookup c

def codeLength? (c : Char) : Option Nat :=
  [('x', 2), ('u', 4), ('U', 8)].lookup c

def ofCode? (digits : Text) : Option Char := do
  let n ← Text.hexNumber? digits
  if Nat.isValidChar n then some (Char.ofNat n) else none

def readEscape? : Text → Option (Char × Nat)
  | [] => none
  | e :: rest =>
    match codeLength? e with
    | some n => if rest.length < n then none else (ofCode? (rest.take n)).map (·, n + 1)
    | none => (escaped? e).map (·, 1)

def readQuoted? (quote : Char) : (fuel : Nat) → Place → Option (Text × Place)
  | 0, _ => none
  | fuel + 1, p =>
    match p.rest with
    | [] => none
    | c :: rest =>
      if isGapNext p.rest then do
        let g ← Gap.ofPlace? 0 p
        if g.after.isMarker then none
        else
          let (more, after) ← readQuoted? quote fuel g.after
          some (g.text ++ more, after)
      else if c == quote then
        if quote == '\x27' && rest.head? = some quote then do
          let (more, after) ← readQuoted? quote fuel (p.advance 2)
          some (quote :: more, after)
        else some ([], p.next)
      else if c == '\x5c' && quote == '\x22' then
        if rest.head?.any isBreak then do
          let g ← Gap.ofPlace? 0 (p.advance 2)
          if g.after.isMarker then none
          else
            let (more, after) ← readQuoted? quote fuel g.after
            some (g.breaks ++ more, after)
        else do
          let (d, width) ← readEscape? rest
          let (more, after) ← readQuoted? quote fuel (p.advance (width + 1))
          some (d :: more, after)
      else do
        let (more, after) ← readQuoted? quote fuel p.next
        some (c :: more, after)

end Yaml

end FormulaMigration
