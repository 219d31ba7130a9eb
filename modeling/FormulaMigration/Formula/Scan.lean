import FormulaMigration.Formula

namespace FormulaMigration

inductive Scan
  | last (gap : Text)
  | step (gap : Text) (op : Operator) (rest : Scan)
deriving DecidableEq

namespace Scan

def push (c : Char) : Scan → Scan
  | last gap => last (c :: gap)
  | step gap op rest => step (c :: gap) op rest

def text : Scan → Text
  | last gap => gap
  | step gap op rest => gap ++ op.symbol ++ rest.text

theorem text_push (c : Char) (s : Scan) : (s.push c).text = c :: s.text := by
  cases s <;> simp [push, text]

/-- Cuts a text from left to right. `before` is what precedes it, nearest character first, and the
first `skip` characters belong to an operator that stands already. -/
def ofTextAfter (before : Text) (skip : Nat) : Text → Scan
  | [] => last []
  | c :: rest =>
    match skip with
    | skip + 1 => ofTextAfter (c :: before) skip rest
    | 0 =>
      match Operator.at? before (c :: rest) with
      | some op => step [] op (ofTextAfter (c :: before) (op.symbol.length - 1) rest)
      | none => (ofTextAfter (c :: before) 0 rest).push c

def ofText (t : Text) : Scan :=
  ofTextAfter [] 0 t

theorem text_ofTextAfter (before : Text) (skip : Nat) (t : Text) :
    (ofTextAfter before skip t).text = t.drop skip := by
  induction t generalizing before skip with
  | nil => simp [ofTextAfter, text]
  | cons c t ih =>
    cases skip with
    | succ skip => simp [ofTextAfter, ih]
    | zero =>
      simp only [ofTextAfter]
      split
      next op h =>
        have stands := List.find?_some h
        simp only [Operator.standsAt, Bool.and_eq_true, List.isPrefixOf_iff_prefix] at stands
        obtain ⟨rest, hr⟩ := stands.1
        rw [text, ih]
        have : 0 < op.symbol.length := List.length_pos_iff.mpr op.symbol_ne_nil
        cases hs : op.symbol with
        | nil => exact absurd hs op.symbol_ne_nil
        | cons d symbol =>
          rw [hs] at hr
          simp only [List.cons_append, List.cons.injEq] at hr
          obtain ⟨rfl, rfl⟩ := hr
          simp
      next => simp [text_push, ih]

theorem text_ofText (t : Text) : (ofText t).text = t := by
  simp [ofText, text_ofTextAfter]

end Scan

inductive Lexeme
  | operand (start : Nat) (text : Text)
  | operator (start : Nat) (op : Operator)
  | arguments (opening closing : Nat) (text : Text)
  | unclosed (opening : Nat)
deriving DecidableEq

namespace Lexeme

inductive Place
  | outside (named : Bool)
  /-- In the arguments of a call, `depth` parentheses deep; `passed` is what was read of them,
  nearest character first. -/
  | inside (opening depth : Nat) (passed : Text)
deriving DecidableEq

def isOperand (gap : Text) : Bool :=
  gap.any (!isBlank ·)

def ofGap (start : Nat) (gap : Text) : List Lexeme :=
  if isOperand gap then
    [operand (start + Text.byteLength (gap.takeWhile isBlank)) (gap.dropWhile isBlank)]
  else []

def depthAfter (op : Operator) (depth : Nat) : Nat :=
  if op = .openGroup then depth + 1 else if op = .closeGroup then depth - 1 else depth

/-- The lexemes of a cut text that starts at byte `start`. A `(` after an operand, or after an
operand and some `)`, starts the arguments of a call, and these end at the matching `)`. -/
def ofScan (start : Nat) : Place → Scan → List Lexeme
  | .outside _, .last gap => ofGap start gap
  | .outside named, .step gap op rest =>
    let here := start + Text.byteLength gap
    let named := named || isOperand gap
    let next := here + Text.byteLength op.symbol
    ofGap start gap ++
      if op = .openGroup && named then ofScan next (.inside here 1 []) rest
      else operator here op :: ofScan next (.outside (op = .closeGroup && named)) rest
  | .inside opening _ _, .last _ => [unclosed opening]
  | .inside opening depth passed, .step gap op rest =>
    let here := start + Text.byteLength gap
    let next := here + Text.byteLength op.symbol
    let passed := gap.reverse ++ passed
    if depthAfter op depth = 0 then
      arguments opening here passed.reverse :: ofScan next (.outside false) rest
    else ofScan next (.inside opening (depthAfter op depth) (op.symbol.reverse ++ passed)) rest

def ofText (t : Text) : List Lexeme :=
  ofScan 0 (.outside false) (Scan.ofText t)

end Lexeme

end FormulaMigration
