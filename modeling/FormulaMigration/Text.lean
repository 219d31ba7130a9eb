namespace FormulaMigration

abbrev Text := List Char

def isBlank (c : Char) : Bool :=
  c == ' ' || c == '\t' || c == '\r' || c == '\n'

def isWhiteSpace (c : Char) : Bool :=
  let n := c.toNat
  (9 ≤ n && n ≤ 13) || n == 0x20 || n == 0x85 || n == 0xA0 || n == 0x1680 ||
    (0x2000 ≤ n && n ≤ 0x200A) || n == 0x2028 || n == 0x2029 || n == 0x202F || n == 0x205F ||
    n == 0x3000

theorem isWhiteSpace_of_isBlank {c : Char} (h : isBlank c) : isWhiteSpace c := by
  simp only [isBlank, Bool.or_eq_true, beq_iff_eq] at h
  rcases h with ((rfl | rfl) | rfl) | rfl <;> rfl

namespace Text

def byteLength : Text → Nat
  | [] => 0
  | c :: rest => c.utf8Size + byteLength rest

theorem byteLength_append (s t : Text) : byteLength (s ++ t) = byteLength s + byteLength t := by
  induction s with
  | nil => simp [byteLength]
  | cons c s ih => simp [byteLength, ih, Nat.add_assoc]

theorem length_le_byteLength (t : Text) : t.length ≤ byteLength t := by
  induction t with
  | nil => simp
  | cons c t ih =>
    have := c.utf8Size_pos
    simp only [List.length_cons, byteLength]
    omega

/-- What precedes byte `start`, nearest character first, and what follows it; nothing when `start`
is not the boundary of a character. -/
def splitAtByte (before : Text) : Nat → Text → Option (Text × Text)
  | 0, rest => some (before, rest)
  | _ + 1, [] => none
  | start + 1, c :: rest =>
    if c.utf8Size ≤ start + 1 then splitAtByte (c :: before) (start + 1 - c.utf8Size) rest else none

theorem splitAtByte_eq_some {before text : Text} {start : Nat} {l r : Text}
    (h : splitAtByte before start text = some (l, r)) :
    ∃ passed, text = passed ++ r ∧ l = passed.reverse ++ before ∧ byteLength passed = start := by
  induction text generalizing before start with
  | nil =>
    cases start with
    | zero => simp_all [splitAtByte, byteLength]
    | succ n => simp [splitAtByte] at h
  | cons c text ih =>
    cases start with
    | zero => exact ⟨[], by simp_all [splitAtByte, byteLength]⟩
    | succ n =>
      simp only [splitAtByte] at h
      split at h
      next fits =>
        obtain ⟨passed, rfl, rfl, hp⟩ := ih h
        exact ⟨c :: passed, by simp, by simp, by simp only [byteLength]; omega⟩
      next => cases h

def trim (t : Text) : Text :=
  ((t.dropWhile isWhiteSpace).reverse.dropWhile isWhiteSpace).reverse

def join (separator : Text) : List Text → Text
  | [] => []
  | [t] => t
  | t :: u :: rest => t ++ separator ++ join separator (u :: rest)

def includes : (t part : Text) → Bool
  | [], part => part.isEmpty
  | c :: rest, part => part.isPrefixOf (c :: rest) || includes rest part

def isQuoted (t : Text) : Bool :=
  t.head? == some '\x22' && t.getLast? == some '\x22'

def quote (t : Text) : Text :=
  '\x22' :: t ++ ['\x22']

def le : Text → Text → Bool
  | [], _ => true
  | _ :: _, [] => false
  | c :: s, d :: t => if c = d then le s t else c.toNat < d.toNat

def hexValue? (c : Char) : Option Nat :=
  if c.isDigit then some (c.toNat - '0'.toNat)
  else if 'a' ≤ c ∧ c ≤ 'f' then some (c.toNat - 'a'.toNat + 10)
  else if 'A' ≤ c ∧ c ≤ 'F' then some (c.toNat - 'A'.toNat + 10)
  else none

def hexNumber? (digits : Text) : Option Nat :=
  digits.foldlM (fun n c => (hexValue? c).map (16 * n + ·)) 0

def ofNat (n : Nat) : Text :=
  Nat.toDigits 10 n

end Text

end FormulaMigration
