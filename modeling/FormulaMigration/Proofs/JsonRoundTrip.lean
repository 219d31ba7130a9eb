import FormulaMigration.Json.Decoder
import FormulaMigration.Proofs.JsonText

/-!
JSON text that is read again. Main statements: whoever reads a document that is laid out reads what
it says, whatever blanks stand between its parts, and so the compact and the pretty text of a
legible document give it back.
-/

namespace FormulaMigration

namespace Numeral

theorem ofDigits_ofNat (n : Nat) : ofDigits (Text.ofNat n) = n :=
  Nat.ofDigitChars_ten_toDigits

theorem value?_ofNat (n : UInt64) :
    value? ⟨false, Text.ofNat n.toNat, none, none⟩ = some (.natural n) := by
  have small : n.toNat < wordSize := n.toNat_lt
  simp [value?, ofDigits_ofNat, small]

end Numeral

namespace StringReading

variable {c d e : Char}

theorem read_quote (rest : Text) : read ('\x22' :: rest) = (⟨[], none⟩, rest) := by
  rw [read.eq_def]
  rfl

theorem read_char (quote : c ≠ '\x22') (slash : c ≠ '\x5c') (control : ¬ c.toNat < 0x20)
    (rest : Text) : read (c :: rest) = push (.char c) (read rest) := by
  rw [read.eq_def]
  simp only [if_neg quote, if_neg slash, if_neg control]

theorem read_escaped (letter : escaped? e = some d) (rest : Text) :
    read ('\x5c' :: e :: rest) = push (.char d) (read rest) := by
  rw [read.eq_def]
  simp [letter]

theorem read_code {a b : Char} {n : Nat} (digits : Text.hexNumber? [a, b, c, d] = some n)
    (rest : Text) :
    read ('\x5c' :: 'u' :: a :: b :: c :: d :: rest) = push (.code n) (read rest) := by
  have long := Text.length_le_byteLength (a :: b :: c :: d :: rest)
  simp only [List.length_cons] at long
  have enough : ¬ Text.byteLength (a :: b :: c :: d :: rest) < 4 := by omega
  have unnamed : escaped? 'u' = none := by decide
  rw [read.eq_def]
  simp [unnamed, enough, digits]

def unitOf (c : Char) : StringUnit :=
  if c.toNat < 0x20 ∧ c ∉ ['\x08', '\x0c', '\n', '\r', '\t'] then .code c.toNat else .char c

def ofWritten (t : Text) : StringReading :=
  ⟨t.map unitOf, none⟩

theorem read_escape (c : Char) (rest : Text) :
    read (Json.escape c ++ rest) = push (unitOf c) (read rest) := by
  unfold Json.escape
  split_ifs with quote slash back feed line carriage tab control
  all_goals try (subst c; exact read_escaped (by decide) rest)
  · have code : ∀ n < 0x20,
        Text.hexNumber? ['0', '0', Json.hexDigit (n / 16), Json.hexDigit n] = some n := by decide
    have unit : unitOf c = .code c.toNat := by simp [unitOf, *]
    rw [unit]
    exact read_code (code c.toNat control) rest
  · have unit : unitOf c = .char c := by simp [unitOf, *]
    rw [unit]
    exact read_char quote slash control rest

theorem read_written (t rest : Text) :
    read (t.flatMap Json.escape ++ '\x22' :: rest) = (ofWritten t, rest) := by
  induction t with
  | nil => exact read_quote rest
  | cons c t ih =>
    rw [List.flatMap_cons, List.append_assoc, read_escape, ih]
    rfl

theorem decode_code {n : Nat} (low : n < 0x20) (fault : Option JsonFault) (rest : List StringUnit) :
    decode fault (.code n :: rest) = (do .ok (Char.ofNat n :: (← decode fault rest))) := by
  have trailing : isTrailing n = false := by simp [isTrailing]; omega
  have leading : isLeading n = false := by simp [isLeading]; omega
  rw [decode.eq_def]
  simp [trailing, leading]

theorem text?_ofWritten (t : Text) : (ofWritten t).text? = .ok t := by
  change decode none (t.map unitOf) = .ok t
  induction t with
  | nil => rfl
  | cons c t ih =>
    rw [List.map_cons, unitOf]
    split_ifs with control
    · rw [decode_code control.1, ih, Char.ofNat_toNat]
      rfl
    · rw [decode, ih]
      rfl

end StringReading

namespace Json

mutual
def written : Json → JsonReading
  | null => .null
  | bool b => .bool b
  | number n => .number n.numeral
  | string t => .string (.ofWritten t)
  | array items => .array (writtenItems items) none
  | object members => .object (writtenMembers members) none
def writtenItems : List Json → List JsonReading
  | [] => []
  | v :: rest => written v :: writtenItems rest
def writtenMembers : List (Text × Json) → List (StringReading × JsonReading)
  | [] => []
  | (k, v) :: rest => (.ofWritten k, written v) :: writtenMembers rest
end

end Json

namespace JsonReading

def EndsNumber (rest : Text) : Prop :=
  ∀ c ∈ rest.head?, c.isDigit = false ∧ c ≠ '.' ∧ c ≠ 'e' ∧ c ≠ 'E'

theorem endsNumber_blank {c : Char} (h : isBlank c) (rest : Text) : EndsNumber (c :: rest) := by
  intro d hd
  obtain rfl := Option.some.inj hd
  simp only [isBlank, Bool.or_eq_true, beq_iff_eq] at h
  rcases h with ((rfl | rfl) | rfl) | rfl <;> decide

theorem readExponent_end {rest : Text} (h : EndsNumber rest) (negative : Bool) (whole : Text)
    (fraction : Option Text) :
    readExponent negative whole fraction rest =
      (number ⟨negative, whole, fraction, none⟩, some rest) := by
  cases rest with
  | nil => rfl
  | cons c rest =>
    obtain ⟨-, -, lower, upper⟩ := h c rfl
    simp [readExponent, lower, upper]

theorem readNumber_ofNat {rest : Text} (h : EndsNumber rest) (negative : Bool) (n : Nat) :
    readNumber negative (Text.ofNat n ++ rest) =
      (number ⟨negative, Text.ofNat n, none, none⟩, some rest) := by
  have digits : ∀ c ∈ Text.ofNat n, c.isDigit = true := fun c => Text.isDigit_of_mem_ofNat
  have stop : rest.takeWhile Char.isDigit = [] ∧ rest.dropWhile Char.isDigit = rest := by
    cases rest with
    | nil => exact ⟨rfl, rfl⟩
    | cons c rest => simp [(h c rfl).1]
  have whole : (Text.ofNat n ++ rest).takeWhile Char.isDigit = Text.ofNat n := by
    rw [List.takeWhile_append_of_pos digits, stop.1, List.append_nil]
  have after : (Text.ofNat n ++ rest).dropWhile Char.isDigit = rest := by
    rw [List.dropWhile_append_of_pos digits, stop.2]
  have plain : ¬ ((Text.ofNat n).head? = some '0' ∧ (Text.ofNat n).length ≠ 1) := by
    rintro ⟨zero, long⟩
    obtain rfl := Text.eq_zero_of_head?_ofNat zero
    exact long rfl
  have filled : (Text.ofNat n).isEmpty = false := by
    simpa using Text.ofNat_ne_nil n
  simp only [readNumber, whole, after, filled, if_neg plain, Bool.false_eq_true, if_false]
  cases rest with
  | nil => exact readExponent_end h negative _ none
  | cons c rest =>
    simp only [if_neg (h c rfl).2.1]
    exact readExponent_end h negative _ none

theorem readValue_blanks {fuel : Nat} {blanks : Text} (h : ∀ c ∈ blanks, isBlank c) (t : Text) :
    readValue fuel (blanks ++ t) = readValue fuel t := by
  cases fuel with
  | zero => rfl
  | succ fuel => rw [readValue, readValue, List.dropWhile_append_of_pos h]

theorem endsNumber_close {blanks : Text} (h : ∀ c ∈ blanks, isBlank c) {c : Char}
    (close : c = ']' ∨ c = '\x7d') (rest : Text) : EndsNumber (blanks ++ c :: rest) := by
  cases blanks with
  | nil =>
    intro d hd
    obtain rfl := Option.some.inj hd
    rcases close with rfl | rfl <;> decide
  | cons d blanks => exact endsNumber_blank (h d List.mem_cons_self) _

theorem endsNumber_comma (rest : Text) : EndsNumber (',' :: rest) := by
  intro c hc
  obtain rfl := Option.some.inj hc
  decide

theorem endsNumber_items (l : Layout) (depth : Nat) (items : List Json) {rest : Text}
    (h : EndsNumber rest) : EndsNumber (Json.laidItems l depth false items ++ rest) := by
  cases items with
  | nil => exact h
  | cons v items => exact endsNumber_comma _

theorem endsNumber_members (l : Layout) (depth : Nat) (members : List (Text × Json))
    {rest : Text} (h : EndsNumber rest) :
    EndsNumber (Json.laidMembers l depth false members ++ rest) := by
  cases members with
  | nil => exact h
  | cons m members => exact endsNumber_comma _

theorem isBlank_of_isDigit {c : Char} (digit : c.isDigit) : isBlank c = false := by
  rw [Bool.eq_false_iff]
  intro blank
  exact absurd digit (Bool.eq_false_iff.mp (endsNumber_blank blank [] c rfl).1)

theorem laid_head (l : Layout) (depth : Nat) {nest : Nat} {v : Json} (legible : v.Legible nest) :
    ∃ c s, Json.laid l depth v = c :: s ∧ isBlank c = false ∧ c ≠ ']' := by
  cases v with
  | null => exact ⟨_, _, rfl, by decide⟩
  | bool b => cases b <;> exact ⟨_, _, rfl, by decide⟩
  | string t => exact ⟨_, _, rfl, by decide⟩
  | array items => exact ⟨_, _, rfl, by decide⟩
  | object members => exact ⟨_, _, rfl, by decide⟩
  | number n =>
    cases n with
    | negative n => exact legible.elim
    | double x => exact legible.elim
    | natural n =>
      obtain ⟨c, s, text⟩ := List.exists_cons_of_ne_nil (Text.ofNat_ne_nil n.toNat)
      have digit : c.isDigit := Text.isDigit_of_mem_ofNat (by rw [text]; exact List.mem_cons_self)
      refine ⟨c, s, text, isBlank_of_isDigit digit, ?_⟩
      · rintro rfl
        revert digit
        decide

theorem readValue_digit {fuel : Nat} {c : Char} (digit : c.isDigit) (rest : Text) :
    readValue (fuel + 1) (c :: rest) = readNumber false (c :: rest) := by
  have other : c ≠ '\x22' ∧ c ≠ '[' ∧ c ≠ '\x7b' ∧ c ≠ 'n' ∧ c ≠ 't' ∧ c ≠ 'f' ∧ c ≠ '-' := by
    refine ⟨?_, ?_, ?_, ?_, ?_, ?_, ?_⟩
    all_goals
      rintro rfl
      revert digit
      decide
  rw [readValue, List.dropWhile_cons_of_neg (by simp [isBlank_of_isDigit digit])]
  simp [other, digit]

theorem readItems_first {fuel : Nat} {blanks t rest : Text} {c : Char} {v : JsonReading}
    (blank : ∀ c ∈ blanks, isBlank c) (solid : isBlank c = false) (more : c ≠ ']')
    (value : readValue fuel (c :: t) = (v, some rest)) :
    readItems (fuel + 1) true (blanks ++ c :: t) =
      (v :: (readItems fuel false rest).1, (readItems fuel false rest).2) := by
  rw [readItems, List.dropWhile_append_of_pos blank,
    List.dropWhile_cons_of_neg (by simp [solid])]
  simp only [if_neg more, true_or, if_true, value]

theorem readItems_next {fuel : Nat} {t rest : Text} {v : JsonReading}
    (value : readValue fuel t = (v, some rest)) :
    readItems (fuel + 1) false (',' :: t) =
      (v :: (readItems fuel false rest).1, (readItems fuel false rest).2) := by
  rw [readItems, List.dropWhile_cons_of_neg (by decide)]
  simp [value]

theorem readMember_start {l : Layout} {fuel : Nat} {k t rest : Text} {v : JsonReading}
    (value : readValue fuel t = (v, some rest)) :
    readMember (fuel + 1) (Json.stringText k ++ ':' :: (l.space ++ t)) =
      ((.ofWritten k, v), some rest) := by
  have text : Json.stringText k ++ ':' :: (l.space ++ t) =
      '\x22' :: (k.flatMap Json.escape ++ '\x22' :: ':' :: (l.space ++ t)) := by
    simp [Json.stringText, Text.quote]
  rw [text, readMember, StringReading.read_written]
  simp only [if_true]
  rw [List.dropWhile_cons_of_neg (by decide)]
  simp only [if_true, readValue_blanks l.isBlank_space, value]

theorem readMembers_first {fuel : Nat} {blanks t rest : Text}
    {m : StringReading × JsonReading} (blank : ∀ c ∈ blanks, isBlank c)
    (member : readMember fuel ('\x22' :: t) = (m, some rest)) :
    readMembers (fuel + 1) true (blanks ++ '\x22' :: t) =
      (m :: (readMembers fuel false rest).1, (readMembers fuel false rest).2) := by
  rw [readMembers, List.dropWhile_append_of_pos blank, List.dropWhile_cons_of_neg (by decide)]
  simp only [true_or, if_true]
  rw [List.dropWhile_cons_of_neg (by decide), member]
  rfl

theorem readMembers_next {fuel : Nat} {blanks t rest : Text}
    {m : StringReading × JsonReading} (blank : ∀ c ∈ blanks, isBlank c)
    (member : readMember fuel ('\x22' :: t) = (m, some rest)) :
    readMembers (fuel + 1) false (',' :: (blanks ++ '\x22' :: t)) =
      (m :: (readMembers fuel false rest).1, (readMembers fuel false rest).2) := by
  rw [readMembers, List.dropWhile_cons_of_neg (by decide)]
  simp only [or_true, if_true, Bool.false_eq_true, if_false]
  rw [List.dropWhile_append_of_pos blank, List.dropWhile_cons_of_neg (by decide), member]
  rfl

mutual
theorem readValue_laid (l : Layout) {nest : Nat} :
    ∀ (fuel depth : Nat) {v : Json} {rest : Text}, v.Legible nest →
      (Json.laid l depth v).length ≤ fuel → EndsNumber rest →
      readValue fuel (Json.laid l depth v ++ rest) = (v.written, some rest)
  | 0, depth, v, rest, legible, fits, _ => by
    obtain ⟨c, s, text, -⟩ := laid_head l depth legible
    simp [text] at fits
  | fuel + 1, _, .null, rest, _, _, _ => by
    rw [readValue]
    rfl
  | fuel + 1, _, .bool b, rest, _, _, _ => by
    cases b <;> rw [readValue] <;> rfl
  | fuel + 1, depth, .string t, rest, _, _, _ => by
    have text : Json.laid l depth (.string t) ++ rest =
        '\x22' :: (t.flatMap Json.escape ++ '\x22' :: rest) := by
      simp [Json.laid, Json.stringText, Text.quote]
    rw [text, readValue, List.dropWhile_cons_of_neg (by decide)]
    simp only [if_true, StringReading.read_written]
    rfl
  | fuel + 1, depth, .number n, rest, legible, _, ends => by
    cases n with
    | negative n => exact legible.elim
    | double x => exact legible.elim
    | natural n =>
      obtain ⟨c, s, text⟩ := List.exists_cons_of_ne_nil (Text.ofNat_ne_nil n.toNat)
      have digit : c.isDigit := Text.isDigit_of_mem_ofNat (by rw [text]; exact List.mem_cons_self)
      have value := readNumber_ofNat ends false n.toNat
      rw [text, List.cons_append] at value
      rw [Json.laid, JsonNumber.text, text, List.cons_append, readValue_digit digit, value, ← text]
      rfl
  | fuel + 1, depth, .array items, rest, legible, fits, _ => by
    obtain _ | nest := nest
    · exact legible.elim
    · have blank := l.isBlank_beforeEnd depth items.isEmpty
      simp only [Json.laid, List.length_append, List.length_cons] at fits
      have items := readItems_laid l rest blank fuel (depth + 1) true legible (by omega)
      rw [Json.laid, List.append_assoc, List.cons_append, List.append_assoc, readValue,
        List.dropWhile_cons_of_neg (by decide)]
      simp only [List.cons_append, List.nil_append, items]
      rfl
  | fuel + 1, depth, .object members, rest, legible, fits, _ => by
    obtain _ | nest := nest
    · exact legible.elim
    · have blank := l.isBlank_beforeEnd depth members.isEmpty
      simp only [Json.laid, List.length_append, List.length_cons] at fits
      have members :=
        readMembers_laid l rest blank fuel (depth + 1) true legible.2 (by omega)
      rw [Json.laid, List.append_assoc, List.cons_append, List.append_assoc, readValue,
        List.dropWhile_cons_of_neg (by decide)]
      simp only [List.cons_append, List.nil_append, members]
      rfl
theorem readItems_laid (l : Layout) {nest : Nat} {close : Text} (rest : Text)
    (blank : ∀ c ∈ close, isBlank c) :
    ∀ (fuel depth : Nat) (first : Bool) {items : List Json}, Json.LegibleItems nest items →
      (Json.laidItems l depth first items).length < fuel →
      readItems fuel first (Json.laidItems l depth first items ++ (close ++ ']' :: rest)) =
        (Json.writtenItems items, none, some rest)
  | 0, _, _, _, _, fits => absurd fits (Nat.not_lt_zero _)
  | fuel + 1, _, first, [], _, _ => by
    rw [readItems, Json.laidItems, List.nil_append, List.dropWhile_append_of_pos blank]
    rfl
  | fuel + 1, depth, first, v :: items, legible, fits => by
    obtain ⟨here, further⟩ := legible
    obtain ⟨c, s, text, solid, more⟩ := laid_head l depth here
    simp only [Json.laidItems, List.length_append, text, List.length_cons] at fits
    have ends : EndsNumber (Json.laidItems l depth false items ++ (close ++ ']' :: rest)) :=
      endsNumber_items l depth items (endsNumber_close blank (.inl rfl) rest)
    have value := readValue_laid l fuel depth here (by rw [text, List.length_cons]; omega) ends
    have others := readItems_laid l rest blank fuel depth false further (by omega)
    rw [Json.laidItems, Json.writtenItems]
    cases first with
    | true =>
      simp only [if_true, List.nil_append, List.append_assoc]
      rw [text, List.cons_append] at value ⊢
      rw [readItems_first (l.isBlank_line depth) solid more value, others]
    | false =>
      simp only [Bool.false_eq_true, if_false, List.cons_append, List.nil_append,
        List.append_assoc]
      rw [readItems_next (by rw [readValue_blanks (l.isBlank_line depth)]; exact value), others]
theorem readMembers_laid (l : Layout) {nest : Nat} {close : Text} (rest : Text)
    (blank : ∀ c ∈ close, isBlank c) :
    ∀ (fuel depth : Nat) (first : Bool) {members : List (Text × Json)},
      Json.LegibleMembers nest members →
      (Json.laidMembers l depth first members).length < fuel →
      readMembers fuel first (Json.laidMembers l depth first members ++ (close ++ '\x7d' :: rest)) =
        (Json.writtenMembers members, none, some rest)
  | 0, _, _, _, _, fits => absurd fits (Nat.not_lt_zero _)
  | fuel + 1, _, first, [], _, _ => by
    rw [readMembers, Json.laidMembers, List.nil_append, List.dropWhile_append_of_pos blank]
    rfl
  | 1, depth, first, (k, v) :: members, legible, fits => by
    simp [Json.laidMembers] at fits
  | fuel + 2, depth, first, (k, v) :: members, legible, fits => by
    obtain ⟨here, further⟩ := legible
    obtain ⟨s, text⟩ : ∃ s, Json.stringText k = '\x22' :: s := ⟨_, rfl⟩
    obtain ⟨c, _, solid, -⟩ := laid_head l depth here
    simp only [Json.laidMembers, List.length_append, List.length_cons, text, solid] at fits
    have ends : EndsNumber (Json.laidMembers l depth false members ++ (close ++ '\x7d' :: rest)) :=
      endsNumber_members l depth members (endsNumber_close blank (.inr rfl) rest)
    have value := readValue_laid l fuel depth here (by rw [solid, List.length_cons]; omega) ends
    have member := readMember_start (l := l) (k := k) value
    have others := readMembers_laid l rest blank (fuel + 1) depth false further (by omega)
    rw [Json.laidMembers, Json.writtenMembers]
    rw [text, List.cons_append] at member
    cases first with
    | true =>
      simp only [if_true, List.nil_append, List.append_assoc, List.cons_append, text]
      rw [readMembers_first (l.isBlank_line depth) member, others]
    | false =>
      simp only [Bool.false_eq_true, if_false, List.cons_append, List.nil_append,
        List.append_assoc, text]
      rw [readMembers_next (l.isBlank_line depth) member, others]
end

theorem ofText_laid (l : Layout) (depth : Nat) {nest : Nat} {v : Json} (legible : v.Legible nest) :
    ofText (Json.laid l depth v) = (v.written, none) := by
  have ends : EndsNumber [] := fun c hc => nomatch hc
  have value := readValue_laid l (3 * (Json.laid l depth v).length + 4) depth legible (by omega) ends
  rw [List.append_nil] at value
  rw [ofText, value]
  rfl

theorem decodeText_laid {α : Type} (use : JsonReading → Except JsonFault α) (l : Layout)
    (depth : Nat) {nest : Nat} {v : Json} (legible : v.Legible nest) :
    decodeText use (Json.laid l depth v) = use v.written := by
  rw [decodeText, ofText_laid l depth legible]
  change use v.written >>= _ = _
  cases use v.written <;> rfl

theorem setMember_append {key : Text} {known : List (Text × Json)} (v : Json)
    (fresh : key ∉ known.map Prod.fst) : Json.setMember key v known = known ++ [(key, v)] := by
  induction known with
  | nil => rfl
  | cons m known ih =>
    simp only [List.map_cons, List.mem_cons, not_or] at fresh
    rw [Json.setMember, if_neg (Ne.symm fresh.1), ih fresh.2]
    rfl

mutual
theorem document_written : ∀ {nest : Nat} {v : Json}, v.Legible nest →
    document nest v.written = .ok v
  | _, .null, _ => rfl
  | _, .bool _, _ => rfl
  | _, .number (.natural n), _ => by
    simp [Json.written, document, JsonNumber.numeral, Numeral.value?_ofNat]
  | _, .string t, _ => by
    rw [Json.written, document, StringReading.text?_ofWritten]
    rfl
  | nest + 1, .array items, legible => by
    rw [Json.written, document, documents_written legible]
    rfl
  | nest + 1, .object members, legible => by
    rw [Json.written, document, memberDocuments_written [] legible.2 legible.1]
    rfl
theorem documents_written : ∀ {nest : Nat} {items : List Json}, Json.LegibleItems nest items →
    documents nest (Json.writtenItems items) = .ok items
  | _, [], _ => rfl
  | _, v :: items, legible => by
    rw [Json.writtenItems, documents, document_written legible.1, documents_written legible.2]
    rfl
theorem memberDocuments_written : ∀ {nest : Nat} (known : List (Text × Json))
    {members : List (Text × Json)}, Json.LegibleMembers nest members →
    (known.map Prod.fst ++ members.map Prod.fst).Nodup →
    memberDocuments nest known (Json.writtenMembers members) = .ok (known ++ members)
  | _, known, [], _, _ => by simp [Json.writtenMembers, memberDocuments]
  | _, known, (k, v) :: members, legible, fresh => by
    rw [List.map_cons] at fresh
    have new : k ∉ known.map Prod.fst := by
      intro old
      exact (List.nodup_append.mp fresh).2.2 k old k List.mem_cons_self rfl
    have later : ((known ++ [(k, v)]).map Prod.fst ++ members.map Prod.fst).Nodup := by
      simpa using fresh
    rw [Json.writtenMembers, memberDocuments, StringReading.text?_ofWritten,
      document_written legible.1]
    change memberDocuments _ (Json.setMember k v known) _ = _
    rw [setMember_append v new, memberDocuments_written _ legible.2 later, List.append_assoc]
    rfl
end

end JsonReading

namespace Json

variable {v : Json}

theorem ofText_laid (l : Layout) (depth : Nat) (legible : v.Legible JsonReading.nestingLimit) :
    ofText (laid l depth v) = .ok v := by
  rw [ofText, JsonReading.decodeText_laid _ l depth legible]
  exact JsonReading.document_written legible

theorem ofText_pretty (legible : v.Legible JsonReading.nestingLimit) : ofText v.pretty = .ok v := by
  rw [pretty, prettyAt_eq_laid]
  exact ofText_laid .pretty 0 legible

end Json

end FormulaMigration
