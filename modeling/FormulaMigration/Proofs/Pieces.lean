import FormulaMigration.Proofs.OpenFrames

namespace FormulaMigration

namespace Text

inductive Spaced : List Text → Text → Prop
  | nil {w : Text} (blank : ∀ c ∈ w, isWhiteSpace c) : Spaced [] w
  | cons {w t : Text} {us : List Text} (blank : ∀ c ∈ w, isWhiteSpace c) (u : Text)
      (tail : Spaced us t) : Spaced (u :: us) (w ++ (u ++ t))

variable {s t w : Text} {us vs : List Text}

theorem Spaced.blank_append (blank : ∀ c ∈ w, isWhiteSpace c) (h : Spaced us t) :
    Spaced us (w ++ t) := by
  cases h with
  | nil blank' => exact .nil (List.forall_mem_append.mpr ⟨blank, blank'⟩)
  | cons blank' u tail =>
    rw [← List.append_assoc]
    exact .cons (List.forall_mem_append.mpr ⟨blank, blank'⟩) u tail

theorem Spaced.append (hs : Spaced us s) (ht : Spaced vs t) : Spaced (us ++ vs) (s ++ t) := by
  induction hs with
  | nil blank => exact ht.blank_append blank
  | cons blank u tail ih =>
    rw [List.append_assoc, List.append_assoc]
    exact .cons blank u ih

theorem spaced_nil : Spaced [] [] :=
  .nil (by simp)

theorem spaced_blank : Spaced [] [' '] :=
  .nil (by simp [isWhiteSpace])

theorem spaced_singleton (u : Text) : Spaced [u] u := by
  have single : Spaced [u] ([] ++ (u ++ [])) := .cons (by simp) u spaced_nil
  rwa [List.append_nil] at single

theorem Spaced.filter_eq (h : Spaced us t) :
    t.filter (!isWhiteSpace ·) = us.flatten.filter (!isWhiteSpace ·) := by
  have none {w : Text} (blank : ∀ c ∈ w, isWhiteSpace c) : w.filter (!isWhiteSpace ·) = [] := by
    simpa [List.filter_eq_nil_iff] using blank
  induction h with
  | nil blank => exact none blank
  | cons blank u tail ih =>
    rw [List.filter_append, none blank, List.nil_append, List.filter_append, ih, List.flatten_cons,
      List.filter_append]

end Text

namespace Script

inductive Piece
  | word (t : Text)
  | mark (t : Text)
  | enclosed (t : Text)
deriving DecidableEq

def Piece.text : Piece → Text
  | word t | mark t => t
  | enclosed t => '(' :: (t ++ [')'])

end Script

open Script (Piece)

def Token.piece : Token → Piece
  | operand value => .word value
  | operator op => .mark op.symbol
  | arguments a => .enclosed a

theorem Reads.spaced {named : Bool} {before t : Text} {ts : List Token}
    (h : Reads named before t ts) : Text.Spaced (ts.map (·.piece.text)) t := by
  have inGap (gap : Text) : Text.Spaced ((Token.ofGap gap).map (·.piece.text)) gap := by
    unfold Token.ofGap
    split_ifs with filled
    · obtain ⟨w, w', whole, blank, blank'⟩ := gap.exists_trim
      have spaced := Text.Spaced.cons blank gap.trim (.nil blank')
      rwa [← whole] at spaced
    · apply Text.Spaced.nil
      intro c hc
      simp only [Lexeme.isOperand, List.any_eq_true, not_exists, not_and] at filled
      exact isWhiteSpace_of_isBlank (by simpa using filled c hc)
  induction h with
  | last absent => exact inGap _
  | @operator named before gap rest op ts absent first uncalled tail ih =>
    rw [List.map_append, List.map_cons]
    exact (inGap gap).append ((Text.spaced_singleton op.symbol).append ih)
  | @call named before gap a rest ts absent called matching tail ih =>
    have whole : '(' :: (a ++ ')' :: rest) = '(' :: (a ++ [')']) ++ rest := by simp
    rw [List.map_append, List.map_cons, whole]
    exact (inGap gap).append ((Text.spaced_singleton _).append ih)

namespace Formula

variable {α β : Type}

def marksBefore (left right : Formula) (sign : Option Operator) (grouped : Bool) : List Operator :=
  (if grouped then [.openGroup] else []) ++
    if left.isPresent && right.isPresent then [] else sign.toList

def marksBetween (left right : Formula) (operator : Option Operator) : List Operator :=
  if left.isPresent && right.isPresent then operator.toList else []

def marksAfter (grouped : Bool) : List Operator :=
  if grouped then [.closeGroup] else []

def laid (leaf : Formula → List α) (mark : Operator → α) : Formula → List α
  | missing => []
  | node left right operator sign grouped =>
    (marksBefore left right sign grouped).map mark ++ left.laid leaf mark ++
      (marksBetween left right operator).map mark ++ right.laid leaf mark ++
      (marksAfter grouped).map mark
  | f => leaf f

def marks (f : Formula) : List Operator :=
  f.laid (fun _ => []) id

variable {leaf : Formula → List α} {mark : Operator → α} {f : Formula}

theorem mem_laid {x : α} :
    x ∈ f.laid leaf mark ↔ (∃ g ∈ f.leaves, x ∈ leaf g) ∨ ∃ op ∈ f.marks, mark op = x := by
  induction f with
  | missing => simp [laid, leaves, marks]
  | operand value sign => simp [laid, leaves, marks]
  | call function a sign => simp [laid, leaves, marks]
  | node left right operator sign grouped ihl ihr =>
    simp only [laid, leaves, marks, List.mem_append, List.mem_map, ihl, ihr, id]
    grind

theorem filterMap_laid {p : α → Option β} (free : ∀ op, p (mark op) = none) :
    (f.laid leaf mark).filterMap p = f.leaves.flatMap fun g => (leaf g).filterMap p := by
  have none (ops : List Operator) : (ops.map mark).filterMap p = [] := by
    simp [free]
  induction f with
  | missing => rfl
  | operand value sign => simp [laid, leaves]
  | call function a sign => simp [laid, leaves]
  | node left right operator sign grouped ihl ihr =>
    simp [laid, leaves, none, ihl, ihr]

theorem map_laid {leaf' : Formula → List β} {mark' : Operator → β} {r : β → α}
    (leaves : ∀ g ∈ f.leaves, (leaf' g).map r = leaf g)
    (marks : ∀ op ∈ f.marks, r (mark' op) = mark op) :
    (f.laid leaf' mark').map r = f.laid leaf mark := by
  have same {ops : List Operator} (h : ∀ op ∈ ops, r (mark' op) = mark op) :
      (ops.map mark').map r = ops.map mark := by
    rw [List.map_map]
    exact List.map_congr_left h
  induction f with
  | missing => rfl
  | operand value sign => exact leaves _ List.mem_cons_self
  | call function a sign => exact leaves _ List.mem_cons_self
  | node left right operator sign grouped ihl ihr =>
    simp only [Formula.leaves, List.mem_append] at leaves
    simp only [Formula.marks, laid, List.map_id, List.mem_append] at marks
    simp only [laid, List.map_append]
    rw [ihl (fun g h => leaves g (.inl h)) fun op h => marks op (by grind [Formula.marks]),
      ihr (fun g h => leaves g (.inr h)) fun op h => marks op (by grind [Formula.marks]),
      same fun op h => marks op (by grind), same fun op h => marks op (by grind),
      same fun op h => marks op (by grind)]

def leafPieces : Formula → List Piece
  | operand value sign =>
    sign.toList.map (.mark ·.token) ++ [.word (Literal.ofOperand value)]
  | call function a sign =>
    sign.toList.map (.mark ·.token) ++ [.word function, .enclosed
      (Script.separate (Script.argumentsFrom Script.nested function 0 (Arguments.ofText a))).text]
  | _ => []

def pieces (f : Formula) : List Piece :=
  f.laid leafPieces (.mark ·.token)

theorem spaced_sign (sign : Option Operator) :
    Text.Spaced ((sign.toList.map (Piece.mark ·.token)).map Piece.text)
      (Script.signToken sign) := by
  cases sign with
  | none => exact Text.spaced_nil
  | some op => exact Text.spaced_singleton op.token

theorem pieces_operand (value : Text) (sign : Option Operator) :
    (operand value sign).pieces =
      sign.toList.map (Piece.mark ·.token) ++ [.word (Literal.ofOperand value)] := rfl

theorem pieces_call (function a : Text) (sign : Option Operator) :
    (call function a sign).pieces =
      sign.toList.map (Piece.mark ·.token) ++ [.word function, .enclosed
        (Script.separate (Script.argumentsFrom Script.nested function 0
          (Arguments.ofText a))).text] := rfl

theorem pieces_grouped (left right : Formula) (operator sign : Option Operator) :
    (node left right operator sign true).pieces = .mark ['('] ::
      ((node left right operator sign false).pieces ++ [.mark [')']]) := by
  have opens : Operator.openGroup.token = ['('] := rfl
  have closes : Operator.closeGroup.token = [')'] := rfl
  simp [pieces, laid, marksBefore, marksAfter, opens, closes]

theorem pieces_both {left right : Formula} (hl : left.isPresent = true)
    (hr : right.isPresent = true) (op : Operator) :
    (node left right (some op) none false).pieces =
      left.pieces ++ .mark op.token :: right.pieces := by
  simp [pieces, laid, marksBefore, marksBetween, marksAfter, hl, hr]

theorem pieces_right (right : Formula) (op : Operator) :
    (node missing right (some op) none false).pieces = right.pieces := by
  simp [pieces, laid, marksBefore, marksBetween, marksAfter, isPresent]

theorem pieces_signed (left : Formula) (sign : Operator) :
    (node left missing none (some sign) false).pieces = .mark sign.token :: left.pieces := by
  simp [pieces, laid, marksBefore, marksBetween, marksAfter, isPresent]

theorem spaced_pieces {f : Formula} (built : Built f) :
    Text.Spaced (f.pieces.map Piece.text) (Script.ofFormula f).text := by
  change Text.Spaced _ (Script.ofFormulaWith Script.nested f).text
  have enclose {left right : Formula} {op : Option Operator} {s : Script} (filled : s.tokens ≠ [])
      (grouped : Bool)
      (h : Text.Spaced ((node left right op none false).pieces.map Piece.text) s.text) :
      Text.Spaced ((node left right op none grouped).pieces.map Piece.text)
        (s.enclosed grouped).text := by
    cases grouped with
    | false => exact h
    | true =>
      rw [Script.text_enclosed filled, ← List.singleton_append, pieces_grouped, List.map_cons,
        List.map_append]
      exact (Text.spaced_singleton ['(']).append (h.append (Text.spaced_singleton [')']))
  induction built with
  | operand value sign =>
    rw [pieces_operand, List.map_append]
    exact (spaced_sign sign).append (Text.spaced_singleton _)
  | call function a sign =>
    rw [pieces_call, List.map_append]
    have body := (Text.spaced_singleton function).append (Text.spaced_singleton
      (Piece.enclosed (Script.separate (Script.argumentsFrom Script.nested function 0
        (Arguments.ofText a))).text).text)
    have whole := (spaced_sign sign).append body
    simpa [Script.ofFormulaWith, Script.call, Script.text, Piece.text, Text.join] using whole
  | @node f g op grouped left right ihl ihr =>
    have filledLeft := left.tokens_ne_nil Script.nested
    have filledRight := right.tokens_ne_nil Script.nested
    have joined : Text.Spaced ((node f g (some op) none false).pieces.map Piece.text)
        (Text.join [' '] ((Script.ofFormulaWith Script.nested f).tokens ++
          op.token :: (Script.ofFormulaWith Script.nested g).tokens)) := by
      rw [Script.join_append filledLeft (List.cons_ne_nil _ _), Script.join_cons _ _ filledRight,
        List.append_assoc, List.append_assoc, pieces_both left.isPresent right.isPresent,
        List.map_append]
      exact ihl.append (Text.spaced_blank.append
        ((Text.spaced_singleton op.token).append (Text.spaced_blank.append ihr)))
    rw [Script.ofFormulaWith_node _ left.isPresent right.isPresent op grouped rfl rfl]
    exact enclose (s := ⟨_, (Script.ofFormulaWith Script.nested f).issues ++
      (Script.ofFormulaWith Script.nested g).issues⟩)
      (List.append_ne_nil_of_left_ne_nil filledLeft _) grouped joined
  | @right g op grouped right ih =>
    rw [Script.ofFormulaWith_right]
    apply enclose (right.tokens_ne_nil Script.nested) grouped
    rwa [pieces_right]
  | @signed f sign unary inner ih =>
    have signed := Script.ofFormulaWith_withSign Script.nested f (some sign)
    rw [Grammar.withSign] at signed
    rw [signed, Script.text_signed (inner.tokens_ne_nil Script.nested), pieces_signed]
    exact (Text.spaced_singleton sign.token).append ih

end Formula

end FormulaMigration
