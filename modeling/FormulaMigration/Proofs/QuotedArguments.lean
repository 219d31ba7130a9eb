import FormulaMigration.Proofs.Pieces

namespace FormulaMigration

open Script (Piece)

theorem ne_of_scriptCall? {name function : Text} (h : scriptCall? name = some function) :
    function ≠ name := by
  obtain ⟨l, l', table, -⟩ := List.lookup_eq_some_iff.mp h
  have renamed : functionTable.all (fun row => row.2 != row.1) := by decide
  simpa using List.all_eq_true.mp renamed (name, function) (by simp [table])

namespace Operator

theorem symbol_eq_token {op : Operator} (h : op ≠ power) : op.symbol = op.token := by
  cases op
  case power => exact absurd rfl h
  all_goals rfl

theorem symbol_ne_token_power (op : Operator) : op.symbol ≠ power.token := by
  cases op <;> decide

theorem token_ne_symbol_power (op : Operator) : op.token ≠ power.symbol := by
  cases op <;> decide

theorem symbol_injective : Function.Injective symbol := by
  have found (op : Operator) : all.find? (·.symbol == op.symbol) = some op := by cases op <;> rfl
  intro op op' same
  have both := found op
  rw [same, found op'] at both
  exact (Option.some.inj both).symm

end Operator

def Script.Piece.word? : Piece → Option Text
  | word t => some t
  | _ => none

namespace Token

theorem piece_injective : Function.Injective piece := by
  intro t u same
  cases t <;> cases u <;> simp only [piece, Piece.word.injEq, Piece.mark.injEq,
    Piece.enclosed.injEq, reduceCtorEq] at same
  · rw [same]
  · rw [Operator.symbol_injective same]
  · rw [same]

def operand? : Token → Option Text
  | operand value => some value
  | _ => none

theorem word?_piece (t : Token) : t.piece.word? = t.operand? := by
  cases t <;> rfl

theorem words_operand (value : Text) (sign : Option Operator) :
    (Formula.operand value sign).leafPieces.filterMap Piece.word? = [Literal.ofOperand value] := by
  cases sign <;> rfl

theorem words_call (function a : Text) (sign : Option Operator) :
    (Formula.call function a sign).leafPieces.filterMap Piece.word? = [function] := by
  cases sign <;> rfl

theorem Leaves.literal {ts : List Token} {gs : List Formula}
    (h : Leaves ts (gs.map Formula.unsigned))
    (same : ts.filterMap operand? =
      gs.flatMap fun g => g.leafPieces.filterMap Piece.word?) :
    ∀ g ∈ gs, ∃ value sign, g = .operand value sign ∧ Literal.isScript value := by
  generalize whole : gs.map Formula.unsigned = fs at h
  induction h generalizing gs with
  | nil =>
    rw [List.map_eq_nil_iff.mp whole]
    simp
  | @operand value ts fs alone tail ih =>
    obtain ⟨g, gs, rfl, first, rest⟩ := List.map_eq_cons_iff.mp whole
    cases g <;> cases first
    rw [List.flatMap_cons, words_operand] at same
    obtain ⟨here, same⟩ := List.cons.inj same
    refine List.forall_mem_cons.mpr ⟨⟨value, _, rfl, ?_⟩, ih same rest⟩
    exact Literal.ofOperand_eq_self_iff.mp here.symm
  | @call name function a ts fs next called tail ih =>
    obtain ⟨g, gs, rfl, first, rest⟩ := List.map_eq_cons_iff.mp whole
    cases g <;> cases first
    rw [List.flatMap_cons, words_call] at same
    exact absurd (List.cons.inj same).1.symm (ne_of_scriptCall? called)
  | operator op tail ih => exact ih same whole
  | arguments a tail ih => exact ih same whole

end Token

namespace Formula

def leafTokens : Formula → List Token
  | operand value sign => sign.toList.map .operator ++ [.operand value]
  | call function a sign => sign.toList.map .operator ++ [.operand function, .arguments a]
  | _ => []

/-- The tokens of a text that is written like the script of the formula. -/
def tokens (f : Formula) : List Token :=
  f.laid leafTokens .operator

variable {f : Formula} {ts : List Token}

theorem map_piece_operand {value : Text} {sign : Option Operator}
    (literal : Literal.isScript value) (unraised : ∀ op ∈ sign, op ≠ .power) :
    (operand value sign).leafTokens.map Token.piece = (operand value sign).leafPieces := by
  have same := Literal.ofOperand_eq_self_iff.mpr literal
  cases sign with
  | none => simp [leafTokens, leafPieces, Token.piece, same]
  | some op =>
    have shared := Operator.symbol_eq_token (unraised op rfl)
    simp [leafTokens, leafPieces, Token.piece, same, shared]

theorem map_piece_tokens (leaves : ∀ g ∈ f.leaves, g.leafTokens.map Token.piece = g.leafPieces)
    (unraised : ∀ op ∈ f.marks, op ≠ .power) : f.tokens.map Token.piece = f.pieces := by
  apply map_laid leaves
  intro op hop
  exact congrArg Piece.mark (Operator.symbol_eq_token (unraised op hop))

def Literals (f : Formula) : Prop :=
  ∀ g ∈ f.leaves, ∃ value sign, g = .operand value sign ∧ Literal.isScript value

theorem Literals.mem_pieces (literals : f.Literals) {x : Piece} (h : x ∈ f.pieces) :
    (∃ op : Operator, x = .mark op.token) ∨ ∃ value, x = .word value ∧ Literal.isScript value := by
  rcases mem_laid.mp h with ⟨g, hg, mem⟩ | ⟨op, -, mark⟩
  · obtain ⟨value, sign, rfl, script⟩ := literals g hg
    rw [leafPieces, Literal.ofOperand_eq_self_iff.mpr script] at mem
    rcases List.mem_append.mp mem with mem | mem
    · obtain ⟨op, -, mark⟩ := List.mem_map.mp mem
      exact .inl ⟨op, mark.symm⟩
    · exact .inr ⟨value, List.mem_singleton.mp mem, script⟩
  · exact .inl ⟨op, mark.symm⟩

section Same

variable (same : ts.map Token.piece = f.pieces)

include same

theorem literals_of_map_piece (leaves : Token.Leaves ts (f.leaves.map unsigned)) : f.Literals := by
  have laid : f.pieces.filterMap Piece.word? =
      f.leaves.flatMap fun g => g.leafPieces.filterMap Piece.word? :=
    filterMap_laid fun _ => rfl
  have words : ts.filterMap Token.operand? = f.pieces.filterMap Piece.word? := by
    rw [← same, List.filterMap_map]
    exact List.filterMap_congr fun t _ => (t.word?_piece).symm
  exact leaves.literal (words.trans laid)

theorem unraised_of_map_piece {op : Operator} (h : .mark op.token ∈ f.pieces) : op ≠ .power := by
  rintro rfl
  rw [← same] at h
  obtain ⟨t, -, ht⟩ := List.mem_map.mp h
  cases t with
  | operator op => exact op.symbol_ne_token_power (Piece.mark.inj ht)
  | operand value => cases ht
  | arguments a => cases ht

theorem eq_tokens_of_map_piece (literals : f.Literals) : ts = f.tokens := by
  have unraised {op : Operator} (h : .mark op.token ∈ f.pieces) := unraised_of_map_piece same h
  have whole : f.tokens.map Token.piece = f.pieces := by
    apply map_piece_tokens
    · intro g hg
      obtain ⟨value, sign, rfl, script⟩ := literals g hg
      apply map_piece_operand script
      rintro op ⟨⟩
      apply unraised
      exact mem_laid.mpr (.inl ⟨_, hg, by simp [leafPieces]⟩)
    · intro op hop
      apply unraised
      exact mem_laid.mpr (.inr ⟨op, hop, rfl⟩)
  exact Token.piece_injective.list_map (same.trans whole.symm)

end Same

theorem map_piece_eq_iff (leaves : Token.Leaves ts (f.leaves.map unsigned)) :
    ts.map Token.piece = f.pieces ↔ ts = f.tokens ∧ (∀ a, .arguments a ∉ ts) ∧
      .operator .power ∉ ts ∧ ∀ value, .operand value ∈ ts → Literal.isScript value := by
  constructor
  · intro same
    have literals := literals_of_map_piece same leaves
    have cases {t : Token} (h : t ∈ ts) := literals.mem_pieces (x := t.piece)
      (same ▸ List.mem_map_of_mem h)
    refine ⟨eq_tokens_of_map_piece same literals, ?_, ?_, ?_⟩
    · intro a mem
      rcases cases mem with ⟨op, piece⟩ | ⟨value, piece, -⟩ <;> cases piece
    · intro mem
      rcases cases mem with ⟨op, piece⟩ | ⟨value, piece, -⟩
      · exact op.token_ne_symbol_power (Piece.mark.inj piece).symm
      · cases piece
    · intro value mem
      rcases cases mem with ⟨op, piece⟩ | ⟨value', piece, script⟩
      · cases piece
      · cases piece
        exact script
  · rintro ⟨rfl, uncalled, unraised, literal⟩
    apply map_piece_tokens
    · intro g hg
      have inside {t : Token} (h : t ∈ g.leafTokens) : t ∈ f.tokens :=
        mem_laid.mpr (.inl ⟨g, hg, h⟩)
      cases g with
      | missing => rfl
      | node left right operator sign grouped => rfl
      | operand value sign =>
        apply map_piece_operand
        · exact literal value (inside (by simp [leafTokens]))
        · rintro op ⟨⟩ rfl
          exact unraised (inside (by simp [leafTokens]))
      | call function a sign => exact absurd (inside (by simp [leafTokens])) (uncalled a)
    · rintro op hop rfl
      exact unraised (mem_laid.mpr (.inr ⟨_, hop, rfl⟩))

end Formula

namespace Script

/-- A quoted argument of a call that takes no dice as text is copied, and the copy is the script of
its formula, white space around the pieces aside, only if the formula says in the script what it
says as it stands. -/
theorem argument_quoted {function a : Text} {f : Formula}
    (spelled : takesDiceLiterals function = false) (quoted : a.isQuoted)
    (reading : Formula.ofText a = .ok f) (formula : Text → Script) (position : Nat) :
    argument formula function position a = token a ∧
      ∃ ts, (∀ us, Reads false [] a us ↔ us = ts) ∧
        Text.Spaced (ts.map (·.piece.text)) a ∧
        Text.Spaced (f.pieces.map Piece.text) (ofFormula f).text ∧
        (ts.map Token.piece = f.pieces →
          a.filter (!isWhiteSpace ·) = (ofFormula f).text.filter (!isWhiteSpace ·)) ∧
        (ts.map Token.piece = f.pieces ↔ ts = f.tokens ∧ (∀ x, .arguments x ∉ ts) ∧
          .operator .power ∉ ts ∧ ∀ value, .operand value ∈ ts → Literal.isScript value) := by
  have copied : copied? function position a = some a := by
    rw [copied?, spelled, if_neg Bool.false_ne_true, if_pos quoted]
  obtain ⟨ts, reads, built, leaves⟩ := Formula.exists_reads reading
  have written := Formula.spaced_pieces built
  refine ⟨argument_of_copied copied, ts, fun us => reads.eq_iff, reads.spaced, written, ?_,
    Formula.map_piece_eq_iff leaves⟩
  intro same
  have pieces : ts.map (·.piece.text) = f.pieces.map Piece.text := by
    rw [← same, List.map_map]
    rfl
  rw [reads.spaced.filter_eq, written.filter_eq, pieces]

theorem argument_quoted_literals :
    ∃ f ts, Formula.ofText "\"a\" == $x || 1 < \"b\"".toList = .ok f ∧
      argument nested "iff".toList 0 "\"a\" == $x || 1 < \"b\"".toList =
        token "\"a\" == $x || 1 < \"b\"".toList ∧
      (∀ us, Reads false [] "\"a\" == $x || 1 < \"b\"".toList us ↔ us = ts) ∧
      ts.map Token.piece = f.pieces := by
  have reading : Formula.ofText "\"a\" == $x || 1 < \"b\"".toList = .ok (.node
      (.node (.operand "\"a\"".toList none) (.operand "$x".toList none) (some .equal) none false)
      (.node (.operand ['1'] none) (.operand "\"b\"".toList none) (some .less) none false)
      (some .disjunction) none false) := rfl
  have written : Reads false [] "\"a\" == $x || 1 < \"b\"".toList
      [.operand "\"a\"".toList, .operator .equal, .operand "$x".toList, .operator .disjunction,
        .operand ['1'], .operator .less, .operand "\"b\"".toList] :=
    reads_ofText_iff.mpr rfl
  have spelled : takesDiceLiterals "iff".toList = false := rfl
  obtain ⟨copied, ts, reads, -, -, -, same⟩ := argument_quoted spelled rfl reading nested 0
  refine ⟨_, ts, reading, copied, reads, same.mpr ?_⟩
  rw [← (reads _).mp written]
  refine ⟨rfl, by simp, by simp, ?_⟩
  intro value mem
  simp only [List.mem_cons, Token.operand.injEq, reduceCtorEq, List.not_mem_nil, or_false,
    false_or] at mem
  rcases mem with rfl | rfl | rfl | rfl <;> rfl

theorem argument_quoted_torn :
    Formula.convert? "if(\"a\" == x || abs(y) ^ 2 == \"b\", 1, 2)".toList =
        .ok ⟨"iff(\"a\" == x || abs(y) ^ 2 == \"b\", 1, 2)".toList, []⟩ ∧
      Formula.convert? "\"a\" == x || abs(y) ^ 2 == \"b\"".toList =
        .ok ⟨"\"a\" == \"x\" || Math.abs(\"y\") ** 2 == \"b\"".toList, []⟩ ∧
      ¬ ∀ (function a : Text) (f : Formula) (position : Nat), takesDiceLiterals function = false →
        a.isQuoted → Formula.ofText a = .ok f →
        (argument nested function position a).text.filter (!isWhiteSpace ·) =
          (ofFormula f).text.filter (!isWhiteSpace ·) := by
  refine ⟨rfl, rfl, ?_⟩
  intro agree
  have same := agree "iff".toList "\"a\" == x || abs(y) ^ 2 == \"b\"".toList _ 0 rfl rfl rfl
  revert same
  decide

end Script

end FormulaMigration
