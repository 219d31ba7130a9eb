import FormulaMigration.Formula.Reading
import FormulaMigration.Proofs.Bind

/-!
Reading, step by step: what the stacks are after a lexeme, when reading it does not fail. Everything
that holds along a whole run comes from these.
-/

namespace FormulaMigration

namespace Formula

theorem reduceWhile_frames {index : Nat} {q : Frame → Bool} {frames frames' : List Frame}
    {operands operands' : List Formula}
    (h : reduceWhile index q frames operands = .ok (operands', frames')) :
    frames' = frames.dropWhile q := by
  induction frames generalizing operands with
  | nil =>
    cases h
    rfl
  | cons frame frames ih =>
    rw [reduceWhile] at h
    rw [List.dropWhile_cons]
    split_ifs at h ⊢ with folds
    · obtain ⟨operands'', hc, hr⟩ := exists_of_bind_eq_ok h
      exact ih hr
    · cases h
      rfl

theorem reduceWhile_head {index : Nat} {q : Frame → Bool} {frames frames' : List Frame}
    {operands operands' : List Formula} {frame : Frame}
    (h : reduceWhile index q frames operands = .ok (operands', frame :: frames')) :
    q frame = false := by
  have first := List.head?_dropWhile_not q frames
  rw [← reduceWhile_frames h] at first
  exact first

namespace Stacks

variable {s s' : Stacks}

theorem readOperand_ok {start : Nat} {t : Text} (h : s.readOperand start t = .ok s') :
    t.trim ≠ [] ∧ s' = ⟨operand t.trim s.sign :: s.operands, s.frames, none⟩ := by
  unfold readOperand at h
  split_ifs at h with empty
  cases h
  exact ⟨empty, rfl⟩

theorem readArguments_ok {closing : Nat} {a : Text} (h : s.readArguments closing a = .ok s') :
    ∃ name sign rest function, scriptCall? name = some function ∧
      s.operands = operand name sign :: rest ∧
      s' = ⟨call function a sign :: rest, s.frames, none⟩ := by
  unfold readArguments at h
  split at h
  next name sign rest named =>
    split at h
    next function known =>
      cases h
      exact ⟨name, sign, rest, function, known, named, rfl⟩
    next => cases h
  next => cases h

theorem close_ok {index : Nat} (h : s.close index = .ok s') :
    ∃ operands sign frames,
      reduceWhile index (·.op ≠ .openGroup) s.frames s.operands =
        .ok (operands, ⟨.openGroup, sign⟩ :: frames) ∧
      (sign = none ∧ s' = ⟨operands, frames, none⟩ ∨
        ∃ op inner rest, sign = some op ∧ operands = inner :: rest ∧
          s' = ⟨node inner missing none (some op) false :: rest, frames, none⟩) := by
  obtain ⟨⟨operands, frames⟩, hr, h⟩ := exists_of_bind_eq_ok h
  rcases frames with _ | ⟨⟨op, sign⟩, frames⟩
  · cases h
  obtain rfl : op = .openGroup := by simpa using reduceWhile_head hr
  refine ⟨operands, sign, frames, hr, ?_⟩
  rcases sign with _ | sign
  · cases h
    exact .inl ⟨rfl, rfl⟩
  · rcases operands with _ | ⟨inner, rest⟩
    · cases h
    · cases h
      exact .inr ⟨sign, inner, rest, rfl, rfl, rfl⟩

theorem pushOperator_ok {index : Nat} {op : Operator} (h : s.pushOperator index op = .ok s') :
    ∃ operands frames,
      reduceWhile index (fun frame => op.precedence ≤ frame.op.precedence) s.frames s.operands =
        .ok (operands, frames) ∧
      s' = ⟨operands, ⟨op, s.sign⟩ :: frames, none⟩ := by
  obtain ⟨⟨operands, frames⟩, hr, h⟩ := exists_of_bind_eq_ok h
  cases h
  exact ⟨operands, frames, hr, rfl⟩

inductive Takes (start : Nat) (op : Operator) (s : Stacks) : Stacks → Prop
  | sign (unary : op.isUnary) (first : start = 0) (free : s.sign = none) :
      Takes start op s { s with sign := some op }
  | opens (group : op = .openGroup) :
      Takes start op s ⟨s.operands, ⟨op, s.sign⟩ :: s.frames, none⟩
  | closes {s' : Stacks} (group : op = .closeGroup) (closed : s.close start = .ok s') :
      Takes start op s s'
  | joins {s' : Stacks} (opens : op ≠ .openGroup) (closes : op ≠ .closeGroup)
      (later : op.isUnary → start ≠ 0 ∧ s.sign = none)
      (pushed : s.pushOperator start op = .ok s') : Takes start op s s'

theorem readOperator_ok {start : Nat} {op : Operator} (h : s.readOperator start op = .ok s') :
    Takes start op s s' := by
  unfold readOperator at h
  split_ifs at h with consecutive first opens closes
  · cases h
    simp only [Bool.and_eq_true, decide_eq_true_eq] at first
    have free : s.sign = none := by simpa [first.1] using consecutive
    exact .sign first.1 first.2 free
  · cases h
    exact .opens opens
  · exact .closes closes h
  · refine .joins opens closes (fun unary => ⟨?_, ?_⟩) h
    · simpa [unary] using first
    · simpa [unary] using consecutive

theorem finish_ok {index : Nat} {f : Formula} (h : s.finish index = .ok f) :
    reduceWhile index (fun _ => true) s.frames s.operands = .ok ([f], []) := by
  obtain ⟨⟨operands, frames⟩, hr, h⟩ := exists_of_bind_eq_ok h
  rcases frames with _ | ⟨frame, frames⟩
  · rcases operands with _ | ⟨root, _ | ⟨other, rest⟩⟩
    · cases h
    · cases h
      exact hr
    · cases h
  · cases reduceWhile_head hr

end Stacks

end Formula

end FormulaMigration
