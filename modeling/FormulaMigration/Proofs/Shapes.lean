import Mathlib.Data.List.Perm.Subperm
import FormulaMigration.Proofs.StructuralErrors

namespace FormulaMigration

namespace Formula

def nodes : Formula → List Formula
  | missing => []
  | node left right op sign grouped =>
    node left right op sign grouped :: (left.nodes ++ right.nodes)
  | leaf => [leaf]

def sign? : Formula → Option Operator
  | operand _ sign | call _ _ sign | node _ _ _ sign _ => sign
  | missing => none

def signs (f : Formula) : List Operator :=
  f.nodes.filterMap sign?

theorem signs_node (left right : Formula) (op sign : Option Operator) (grouped : Bool) :
    (node left right op sign grouped).signs = sign.toList ++ (left.signs ++ right.signs) := by
  rw [signs, nodes, List.filterMap_cons, List.filterMap_append]
  cases sign <;> rfl

theorem signs_operand (value : Text) (sign : Option Operator) :
    (operand value sign).signs = sign.toList := by
  cases sign <;> rfl

theorem signs_call (function a : Text) (sign : Option Operator) :
    (call function a sign).signs = sign.toList := by
  cases sign <;> rfl

theorem signs_missing : missing.signs = [] := rfl

theorem Built.of_mem_nodes {f g : Formula} (h : Built f) (mem : g ∈ f.nodes) : Built g := by
  induction h with
  | operand value sign =>
    obtain rfl := List.mem_singleton.mp mem
    exact .operand value sign
  | call function a sign =>
    obtain rfl := List.mem_singleton.mp mem
    exact .call function a sign
  | node op grouped left right ihl ihr =>
    rcases List.mem_cons.mp mem with rfl | mem
    · exact .node op grouped left right
    · exact (List.mem_append.mp mem).elim ihl ihr
  | right op grouped right ih =>
    rcases List.mem_cons.mp mem with rfl | mem
    · exact .right op grouped right
    · exact ih mem
  | signed unary inner ih =>
    rcases List.mem_cons.mp mem with rfl | mem
    · exact .signed unary inner
    · exact ih (by simpa [nodes] using mem)

section Count

variable {p : Operator}

theorem combine_signs {index : Nat} {op : Operator} {grouped : Bool}
    {operands operands' : List Formula} (h : combine index op grouped operands = .ok operands') :
    (operands'.flatMap signs).count p = (operands.flatMap signs).count p := by
  match operands with
  | [] => cases h
  | [right] =>
    obtain rfl := Except.ok.inj h
    simp [signs_node, signs_missing]
  | right :: left :: rest =>
    obtain rfl := Except.ok.inj h
    simp only [List.flatMap_cons, signs_node, List.count_append, Option.toList_none, List.count_nil]
    omega

theorem reduceWhile_signs {index : Nat} {q : Frame → Bool} {frames frames' : List Frame}
    {operands operands' : List Formula}
    (h : reduceWhile index q frames operands = .ok (operands', frames')) :
    (operands'.flatMap signs).count p = (operands.flatMap signs).count p := by
  induction frames generalizing operands with
  | nil =>
    cases h
    rfl
  | cons frame frames ih =>
    rw [reduceWhile] at h
    split_ifs at h with folds
    · obtain ⟨operands'', hc, hr⟩ := exists_of_bind_eq_ok h
      rw [ih hr, combine_signs hc]
    · cases h
      rfl

theorem count_frames_le {index : Nat} {q : Frame → Bool} {frames frames' : List Frame}
    {operands operands' : List Formula}
    (h : reduceWhile index q frames operands = .ok (operands', frames')) :
    (frames'.filterMap (·.sign)).count p ≤ (frames.filterMap (·.sign)).count p := by
  rw [reduceWhile_frames h]
  exact ((List.dropWhile_sublist q).filterMap _).count_le p

namespace Stacks

def signs (s : Stacks) : List Operator :=
  s.operands.flatMap Formula.signs ++ s.frames.filterMap (·.sign) ++ s.sign.toList

theorem count_signs (operands : List Formula) (frames : List Frame) (sign : Option Operator) :
    (signs ⟨operands, frames, sign⟩).count p = (operands.flatMap Formula.signs).count p +
      (frames.filterMap (·.sign)).count p + sign.toList.count p := by
  rw [signs, List.count_append, List.count_append]

theorem count_frame (op : Operator) (sign : Option Operator) (frames : List Frame) :
    ((⟨op, sign⟩ :: frames : List Frame).filterMap (·.sign)).count p =
      sign.toList.count p + (frames.filterMap (·.sign)).count p := by
  cases sign with
  | none => simp
  | some sign =>
    change ([sign] ++ frames.filterMap (·.sign)).count p = _
    exact List.count_append

variable {s s' : Stacks}

theorem close_signs {index : Nat} (h : s.close index = .ok s') :
    s'.signs.count p ≤ s.signs.count p := by
  obtain ⟨operands, sign, frames, reduced, closed⟩ := close_ok h
  have folded := reduceWhile_signs (p := p) reduced
  have kept := count_frames_le (p := p) reduced
  rw [count_frame] at kept
  rw [count_signs s.operands, ← folded]
  rcases closed with ⟨rfl, rfl⟩ | ⟨op, inner, rest, rfl, rfl, rfl⟩
  · simp only [count_signs, Option.toList_none, List.count_nil] at kept ⊢
    omega
  · -- The sign of the group goes from its frame onto what the group holds.
    simp only [count_signs, List.flatMap_cons, signs_node, signs_missing, List.count_append,
      Option.toList_none, List.append_nil, List.count_nil] at kept ⊢
    omega

theorem pushOperator_signs {index : Nat} {op : Operator} (h : s.pushOperator index op = .ok s') :
    s'.signs.count p ≤ s.signs.count p := by
  obtain ⟨operands, frames, reduced, rfl⟩ := pushOperator_ok h
  have folded := reduceWhile_signs (p := p) reduced
  have kept := count_frames_le (p := p) reduced
  rw [count_signs s.operands, count_signs, count_frame, folded]
  simp only [Option.toList_none, List.count_nil]
  omega

theorem read_signs {l : Lexeme} (unsigned : Unsigned [l]) (h : s.read l = .ok s') :
    s'.signs.count p ≤ s.signs.count p := by
  cases l with
  | operand start t =>
    obtain ⟨-, rfl⟩ := readOperand_ok h
    rw [count_signs s.operands, count_signs, List.flatMap_cons, signs_operand, List.count_append]
    simp only [Option.toList_none, List.count_nil]
    omega
  | operator start op =>
    cases readOperator_ok h with
    | sign unary first => exact absurd first (unsigned start op List.mem_cons_self unary)
    | opens =>
      rw [count_signs s.operands, count_signs, count_frame]
      simp only [Option.toList_none, List.count_nil]
      omega
    | closes group closed => exact close_signs closed
    | joins opens closes later pushed => exact pushOperator_signs pushed
  | arguments opening closing a =>
    obtain ⟨name, sign, rest, function, -, named, rfl⟩ := readArguments_ok h
    rw [count_signs s.operands, count_signs, named, List.flatMap_cons, List.flatMap_cons,
      signs_operand, signs_call]
    exact Nat.add_le_add_left (Nat.zero_le _) _
  | unclosed opening => cases h

theorem run_signs {ls : List Lexeme} (unsigned : Unsigned ls) (run : ls.foldlM read s = .ok s') :
    s'.signs.count p ≤ s.signs.count p := by
  refine foldlM_invariant (P := fun s' => s'.signs.count p ≤ s.signs.count p) ?_ run (Nat.le_refl _)
  intro l mem s'' s' here below
  refine Nat.le_trans (read_signs ?_ here) below
  intro start op first
  obtain rfl := List.mem_singleton.mp first
  exact unsigned start op mem

theorem finish_signs {index : Nat} {f : Formula} (h : s.finish index = .ok f) :
    f.signs.count p ≤ s.signs.count p := by
  have folded := reduceWhile_signs (p := p) (finish_ok h)
  rw [List.flatMap_singleton] at folded
  rw [count_signs s.operands, folded]
  omega

end Stacks

end Count

theorem exists_signs_subperm {t : Text} {f : Formula} (h : ofText t = .ok f) :
    ∃ first : Option Operator, f.signs.Subperm first.toList ∧
      ∀ sign ∈ first, sign.isUnary ∧ Operator.next? t 0 = some (0, sign) := by
  obtain ⟨s, run, finished⟩ := exists_of_bind_eq_ok h
  rcases Lexeme.signed_or_unsigned t with
    ⟨sign, ls, unary, first, cut, unsigned⟩ | ⟨unsigned, -⟩
  · rw [cut, List.foldlM_cons] at run
    obtain ⟨s', read, run⟩ := exists_of_bind_eq_ok run
    obtain rfl := Except.ok.inj ((read_sign unary).symm.trans read)
    refine ⟨some sign, List.subperm_iff_count.mpr fun p => ?_, ?_⟩
    · exact Nat.le_trans (Stacks.finish_signs finished) (Stacks.run_signs unsigned run)
    · rintro sign' ⟨⟩
      exact ⟨unary, Operator.next?_of_at? (l := []) first⟩
  · refine ⟨none, List.subperm_iff_count.mpr fun p => ?_, by simp⟩
    exact Nat.le_trans (Stacks.finish_signs finished) (Stacks.run_signs unsigned run)

structure WellShaped (t : Text) (f : Formula) : Prop where
  shapes : ∀ left right op sign grouped, node left right op sign grouped ∈ f.nodes →
    (right.isPresent ∧ op.isSome ∧ sign = none) ∨
      (left.isPresent ∧ sign.isSome ∧ right = missing ∧ op = none ∧ grouped = false)
  single : (f.nodes.filter (·.sign?.isSome)).length ≤ 1
  leading : ∀ g ∈ f.nodes, ∀ sign ∈ g.sign?,
    sign.isUnary ∧ Operator.next? t 0 = some (0, sign)

theorem length_filter_sign? (f : Formula) :
    (f.nodes.filter (·.sign?.isSome)).length = f.signs.length := by
  rw [signs, List.length_filterMap_eq_countP, List.countP_eq_length_filter]

/-- Whatever is missing, astray or left open in a text, a node of its formula joins two sides (the
left of which may be missing), or puts the sign of the text in front of a group. -/
theorem wellShaped_ofText {t : Text} {f : Formula} (h : ofText t = .ok f) : WellShaped t f := by
  obtain ⟨ts, -, built, -⟩ := exists_reads h
  obtain ⟨first, signs, leading⟩ := exists_signs_subperm h
  constructor
  case shapes =>
    intro left right op sign grouped mem
    cases built.of_mem_nodes mem with
    | node op grouped builtLeft builtRight => exact .inl ⟨builtRight.isPresent, rfl, rfl⟩
    | right op grouped builtRight => exact .inl ⟨builtRight.isPresent, rfl, rfl⟩
    | signed unary inner => exact .inr ⟨inner.isPresent, rfl, rfl, rfl, rfl⟩
  case single =>
    rw [length_filter_sign?]
    refine Nat.le_trans signs.length_le ?_
    cases first <;> simp
  case leading =>
    intro g mem sign signed
    have carried : sign ∈ f.signs := List.mem_filterMap.mpr ⟨g, mem, signed⟩
    exact leading sign (by simpa using signs.subset carried)

theorem wellShaped_ofText_group :
    ∃ f, ofText "-((*a)+abs(b))/(2".toList = .ok f ∧
      WellShaped "-((*a)+abs(b))/(2".toList f ∧ f.signs = [.minus] :=
  ⟨_, rfl, wellShaped_ofText rfl, rfl⟩

end Formula

end FormulaMigration
