import FormulaMigration.Proofs.Leaves

namespace FormulaMigration

namespace Formula

def collect (ops : Formula → List Operator) (operands : List Formula) (frames : List Frame) :
    List Operator :=
  operands.flatMap ops ++ frames.map (·.op)

structure Tallies (ops : Formula → List Operator) (p : Operator) : Prop where
  missing : (ops missing).count p = 0
  node (left right : Formula) (op : Operator) (grouped : Bool) :
    (ops (node left right (some op) none grouped)).count p =
      (ops left).count p + [op].count p + (ops right).count p

variable {ops : Formula → List Operator} {p : Operator}

theorem count_collect_frame (operands : List Formula) (frame : Frame) (frames : List Frame) :
    (collect ops operands (frame :: frames)).count p =
      (collect ops operands frames).count p + [frame.op].count p := by
  simp only [collect, List.map_cons, List.count_append, List.count_cons, List.count_nil]
  omega

theorem count_collect_operand (f : Formula) (operands : List Formula) (frames : List Frame) :
    (collect ops (f :: operands) frames).count p =
      (ops f).count p + (collect ops operands frames).count p := by
  simp only [collect, List.flatMap_cons, List.count_append]
  omega

namespace Tallies

theorem combine (tallies : Tallies ops p) {index : Nat} {op : Operator} {grouped : Bool}
    {operands operands' : List Formula} (h : combine index op grouped operands = .ok operands')
    (frames : List Frame) :
    (collect ops operands' frames).count p =
      (collect ops operands frames).count p + [op].count p := by
  match operands with
  | [] => cases h
  | [right] =>
    obtain rfl := Except.ok.inj h
    rw [count_collect_operand, count_collect_operand, tallies.node, tallies.missing]
    omega
  | right :: left :: rest =>
    obtain rfl := Except.ok.inj h
    rw [count_collect_operand, count_collect_operand, count_collect_operand, tallies.node]
    omega

theorem reduceWhile (tallies : Tallies ops p) {index : Nat} {q : Frame → Bool}
    {frames frames' : List Frame} {operands operands' : List Formula}
    (h : reduceWhile index q frames operands = .ok (operands', frames')) :
    (collect ops operands' frames').count p = (collect ops operands frames).count p := by
  induction frames generalizing operands with
  | nil =>
    cases h
    rfl
  | cons frame frames ih =>
    rw [Formula.reduceWhile] at h
    split_ifs at h with folds
    · obtain ⟨operands'', hc, hr⟩ := exists_of_bind_eq_ok h
      rw [ih hr, tallies.combine hc, count_collect_frame]
    · cases h
      rfl

theorem close (tallies : Tallies ops p) {index : Nat} {s s' : Stacks} (h : s.close index = .ok s')
    (unsigned : ∀ frame ∈ s.frames, ∀ sign ∈ frame.sign, ∀ f,
      (ops (.node f .missing none (some sign) false)).count p = (ops f).count p) :
    (collect ops s'.operands s'.frames).count p + [Operator.openGroup].count p =
      (collect ops s.operands s.frames).count p := by
  obtain ⟨operands, sign, frames, hr, closed⟩ := Stacks.close_ok h
  have sub : ⟨.openGroup, sign⟩ :: frames ⊆ s.frames := by
    rw [reduceWhile_frames hr]
    exact (List.dropWhile_suffix _).subset
  have same := unsigned _ (sub List.mem_cons_self)
  rw [← tallies.reduceWhile hr]
  rcases closed with ⟨-, rfl⟩ | ⟨op, inner, rest, rfl, rfl, rfl⟩
  · rw [count_collect_frame]
  · rw [count_collect_frame, count_collect_operand, count_collect_operand, same op rfl]

theorem pushOperator (tallies : Tallies ops p) {index : Nat} {op : Operator} {s s' : Stacks}
    (h : s.pushOperator index op = .ok s') :
    (collect ops s'.operands s'.frames).count p =
      (collect ops s.operands s.frames).count p + [op].count p := by
  obtain ⟨operands, frames, hr, rfl⟩ := Stacks.pushOperator_ok h
  rw [← tallies.reduceWhile hr, count_collect_frame]

theorem finish (tallies : Tallies ops p) {index : Nat} {s : Stacks} {f : Formula}
    (h : s.finish index = .ok f) : (ops f).count p = (collect ops s.operands s.frames).count p := by
  rw [← tallies.reduceWhile (Stacks.finish_ok h)]
  simp [collect]

end Tallies

end Formula

end FormulaMigration
