import FormulaMigration.Proofs.Grammar
import FormulaMigration.Proofs.Slices

namespace FormulaMigration

namespace Formula

def ungrouped : Formula → Formula
  | missing => missing
  | operand value sign => operand value sign
  | call function a sign => call function a sign
  | node left right op sign _ => node left.ungrouped right.ungrouped op sign false

end Formula

namespace Grammar

/-- The tree of a chain with its marks: what an operator joins is marked as grouped when only a
group starts in front of it. -/
inductive Marked : (sign : Option Operator) → (inGroup : Bool) → (level : Nat) → List Token →
    Formula → Prop
  | operand {sign : Option Operator} {inGroup : Bool} {value : Text} (h : value ≠ []) :
      Marked sign inGroup 8 [.operand value] (.operand value sign)
  | call {sign : Option Operator} {inGroup : Bool} {name function : Text}
      (h : scriptCall? name = some function) (a : Text) :
      Marked sign inGroup 8 [.operand name, .arguments a] (.call function a sign)
  | group {sign : Option Operator} {inGroup : Bool} {ts : List Token} {f : Formula}
      (h : Marked none true 1 ts f) :
      Marked sign inGroup 8 (.operator .openGroup :: (ts ++ [.operator .closeGroup]))
        (withSign sign f)
  | lift {sign : Option Operator} {inGroup : Bool} {level : Nat} {ts : List Token} {f : Formula}
      (h : Marked sign inGroup (level + 1) ts f) : Marked sign inGroup level ts f
  | node {sign : Option Operator} {inGroup : Bool} {op : Operator} {ts us : List Token}
      {f g : Formula} (left : Marked sign inGroup op.precedence ts f)
      (binary : 0 < op.precedence) (right : Marked none false (op.precedence + 1) us g) :
      Marked sign inGroup op.precedence (ts ++ .operator op :: us)
        (.node f g (some op) none inGroup)

theorem ungrouped_withSign (sign : Option Operator) (f : Formula) :
    (withSign sign f).ungrouped = withSign sign f.ungrouped := by
  cases sign <;> rfl

theorem Tree.exists_marked {sign : Option Operator} {level : Nat} {ts : List Token} {g : Formula}
    (h : Tree sign level ts g) (inGroup : Bool) :
    ∃ f, Marked sign inGroup level ts f ∧ f.ungrouped = g := by
  induction h generalizing inGroup with
  | operand h => exact ⟨_, .operand h, rfl⟩
  | call h a => exact ⟨_, .call h a, rfl⟩
  | group h ih =>
    obtain ⟨f, hf, rfl⟩ := ih true
    exact ⟨_, .group hf, ungrouped_withSign _ f⟩
  | lift h ih =>
    obtain ⟨f, hf, rfl⟩ := ih inGroup
    exact ⟨f, hf.lift, rfl⟩
  | node left binary right ihl ihr =>
    obtain ⟨f, hf, rfl⟩ := ihl inGroup
    obtain ⟨g, hg, rfl⟩ := ihr false
    exact ⟨_, .node hf binary hg, rfl⟩

end Grammar

namespace Formula

open Grammar

def Unsigned (ls : List Lexeme) : Prop :=
  ∀ start op, .operator start op ∈ ls → op.isUnary → start ≠ 0

theorem Unsigned.append {ls ls' : List Lexeme} :
    Unsigned (ls ++ ls') ↔ Unsigned ls ∧ Unsigned ls' := by
  constructor
  · intro h
    exact ⟨fun i op hm => h i op (List.mem_append_left _ hm),
      fun i op hm => h i op (List.mem_append_right _ hm)⟩
  · rintro ⟨h, h'⟩ i op hm
    exact (List.mem_append.mp hm).elim (h i op) (h' i op)

theorem Unsigned.cons {l : Lexeme} {ls : List Lexeme} :
    Unsigned (l :: ls) ↔ Unsigned [l] ∧ Unsigned ls := by
  rw [← List.singleton_append, Unsigned.append]

/-- What is stacked after reading a tree at a level: folding the frames above `frames`, all of that
level at least, leaves the tree on top of `operands`. -/
structure Pending (level : Nat) (operands : List Formula) (frames : List Frame) (f : Formula)
    (s : Stacks) (top : List Frame) : Prop where
  unsigned : s.sign = none
  above : s.frames = top ++ frames
  tight : ∀ frame ∈ top, level ≤ frame.op.precedence
  folds : ∀ index p, (∀ frame ∈ top, p frame = true) →
    reduceWhile index p s.frames s.operands = reduceWhile index p frames (f :: operands)

theorem Pending.lower {level lower : Nat} {operands : List Formula} {frames top : List Frame}
    {f : Formula} {s : Stacks} (h : Pending level operands frames f s top) (hl : lower ≤ level) :
    Pending lower operands frames f s top :=
  ⟨h.unsigned, h.above, fun frame hf => Nat.le_trans hl (h.tight frame hf), h.folds⟩

theorem Pending.done (level : Nat) (operands : List Formula) (frames : List Frame) (f : Formula) :
    Pending level operands frames f ⟨f :: operands, frames, none⟩ [] :=
  ⟨rfl, rfl, by simp, fun _ _ _ => rfl⟩

def Looser (level : Nat) (frames : List Frame) : Prop :=
  ∀ frame ∈ frames.head?, frame.op.precedence < level

theorem reduceWhile_stop {index : Nat} {p : Frame → Bool} {frames : List Frame}
    (h : ∀ frame ∈ frames.head?, p frame = false) (operands : List Formula) :
    reduceWhile index p frames operands = .ok (operands, frames) := by
  cases frames with
  | nil => rfl
  | cons frame frames => simp [reduceWhile, h frame (by simp)]

theorem read_sign {sign : Operator} (unary : sign.isUnary) :
    Stacks.empty.read (.operator 0 sign) = .ok ⟨[], [], some sign⟩ := by
  simp [Stacks.read, Stacks.readOperator, Stacks.empty, unary]

theorem read_operand {start : Nat} {t : Text} (h : t.trim ≠ []) (operands : List Formula)
    (frames : List Frame) (sign : Option Operator) :
    Stacks.read ⟨operands, frames, sign⟩ (.operand start t) =
      .ok ⟨operand t.trim sign :: operands, frames, none⟩ := by
  simp [Stacks.read, Stacks.readOperand, h]

theorem read_arguments {name function : Text} (h : scriptCall? name = some function)
    (opening closing : Nat) (a : Text) (operands : List Formula) (frames : List Frame)
    (sign sign' : Option Operator) :
    Stacks.read ⟨operand name sign :: operands, frames, sign'⟩ (.arguments opening closing a) =
      .ok ⟨call function a sign :: operands, frames, none⟩ := by
  simp [Stacks.read, Stacks.readArguments, h]

theorem read_open (start : Nat) (s : Stacks) :
    s.read (.operator start .openGroup) =
      .ok ⟨s.operands, ⟨.openGroup, s.sign⟩ :: s.frames, none⟩ := rfl

theorem Pending.read_close {operands : List Formula} {frames top : List Frame} {f : Formula}
    {s : Stacks} {sign : Option Operator} (start : Nat)
    (h : Pending 1 operands (⟨.openGroup, sign⟩ :: frames) f s top) :
    s.read (.operator start .closeGroup) = .ok ⟨withSign sign f :: operands, frames, none⟩ := by
  have stop : reduceWhile start (·.op ≠ .openGroup) (⟨.openGroup, sign⟩ :: frames) (f :: operands) =
      .ok (f :: operands, ⟨.openGroup, sign⟩ :: frames) := reduceWhile_stop (by simp) _
  have folded := (h.folds start _ fun frame hf => by
    have := h.tight frame hf
    cases ho : frame.op <;> simp_all [Operator.precedence]).trans stop
  change Stacks.close start s = _
  rw [Stacks.close, folded]
  cases sign <;> rfl

theorem isSign_eq_false {op : Operator} {start : Nat} (unsigned : op.isUnary → start ≠ 0) :
    (op.isUnary && decide (start = 0)) = false := by
  cases unary : op.isUnary <;> simp_all

theorem read_binary {start : Nat} {s : Stacks} {op : Operator} (binary : 0 < op.precedence)
    (unsigned : op.isUnary → start ≠ 0) (hs : s.sign = none) :
    s.read (.operator start op) = s.pushOperator start op := by
  change Stacks.readOperator start op s = _
  rw [Stacks.readOperator, hs, isSign_eq_false unsigned]
  cases op <;> simp_all [Operator.precedence]

theorem Pending.read_binary {start : Nat} {operands : List Formula} {frames top : List Frame}
    {f : Formula} {s : Stacks} {op : Operator} (binary : 0 < op.precedence)
    (unsigned : op.isUnary → start ≠ 0) (h : Pending op.precedence operands frames f s top)
    (loose : Looser op.precedence frames) :
    s.read (.operator start op) = .ok ⟨f :: operands, ⟨op, none⟩ :: frames, none⟩ := by
  have stop : reduceWhile start (fun frame => op.precedence ≤ frame.op.precedence) frames
      (f :: operands) = .ok (f :: operands, frames) :=
    reduceWhile_stop (fun frame hf => by simpa using loose frame hf) _
  have folded := (h.folds start _ fun frame hf => by simpa using h.tight frame hf).trans stop
  rw [Formula.read_binary binary unsigned h.unsigned, Stacks.pushOperator, folded, h.unsigned]
  rfl

theorem Pending.node {operands : List Formula} {frames top : List Frame} {f g : Formula}
    {s : Stacks} {op : Operator}
    (h : Pending (op.precedence + 1) (f :: operands) (⟨op, none⟩ :: frames) g s top) :
    Pending op.precedence operands frames
      (.node f g (some op) none (isInGroup frames)) s (top ++ [⟨op, none⟩]) := by
  refine ⟨h.unsigned, by simp [h.above], fun frame hf => ?_, fun index p hp => ?_⟩
  · rcases List.mem_append.mp hf with hf | hf
    · exact Nat.le_of_succ_le (h.tight frame hf)
    · simp_all
  · rw [h.folds index p fun frame hf => hp frame (List.mem_append_left _ hf)]
    simp [reduceWhile, hp ⟨op, none⟩ (by simp), combine]
    rfl

theorem run_cons {l : Lexeme} {ls : List Lexeme} {s s' : Stacks} {r : Except FormulaError Stacks}
    (h : s.read l = .ok s') (tail : ls.foldlM Stacks.read s' = r) :
    (l :: ls).foldlM Stacks.read s = r := by
  rw [List.foldlM_cons, h]
  exact tail

theorem run_append {ls ls' : List Lexeme} {s s' : Stacks} {r : Except FormulaError Stacks}
    (h : ls.foldlM Stacks.read s = .ok s') (tail : ls'.foldlM Stacks.read s' = r) :
    (ls ++ ls').foldlM Stacks.read s = r := by
  rw [List.foldlM_append, h]
  exact tail

end Formula

namespace Grammar

open Formula

theorem ne_nil_of_scriptCall? {name function : Text} (h : scriptCall? name = some function) :
    name ≠ [] := by
  rintro rfl
  have missing : scriptCall? [] = none := rfl
  cases missing.symm.trans h

theorem Marked.exists_pending {sign : Option Operator} {inGroup : Bool} {level : Nat}
    {ts : List Token} {f : Formula} (h : Marked sign inGroup level ts f) {ls : List Lexeme}
    (tokens : ls.map Lexeme.token? = ts.map some) (unsigned : Unsigned ls)
    (operands : List Formula) {frames : List Frame} (group : isInGroup frames = inGroup)
    (loose : Looser level frames) :
    ∃ s top, ls.foldlM Stacks.read ⟨operands, frames, sign⟩ = .ok s ∧
      Pending level operands frames f s top := by
  induction h generalizing ls operands frames with
  | @operand sign inGroup value h =>
    obtain ⟨l, ls, rfl, hl, hls⟩ := List.map_eq_cons_iff.mp tokens
    obtain ⟨start, t, rfl, rfl⟩ := Lexeme.eq_operand_of_token? hl
    obtain rfl := List.map_eq_nil_iff.mp hls
    refine ⟨_, _, ?_, .done 8 operands frames _⟩
    exact run_cons (read_operand h _ _ _) rfl
  | @call sign inGroup name function h a =>
    obtain ⟨l, ls, rfl, hl, hls⟩ := List.map_eq_cons_iff.mp tokens
    obtain ⟨l', ls', rfl, hl', hls'⟩ := List.map_eq_cons_iff.mp hls
    obtain ⟨start, t, rfl, rfl⟩ := Lexeme.eq_operand_of_token? hl
    obtain ⟨opening, closing, rfl⟩ := Lexeme.eq_arguments_of_token? hl'
    obtain rfl := List.map_eq_nil_iff.mp hls'
    refine ⟨_, _, ?_, .done 8 operands frames _⟩
    apply run_cons (read_operand (ne_nil_of_scriptCall? h) _ _ _)
    exact run_cons (read_arguments h _ _ _ _ _ _ _) rfl
  | @group sign inGroup ts f h ih =>
    simp only [List.map_cons, List.map_append, List.map_nil] at tokens
    obtain ⟨l, ls, rfl, hl, hls⟩ := List.map_eq_cons_iff.mp tokens
    obtain ⟨inner, closing, rfl, hi, hc⟩ := List.map_eq_append_iff.mp hls
    obtain ⟨l', ls', rfl, hl', hls'⟩ := List.map_eq_cons_iff.mp hc
    obtain ⟨start, rfl⟩ := Lexeme.eq_operator_of_token? hl
    obtain ⟨stop, rfl⟩ := Lexeme.eq_operator_of_token? hl'
    obtain rfl := List.map_eq_nil_iff.mp hls'
    have inside := (Unsigned.append.mp (Unsigned.cons.mp unsigned).2).1
    have opened : Looser 1 (⟨.openGroup, sign⟩ :: frames) := by
      simp [Looser, Operator.precedence]
    obtain ⟨s, top, run, pending⟩ := ih hi inside operands rfl opened
    refine ⟨_, _, ?_, .done 8 operands frames _⟩
    apply run_cons (read_open start _)
    exact run_append run (run_cons (pending.read_close stop) rfl)
  | @lift sign inGroup level ts f h ih =>
    obtain ⟨s, top, run, pending⟩ := ih tokens unsigned operands group fun frame hf =>
      Nat.lt_succ_of_lt (loose frame hf)
    exact ⟨s, top, run, pending.lower (Nat.le_succ level)⟩
  | @node sign inGroup op ts us f g left binary right ihl ihr =>
    simp only [List.map_cons, List.map_append] at tokens
    obtain ⟨before, after, rfl, hb, ha⟩ := List.map_eq_append_iff.mp tokens
    obtain ⟨l, ls, rfl, hl, hls⟩ := List.map_eq_cons_iff.mp ha
    obtain ⟨start, rfl⟩ := Lexeme.eq_operator_of_token? hl
    obtain ⟨unsignedLeft, unsignedAfter⟩ := Unsigned.append.mp unsigned
    obtain ⟨unsignedOp, unsignedRight⟩ := Unsigned.cons.mp unsignedAfter
    obtain ⟨s, top, run, pending⟩ := ihl hb unsignedLeft operands group loose
    have push := pending.read_binary binary (unsignedOp start op (by simp)) loose
    have waits : isInGroup (⟨op, none⟩ :: frames) = false := by
      cases op <;> simp_all [isInGroup, Operator.precedence]
    have looser : Looser (op.precedence + 1) (⟨op, none⟩ :: frames) := by simp [Looser]
    obtain ⟨s', top', run', pending'⟩ := ihr hls unsignedRight (f :: operands) waits looser
    subst group
    exact ⟨s', _, run_append run (run_cons push run'), pending'.node⟩

theorem Marked.head {sign : Option Operator} {inGroup : Bool} {level : Nat} {ts : List Token}
    {f : Formula} (h : Marked sign inGroup level ts f) :
    ∃ t us, ts = t :: us ∧ ∀ op, t = .operator op → op = .openGroup := by
  induction h with
  | operand h => exact ⟨_, _, rfl, by simp⟩
  | call h a => exact ⟨_, _, rfl, by simp⟩
  | group h ih => exact ⟨_, _, rfl, by simp⟩
  | lift h ih => exact ih
  | node left binary right ihl ihr =>
    obtain ⟨t, us, rfl, ht⟩ := ihl
    exact ⟨t, _, rfl, ht⟩

end Grammar

namespace Lexeme

theorem operator_notMem_ofGap {start i : Nat} {gap : Text} {op : Operator} :
    .operator i op ∉ ofGap start gap := by
  unfold ofGap
  split_ifs <;> simp

theorem le_of_operator_mem {start i : Nat} {place : Place} {s : Scan} {op : Operator}
    (h : .operator i op ∈ ofScan start place s) : start ≤ i := by
  induction s generalizing start place with
  | last gap =>
    cases place with
    | outside named => exact absurd h operator_notMem_ofGap
    | inside opening depth passed => simp [ofScan] at h
  | step gap op' rest ih =>
    have later {place : Place} (h : .operator i op ∈ ofScan (start + Text.byteLength gap +
        Text.byteLength op'.symbol) place rest) : start ≤ i := by
      have := ih h
      omega
    cases place with
    | outside named =>
      simp only [ofScan, List.mem_append, operator_notMem_ofGap, false_or] at h
      split_ifs at h with called
      · exact later h
      · rcases List.mem_cons.mp h with h | h
        · cases h
          omega
        · exact later h
    | inside opening depth passed =>
      simp only [ofScan] at h
      split_ifs at h with closed
      · exact later (by simpa using h)
      · exact later h

theorem exists_of_operator_zero {t : Text} {op : Operator} (h : .operator 0 op ∈ ofText t) :
    ∃ ls, ofText t = .operator 0 op :: ls ∧ ∀ i op', .operator i op' ∈ ls → i ≠ 0 := by
  unfold ofText at h ⊢
  generalize Scan.ofText t = s at h ⊢
  cases s with
  | last gap => exact absurd h operator_notMem_ofGap
  | step gap op' rest =>
    have later {place : Place} {i : Nat} {op : Operator} (h : .operator i op ∈
        ofScan (0 + Text.byteLength gap + Text.byteLength op'.symbol) place rest) : i ≠ 0 := by
      have := le_of_operator_mem h
      have := op'.byteLength_symbol_pos
      omega
    simp only [ofScan, List.mem_append, operator_notMem_ofGap, false_or] at h
    split_ifs at h with called
    · exact absurd rfl (later h)
    · rcases List.mem_cons.mp h with h | h
      · simp only [operator.injEq] at h
        obtain rfl : gap = [] := Text.eq_nil_of_byteLength (by omega)
        obtain rfl := h.2
        have first : ofScan 0 (.outside false) (.step [] op rest) = .operator 0 op ::
            ofScan (0 + Text.byteLength [] + Text.byteLength op.symbol)
              (.outside (op = .closeGroup && (false || isOperand []))) rest := by
          simp only [ofScan]
          rw [if_neg called]
          rfl
        exact ⟨_, first, fun i op' hm => later hm⟩
      · exact absurd rfl (later h)

theorem eq_step_of_operator_zero {s : Scan} {op : Operator} {ls : List Lexeme}
    (h : ofScan 0 (.outside false) s = .operator 0 op :: ls) : ∃ rest, s = .step [] op rest := by
  cases s with
  | last gap =>
    have mem : .operator 0 op ∈ ofGap 0 gap := by
      rw [ofScan] at h
      rw [h]
      exact List.mem_cons_self
    exact absurd mem operator_notMem_ofGap
  | step gap op' rest =>
    rw [ofScan, ofGap] at h
    by_cases filled : isOperand gap
    · rw [if_pos filled] at h
      cases h
    · simp only [filled, Bool.false_eq_true, if_false, Bool.or_self, Bool.and_false,
        List.nil_append, List.cons.injEq, operator.injEq] at h
      obtain ⟨⟨start, rfl⟩, -⟩ := h
      obtain rfl : gap = [] := Text.eq_nil_of_byteLength (by omega)
      exact ⟨rest, rfl⟩

theorem not_isBlank_of_symbol {op : Operator} {c : Char} {rest : Text}
    (h : op.symbol = c :: rest) : isBlank c = false := by
  cases op <;> simp only [Operator.symbol, List.cons.injEq] at h <;> rw [← h.1] <;> rfl

theorem operator_zero_mem {op : Operator} {t : Text} {ts : List Token} (start : op.symbol <+: t)
    (tokens : (ofText t).map token? = (.operator op :: ts).map some) :
    .operator 0 op ∈ ofText t := by
  have whole := Scan.text_ofText t
  unfold ofText at tokens ⊢
  cases hs : Scan.ofText t with
  | last gap =>
    rw [hs, ofScan] at tokens
    have mem : some (Token.operator op) ∈ (ofGap 0 gap).map token? := tokens ▸ by simp
    obtain ⟨l, hl, he⟩ := List.mem_map.mp mem
    obtain ⟨i, rfl⟩ := Lexeme.eq_operator_of_token? he
    exact absurd hl operator_notMem_ofGap
  | step gap op' rest =>
    rw [hs] at tokens whole
    by_cases filled : isOperand gap
    · simp [ofScan, ofGap, filled, token?] at tokens
    · have blank : ofGap 0 gap = [] := by simp [ofGap, filled]
      simp only [ofScan, blank, filled, Bool.or_self, Bool.and_false, Bool.false_eq_true, if_false,
        List.nil_append, List.map_cons, List.cons.injEq, token?, Option.some.injEq,
        Token.operator.injEq] at tokens ⊢
      obtain ⟨rfl, -⟩ := tokens
      cases gap with
      | nil => simp [Text.byteLength]
      | cons c gap =>
        obtain ⟨d, symbol, hd⟩ := List.exists_cons_of_ne_nil op'.symbol_ne_nil
        simp only [hd, Scan.text, List.cons_append, ← whole, List.cons_prefix_cons] at start
        have plain := not_isBlank_of_symbol hd
        simp_all [isOperand]

end Lexeme

theorem Scan.at?_of_step {t : Text} {op : Operator} {rest : Scan} (h : ofText t = step [] op rest) :
    Operator.at? [] t = some op := by
  cases t with
  | nil => cases h
  | cons c t =>
    rw [ofText, ofTextAfter] at h
    cases first : Operator.at? [] (c :: t) with
    | some op' =>
      rw [first] at h
      cases h
      rfl
    | none =>
      rw [first] at h
      cases hs : ofTextAfter [c] 0 t <;> simp [hs, push] at h

theorem Lexeme.operator_zero_mem_iff {t : Text} {op : Operator} :
    .operator 0 op ∈ ofText t ↔ Operator.at? [] t = some op := by
  constructor
  · intro h
    obtain ⟨ls, first, -⟩ := exists_of_operator_zero h
    obtain ⟨rest, hs⟩ := eq_step_of_operator_zero first
    exact Scan.at?_of_step hs
  · intro h
    cases t with
    | nil => cases op <;> cases h
    | cons c t =>
      rw [ofText, Scan.ofText, Scan.ofTextAfter, h]
      simp [ofScan, isOperand, Text.byteLength]

theorem Lexeme.signed_or_unsigned (t : Text) :
    (∃ sign ls, sign.isUnary ∧ Operator.at? [] t = some sign ∧ ofText t = .operator 0 sign :: ls ∧
      Formula.Unsigned ls) ∨
    Formula.Unsigned (ofText t) ∧ ∀ op, Operator.at? [] t = some op → ¬ op.isUnary := by
  by_cases signed : ∃ sign, Operator.at? [] t = some sign ∧ sign.isUnary
  · obtain ⟨sign, first, unary⟩ := signed
    obtain ⟨ls, cut, later⟩ := exists_of_operator_zero (operator_zero_mem_iff.mpr first)
    exact .inl ⟨sign, ls, unary, first, cut, fun start op mem _ => later start op mem⟩
  · refine .inr ⟨?_, fun op first unary => signed ⟨op, first, unary⟩⟩
    rintro start op mem unary rfl
    exact signed ⟨op, operator_zero_mem_iff.mp mem, unary⟩

namespace Grammar

open Formula

theorem Marked.finish {sign : Option Operator} {ts : List Token} {f : Formula}
    (h : Marked sign false 1 ts f) {ls : List Lexeme}
    (tokens : ls.map Lexeme.token? = ts.map some) (unsigned : Unsigned ls) (index : Nat) :
    (ls.foldlM Stacks.read ⟨[], [], sign⟩ >>= Stacks.finish index) = .ok f := by
  have loose : Looser 1 [] := by simp [Looser]
  obtain ⟨s, top, run, pending⟩ := h.exists_pending tokens unsigned [] rfl loose
  have folded := pending.folds index (fun _ => true) (by simp)
  rw [run]
  change Stacks.finish _ s = _
  rw [Stacks.finish, folded]
  rfl

theorem Marked.ofText_plain {t : Text} {ts : List Token} {f : Formula}
    (h : Marked none false 1 ts f) (reads : Reads false [] t ts) : ofText t = .ok f := by
  have tokens := reads_ofText_iff.mp reads
  apply h.finish tokens
  rintro i op hm unary rfl
  obtain ⟨ls, hls, -⟩ := Lexeme.exists_of_operator_zero hm
  obtain ⟨t, us, rfl, ht⟩ := h.head
  rw [hls, List.map_cons, List.map_cons, List.cons.injEq] at tokens
  obtain rfl := ht op (Option.some.inj tokens.1).symm
  cases unary

theorem Marked.ofText_signed {t : Text} {sign : Operator} {ts : List Token} {f : Formula}
    (h : Marked (some sign) false 1 ts f) (unary : sign.isUnary) (start : sign.symbol <+: t)
    (reads : Reads false [] t (.operator sign :: ts)) : ofText t = .ok f := by
  have tokens := reads_ofText_iff.mp reads
  obtain ⟨ls, hls, later⟩ :=
    Lexeme.exists_of_operator_zero (Lexeme.operator_zero_mem start tokens)
  have rest : ls.map Lexeme.token? = ts.map some := by
    rw [hls, List.map_cons, List.map_cons, List.cons.injEq] at tokens
    exact tokens.2
  rw [ofText, hls, run_cons (read_sign unary) rfl]
  exact h.finish rest (fun i op hm _ => later i op hm) _

theorem WellFormed.ofText_eq {t : Text} {sign : Option Operator} {ts : List Token}
    (h : WellFormed t sign ts) {f : Formula} (marked : Marked sign false 1 ts f) :
    ofText t = .ok f := by
  cases h with
  | plain reads chain => exact marked.ofText_plain reads
  | signed unary start reads chain => exact marked.ofText_signed unary start reads

theorem WellFormed.exists_tree {t : Text} {sign : Option Operator} {ts : List Token}
    (h : WellFormed t sign ts) : ∃ f, Tree sign 1 ts f := by
  cases h with
  | plain reads chain => exact chain.exists_tree none
  | signed unary start reads chain => exact chain.exists_tree (some _)

end Grammar

namespace Formula

open Grammar

/-- A well-formed text is read, and but for the marks of groups its formula is the one tree of its
tokens. -/
theorem ofText_eq_tree {t : Text} {sign : Option Operator} {ts : List Token}
    (h : WellFormed t sign ts) :
    ∃ f, ofText t = .ok f ∧ ∀ g, Tree sign 1 ts g ↔ g = f.ungrouped := by
  obtain ⟨g, tree⟩ := h.exists_tree
  obtain ⟨f, marked, rfl⟩ := tree.exists_marked false
  have reading := h.ofText_eq marked
  refine ⟨f, reading, fun g => ⟨fun other => ?_, fun eq => eq ▸ tree⟩⟩
  obtain ⟨f', marked', rfl⟩ := other.exists_marked false
  have same := reading.symm.trans (h.ofText_eq marked')
  rw [Except.ok.inj same]

theorem ofText_eq_tree_signed :
    ∃ f, ofText "-(a+2)*max(1, b) - c".toList = .ok f ∧ ∀ g, Tree (some .minus) 1
      [.operator .openGroup, .operand ['a'], .operator .plus, .operand ['2'],
        .operator .closeGroup, .operator .times, .operand ['m', 'a', 'x'],
        .arguments ['1', ',', ' ', 'b'], .operator .minus, .operand ['c']] g ↔ g = f.ungrouped := by
  have a : Derives .primary [.operand ['a']] := .operand (by decide)
  have two : Derives .primary [.operand ['2']] := .operand (by decide)
  have c : Derives .primary [.operand ['c']] := .operand (by decide)
  have call : Derives .primary [.operand ['m', 'a', 'x'], .arguments ['1', ',', ' ', 'b']] :=
    .call rfl _
  have sum := @Derives.join _ _ .plus (.single a) (by decide) two
  have product := @Derives.join _ _ .times (.single (.group sum)) (by decide) call
  have difference := @Derives.join _ _ .minus product (by decide) c
  apply ofText_eq_tree
  refine .signed rfl (by decide) (reads_ofText_iff.mpr ?_) difference
  decide

end Formula

end FormulaMigration
