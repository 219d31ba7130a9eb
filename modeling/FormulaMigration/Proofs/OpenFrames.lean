import FormulaMigration.Proofs.Blanks
import FormulaMigration.Proofs.Negation
import FormulaMigration.Proofs.UnmatchedClose

/-!
Groups that are still open at the end of a text. Main statement: either an open group joins two
sides, or all open groups can be closed, and the scripts differ by the parentheses and signs that
go into one of them only.
-/

namespace FormulaMigration

namespace Script

def enclosed (grouped : Bool) (s : Script) : Script :=
  ⟨if grouped then inParentheses s.tokens else s.tokens, s.issues⟩

def signed (sign : Option Operator) (s : Script) : Script :=
  ⟨withSign sign s.tokens, s.issues⟩

theorem withSign_none (ts : List Text) : withSign none ts = ts := by
  cases ts <;> rfl

theorem enclosed_ne_nil {s : Script} (filled : s.tokens ≠ []) (grouped : Bool) :
    (s.enclosed grouped).tokens ≠ [] := by
  cases grouped with
  | false => exact filled
  | true => exact inParentheses_ne_nil filled

theorem text_enclosed {s : Script} (filled : s.tokens ≠ []) :
    (s.enclosed true).text = '(' :: (s.text ++ [')']) :=
  join_inParentheses [' '] filled

theorem text_signed {s : Script} (filled : s.tokens ≠ []) (sign : Option Operator) :
    (s.signed sign).text = signToken sign ++ s.text :=
  join_mapFirst [' '] (signToken sign) filled

theorem ofFormulaWith_right (formula : Text → Script) (f : Formula) (op : Operator)
    (grouped : Bool) :
    ofFormulaWith formula (.node .missing f (some op) none grouped) =
      (ofFormulaWith formula f).enclosed grouped := by
  simp [ofFormulaWith, operatorTokens, Formula.isPresent, empty, withSign_none, enclosed]

theorem ofFormulaWith_withSign (formula : Text → Script) (f : Formula) (sign : Option Operator) :
    ofFormulaWith formula (Grammar.withSign sign f) = (ofFormulaWith formula f).signed sign := by
  cases sign with
  | none => rw [signed, withSign_none, Grammar.withSign]
  | some sign =>
    simp [Grammar.withSign, ofFormulaWith, operatorTokens, Formula.isPresent, empty, signed]

/-- The first script has `parentheses` pairs of parentheses that the other one lacks, and the other
one has `signs` characters of signs that the first one lacks. -/
structure Differs (parentheses signs : Nat) (s s' : Script) : Prop where
  filled : s.tokens ≠ []
  filled' : s'.tokens ≠ []
  opens : s.text.count '(' = s'.text.count '(' + parentheses
  length : s.text.length + signs = s'.text.length + 2 * parentheses
  same : parentheses = 0 → signs = 0 → s = s'

variable {parentheses signs : Nat} {s s' : Script}

theorem Differs.refl (filled : s.tokens ≠ []) : Differs 0 0 s s :=
  ⟨filled, filled, rfl, rfl, fun _ _ => rfl⟩

theorem Differs.text_eq_iff (h : Differs parentheses signs s s') :
    s.text = s'.text ↔ parentheses = 0 ∧ signs = 0 := by
  constructor
  · intro same
    have opens := h.opens
    have length := h.length
    rw [same] at opens length
    omega
  · rintro ⟨even, unsigned⟩
    rw [h.same even unsigned]

theorem Differs.both (h : Differs parentheses signs s s') (grouped : Bool) :
    Differs parentheses signs (s.enclosed grouped) (s'.enclosed grouped) := by
  cases grouped with
  | false => exact h
  | true =>
    have opens := h.opens
    have length := h.length
    refine ⟨enclosed_ne_nil h.filled true, enclosed_ne_nil h.filled' true, ?_, ?_, ?_⟩
    · simp only [text_enclosed h.filled, text_enclosed h.filled', List.count_cons,
        List.count_append]
      omega
    · simp only [text_enclosed h.filled, text_enclosed h.filled', List.length_cons,
        List.length_append]
      omega
    · intro even unsigned
      rw [h.same even unsigned]

theorem Differs.left (h : Differs parentheses signs s s') (grouped : Bool) :
    Differs (parentheses + grouped.toNat) signs (s.enclosed grouped) s' := by
  cases grouped with
  | false => exact h
  | true =>
    have opens := h.opens
    have length := h.length
    refine ⟨enclosed_ne_nil h.filled true, h.filled', ?_, ?_, fun even => nomatch even⟩
    · rw [text_enclosed h.filled]
      simp [opens]
      omega
    · rw [text_enclosed h.filled]
      simp
      omega

theorem Differs.right (h : Differs parentheses signs s s') {sign : Option Operator}
    (unary : ∀ op ∈ sign, op.isUnary) :
    Differs parentheses (signs + (signToken sign).length) s (s'.signed sign) := by
  cases sign with
  | none =>
    rw [signed, withSign_none]
    exact h
  | some op =>
    have opens := h.opens
    have length := h.length
    have token : op.token.count '(' = 0 ∧ 0 < op.token.length := by
      have unary := unary op rfl
      cases op <;> first | exact ⟨rfl, Nat.one_pos⟩ | cases unary
    refine ⟨h.filled, mapFirst_ne_nil h.filled', ?_, ?_, ?_⟩
    · rw [text_signed h.filled', signToken, List.count_append, token.1, Nat.zero_add, opens]
    · rw [text_signed h.filled', signToken, List.length_append]
      omega
    · intro even unsigned
      rw [signToken] at unsigned
      omega

end Script

namespace Formula

open Grammar

def drained : List Frame → Formula → Formula
  | [], f => f
  | frame :: frames, f => drained frames (node missing f (some frame.op) none (isInGroup frames))

def closed : List Frame → Formula → Formula
  | [], f => f
  | frame :: frames, f =>
    closed frames (if frame.op = .openGroup then withSign frame.sign f
      else node missing f (some frame.op) none (isInGroup frames))

theorem reduceWhile_single (index : Nat) (frames : List Frame) (f : Formula) :
    reduceWhile index (fun _ => true) frames [f] = .ok ([drained frames f], []) := by
  induction frames generalizing f with
  | nil => rfl
  | cons frame frames ih => exact ih _

namespace Stacks

theorem read_close_open (start : Nat) {frame : Frame} (h : frame.op = .openGroup)
    (frames : List Frame) (f : Formula) (operands : List Formula) (sign : Option Operator) :
    Stacks.read ⟨f :: operands, frame :: frames, sign⟩ (.operator start .closeGroup) =
      .ok ⟨withSign frame.sign f :: operands, frames, none⟩ := by
  change close start _ = _
  have stop : reduceWhile start (·.op ≠ .openGroup) (frame :: frames) (f :: operands) =
      .ok (f :: operands, frame :: frames) := by
    simp [reduceWhile, h]
  rw [close, stop]
  obtain ⟨op, sign⟩ := frame
  cases sign <;> rfl

theorem read_close_fold {start : Nat} {frames frames' : List Frame}
    {operands operands' : List Formula} {sign : Option Operator}
    (h : reduceWhile start (·.op ≠ .openGroup) frames operands = .ok (operands', frames')) :
    Stacks.read ⟨operands, frames, sign⟩ (.operator start .closeGroup) =
      Stacks.read ⟨operands', frames', none⟩ (.operator start .closeGroup) := by
  have again : reduceWhile start (·.op ≠ .openGroup) frames' operands' =
      .ok (operands', frames') := by
    apply reduceWhile_stop
    intro frame first
    obtain ⟨rest, rfl⟩ := List.head?_eq_some_iff.mp first
    exact reduceWhile_head h
  change close start _ = close start _
  rw [close, close, h, again]

theorem read_close_other (start : Nat) {frame : Frame} (h : frame.op ≠ .openGroup)
    (frames : List Frame) (f : Formula) (sign : Option Operator) :
    Stacks.read ⟨[f], frame :: frames, sign⟩ (.operator start .closeGroup) =
      Stacks.read ⟨[node missing f (some frame.op) none (isInGroup frames)], frames, none⟩
        (.operator start .closeGroup) := by
  change close start _ = close start _
  have folds : reduceWhile start (·.op ≠ .openGroup) (frame :: frames) [f] =
      reduceWhile start (·.op ≠ .openGroup) frames
        [node missing f (some frame.op) none (isInGroup frames)] := by
    rw [reduceWhile, if_pos (by simpa using h)]
    rfl
  rw [close, close, folds]

theorem run_closes {ls : List Lexeme} {frames : List Frame}
    (tokens : ls.map Lexeme.token? = List.replicate (opened frames) (some (.operator .closeGroup)))
    (index : Nat) (f : Formula) (sign : Option Operator) :
    ls.foldlM Stacks.read ⟨[f], frames, sign⟩ >>= Stacks.finish index = .ok (closed frames f) := by
  induction frames generalizing ls f sign with
  | nil =>
    obtain rfl := List.map_eq_nil_iff.mp tokens
    rfl
  | cons frame frames ih =>
    by_cases opens : frame.op = .openGroup
    · rw [opened_cons_open opens, List.replicate_succ] at tokens
      obtain ⟨l, ls, rfl, first, rest⟩ := List.map_eq_cons_iff.mp tokens
      obtain ⟨start, rfl⟩ := Lexeme.eq_operator_of_token? first
      rw [List.foldlM_cons, read_close_open start opens, closed, if_pos opens]
      exact ih rest _ _
    · -- The frame is folded by the next `)`, or at the end when no group is open below it.
      rw [opened_cons_other opens] at tokens
      rw [closed, if_neg opens]
      have rest := ih tokens (node missing f (some frame.op) none (isInGroup frames)) none
      cases ls with
      | nil => exact rest
      | cons l ls =>
        have first : l.token? ∈ (l :: ls).map Lexeme.token? := List.mem_cons_self
        rw [tokens] at first
        obtain ⟨start, rfl⟩ := Lexeme.eq_operator_of_token? (List.eq_of_mem_replicate first)
        rw [List.foldlM_cons, read_close_other start opens, ← List.foldlM_cons]
        exact rest

end Stacks

theorem reduceWhile_all (index : Nat) (q : Frame → Bool) (frames : List Frame)
    (operands : List Formula) :
    reduceWhile index (fun _ => true) frames operands =
      (reduceWhile index q frames operands >>= fun (operands, frames) =>
        reduceWhile index (fun _ => true) frames operands) := by
  induction frames generalizing operands with
  | nil => rfl
  | cons frame frames ih =>
    by_cases folds : q frame
    · rw [reduceWhile, if_pos rfl, reduceWhile, if_pos folds]
      cases combine index frame.op (isInGroup frames) operands with
      | error e => rfl
      | ok operands' => exact ih operands'
    · have stop : reduceWhile index q (frame :: frames) operands =
          .ok (operands, frame :: frames) := by
        rw [reduceWhile, if_neg folds]
      rw [stop]
      rfl

theorem reduceWhile_index {index : Nat} (index' : Nat) {q : Frame → Bool} {frames : List Frame}
    {operands : List Formula} {r : List Formula × List Frame}
    (h : reduceWhile index q frames operands = .ok r) :
    reduceWhile index' q frames operands = .ok r := by
  have same := toOption_reduceWhile index index' q frames operands
  rw [h] at same
  cases there : reduceWhile index' q frames operands with
  | error e =>
    rw [there] at same
    cases same
  | ok r' =>
    rw [there] at same
    rw [Option.some.inj same]

theorem exists_top {index : Nat} {s : Stacks} {f : Formula} (h : s.finish index = .ok f)
    (group : 0 < opened s.frames) :
    ∃ operands frame frames, frame.op = .openGroup ∧
      opened (frame :: frames) = opened s.frames ∧
      reduceWhile index (·.op ≠ .openGroup) s.frames s.operands = .ok (operands, frame :: frames) ∧
      reduceWhile index (fun _ => true) (frame :: frames) operands = .ok ([f], []) := by
  have folded := Stacks.finish_ok h
  rw [reduceWhile_all index (·.op ≠ .openGroup)] at folded
  obtain ⟨⟨operands, frames⟩, top, below⟩ := exists_of_bind_eq_ok folded
  have kept := opened_dropWhile (q := (·.op ≠ .openGroup)) (by simp) s.frames
  rw [← reduceWhile_frames top] at kept
  rcases frames with _ | ⟨frame, frames⟩
  · rw [← kept] at group
    cases group
  · have opens : frame.op = .openGroup := by simpa using reduceWhile_head top
    exact ⟨operands, frame, frames, opens, kept, top, below⟩

theorem Stacks.run_closes_top {index : Nat} {s : Stacks} {operands : List Formula} {frame : Frame}
    {frames : List Frame} (top : reduceWhile index (·.op ≠ .openGroup) s.frames s.operands =
      .ok (operands, frame :: frames)) {ls : List Lexeme} {k : Nat}
    (tokens : ls.map Lexeme.token? = List.replicate (k + 1) (some (.operator .closeGroup))) :
    ls.foldlM Stacks.read s = ls.foldlM Stacks.read ⟨operands, frame :: frames, none⟩ := by
  rw [List.replicate_succ] at tokens
  obtain ⟨l, ls, rfl, first, -⟩ := List.map_eq_cons_iff.mp tokens
  obtain ⟨start, rfl⟩ := Lexeme.eq_operator_of_token? first
  obtain ⟨operands', frames', sign⟩ := s
  rw [List.foldlM_cons, List.foldlM_cons, read_close_fold (reduceWhile_index start top)]

def doubled : List Frame → Nat
  | [] => 0
  | frame :: frames => (frame.op = .openGroup && isInGroup frames).toNat + doubled frames

def signLength : List Frame → Nat
  | [] => 0
  | frame :: frames =>
    (if frame.op = .openGroup then (Script.signToken frame.sign).length else 0) + signLength frames

def SignFree (frames : List Frame) : Prop :=
  ∀ frame ∈ frames, frame.op = .openGroup → frame.sign = none

theorem signLength_eq_zero_iff {frames : List Frame}
    (unary : ∀ frame ∈ frames, ∀ op ∈ frame.sign, op.isUnary) :
    signLength frames = 0 ↔ SignFree frames := by
  induction frames with
  | nil => simp [signLength, SignFree]
  | cons frame frames ih =>
    obtain ⟨first, rest⟩ := List.forall_mem_cons.mp unary
    have alone : (Script.signToken frame.sign).length = 0 ↔ frame.sign = none := by
      cases hs : frame.sign with
      | none => simp [Script.signToken]
      | some op =>
        have unary := first op hs
        cases op <;> first | (cases unary; done) | simp [Script.signToken, Operator.token,
          Operator.replacement, Operator.symbol]
    rw [signLength, Nat.add_eq_zero_iff, ih rest, SignFree, SignFree, List.forall_mem_cons]
    by_cases opens : frame.op = .openGroup
    · simp [opens, alone]
    · simp [opens]

theorem differs_drained {formula : Text → Script} {parentheses signs : Nat} {f g : Formula}
    (h : Script.Differs parentheses signs (Script.ofFormulaWith formula f)
      (Script.ofFormulaWith formula g)) {frames : List Frame}
    (unary : ∀ frame ∈ frames, ∀ op ∈ frame.sign, op.isUnary) :
    Script.Differs (parentheses + doubled frames) (signs + signLength frames)
      (Script.ofFormulaWith formula (drained frames f))
      (Script.ofFormulaWith formula (closed frames g)) := by
  induction frames generalizing parentheses signs f g with
  | nil => exact h
  | cons frame frames ih =>
    obtain ⟨first, rest⟩ := List.forall_mem_cons.mp unary
    rw [drained, closed, doubled, signLength, ← Nat.add_assoc, ← Nat.add_assoc]
    by_cases opens : frame.op = .openGroup
    · simp only [opens, decide_true, Bool.true_and, if_true]
      apply ih _ rest
      rw [Script.ofFormulaWith_right, Script.ofFormulaWith_withSign]
      exact (h.left _).right first
    · simp only [opens, decide_false, Bool.false_and, if_false, Bool.toNat_false, Nat.add_zero]
      apply ih _ rest
      rw [Script.ofFormulaWith_right, Script.ofFormulaWith_right]
      exact h.both _

/-- Whether every `(` among the operators of the nodes can be taken for one that is closed: it has
no left side, and no other `(` is open directly around it. -/
def Closable : Formula → Prop
  | node left right op _ grouped =>
    left.Closable ∧ right.Closable ∧ (op = some .openGroup → left = missing ∧ grouped = false)
  | _ => True

theorem closable_drained {frames : List Frame} {f : Formula} :
    (drained frames f).Closable ↔ f.Closable ∧ doubled frames = 0 := by
  induction frames generalizing f with
  | nil => simp [drained, doubled]
  | cons frame frames ih =>
    rw [drained, ih, doubled, Nat.add_eq_zero_iff]
    by_cases opens : frame.op = .openGroup <;> simp [Closable, opens, and_assoc]

theorem joints_withSign (sign : Option Operator) (f : Formula) :
    (withSign sign f).joints = f.joints := by
  cases sign <;> simp [withSign, joints, isPresent]

theorem joints_drained (frames : List Frame) (f : Formula) :
    (drained frames f).joints = f.joints := by
  induction frames generalizing f with
  | nil => rfl
  | cons frame frames ih =>
    rw [drained, ih]
    simp [joints, isPresent]

theorem joints_closed (frames : List Frame) (f : Formula) :
    (closed frames f).joints = f.joints := by
  induction frames generalizing f with
  | nil => rfl
  | cons frame frames ih =>
    rw [closed, ih]
    split_ifs
    · exact joints_withSign _ f
    · simp [joints, isPresent]

theorem Closable.of_operators {f : Formula} (h : .openGroup ∉ f.operators) : f.Closable := by
  induction f with
  | node left right op sign grouped ihl ihr =>
    simp only [operators, List.mem_append, not_or] at h
    refine ⟨ihl h.1.1.1, ihr h.2, ?_⟩
    rintro rfl
    exact absurd (by simp) h.1.1.2
  | _ => trivial

theorem Closable.joints {f : Formula} (h : f.Closable) : .openGroup ∉ f.joints := by
  induction f with
  | node left right op sign grouped ihl ihr =>
    obtain ⟨l, r, alone⟩ := h
    simp only [Formula.joints, List.mem_append, not_or]
    refine ⟨⟨ihl l, ?_⟩, ihr r⟩
    split_ifs with both
    · intro mem
      rw [(alone (by simpa using mem)).1] at both
      cases both
    · simp
  | _ => simp [Formula.joints]

theorem combine_joints {index : Nat} {op : Operator} {grouped : Bool}
    {operands operands' : List Formula} (h : combine index op grouped operands = .ok operands') :
    operands.flatMap joints ⊆ operands'.flatMap joints := by
  match operands with
  | [] => cases h
  | [right] =>
    obtain rfl := Except.ok.inj h
    simp [joints]
  | right :: left :: rest =>
    obtain rfl := Except.ok.inj h
    intro p
    simp only [List.flatMap_cons, List.mem_append, joints]
    tauto

theorem reduceWhile_joints {index : Nat} {q : Frame → Bool} {frames frames' : List Frame}
    {operands operands' : List Formula}
    (h : reduceWhile index q frames operands = .ok (operands', frames')) :
    operands.flatMap joints ⊆ operands'.flatMap joints := by
  induction frames generalizing operands with
  | nil =>
    cases h
    exact List.Subset.refl _
  | cons frame frames ih =>
    rw [reduceWhile] at h
    split_ifs at h with folds
    · obtain ⟨operands'', hc, hr⟩ := exists_of_bind_eq_ok h
      exact List.Subset.trans (combine_joints hc) (ih hr)
    · cases h
      exact List.Subset.refl _

theorem opened_eq_count (frames : List Frame) :
    opened frames = (frames.map (·.op)).count .openGroup := by
  rw [opened, List.count, List.countP_map]
  rfl

theorem signFree_dropWhile (frames : List Frame) :
    SignFree (frames.dropWhile (·.op ≠ .openGroup)) ↔ SignFree frames := by
  induction frames with
  | nil => rfl
  | cons frame frames ih =>
    rw [List.dropWhile_cons]
    split_ifs with other
    · rw [ih, SignFree, SignFree, List.forall_mem_cons]
      simp_all
    · rfl

theorem Stacks.finish_cases {index : Nat} {s : Stacks} {f : Formula} (h : s.finish index = .ok f)
    (sound : s.Sound) (group : 0 < opened s.frames)
    (fresh : (s.operands.flatMap operators).count .openGroup = 0) {ls : List Lexeme}
    (tokens : ls.map Lexeme.token? =
      List.replicate (opened s.frames) (some (.operator .closeGroup))) (index' : Nat) :
    .openGroup ∈ f.joints ∨ ∃ g parentheses signs,
      ls.foldlM Stacks.read s >>= Stacks.finish index' = .ok g ∧
      (∀ formula, Script.Differs parentheses signs (Script.ofFormulaWith formula f)
        (Script.ofFormulaWith formula g)) ∧
      g.joints = f.joints ∧ (f.Closable ↔ parentheses = 0) ∧ (SignFree s.frames ↔ signs = 0) := by
  obtain ⟨operands, frame, frames, opens, kept, top, below⟩ := exists_top h group
  obtain ⟨built, -, sub⟩ := reduceWhile_built top sound.built
  have count := (tallies_operators .openGroup).reduceWhile top
  rw [collect, collect, List.count_append, List.count_append, ← opened_eq_count,
    ← opened_eq_count, kept, fresh] at count
  -- The operands that the latest open group finds at the end: with one it has no left side, and
  -- neither has any frame below it; with more it joins two of them.
  rcases operands with _ | ⟨right, _ | ⟨left, rest⟩⟩
  · rw [reduceWhile, if_pos rfl] at below
    cases below
  · apply Or.inr
    rw [reduceWhile_single] at below
    obtain rfl : drained (frame :: frames) right = f := by
      cases below
      rfl
    have unary : ∀ frame' ∈ frame :: frames, ∀ op ∈ frame'.sign, op.isUnary :=
      fun frame' mem => sound.frames frame' (sub mem)
    refine ⟨closed (frame :: frames) right, doubled (frame :: frames), signLength (frame :: frames),
      ?_, ?_, (joints_closed _ right).trans (joints_drained _ right).symm, ?_, ?_⟩
    · obtain ⟨k, hk⟩ : ∃ k, opened s.frames = k + 1 := ⟨opened s.frames - 1, by omega⟩
      rw [hk] at tokens
      rw [run_closes_top top tokens]
      apply run_closes
      rw [tokens, kept, hk]
    · intro formula
      have filled := (built right List.mem_cons_self).tokens_ne_nil formula
      have start := differs_drained (Script.Differs.refl filled) unary
      rwa [Nat.zero_add, Nat.zero_add] at start
    · have fresh' : .openGroup ∉ right.operators := by
        apply List.count_eq_zero.mp
        simpa using count
      rw [closable_drained, and_iff_right (Closable.of_operators fresh')]
    · have free := signFree_dropWhile s.frames
      rw [← reduceWhile_frames top] at free
      rw [← free, signLength_eq_zero_iff unary]
  · apply Or.inl
    rw [reduceWhile, if_pos rfl] at below
    have joins : .openGroup ∈ (node left right (some frame.op) none (isInGroup frames) ::
        rest).flatMap joints := by
      have l := (built left (by simp)).isPresent
      have r := (built right (by simp)).isPresent
      simp [joints, l, r, opens]
    have mem := reduceWhile_joints below joins
    simpa using mem

end Formula

end FormulaMigration
