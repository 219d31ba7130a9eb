import FormulaMigration.Proofs.Parentheses

namespace FormulaMigration

theorem Text.mem_join {separator : Text} {ts : List Text} {c : Char} (h : c ∈ join separator ts) :
    c ∈ separator ∨ ∃ t ∈ ts, c ∈ t := by
  induction ts with
  | nil => cases h
  | cons t ts ih =>
    cases ts with
    | nil => exact .inr ⟨t, List.mem_cons_self, h⟩
    | cons u ts =>
      rw [join, List.mem_append, List.mem_append] at h
      rcases h with (h | h) | h
      · exact .inr ⟨t, List.mem_cons_self, h⟩
      · exact .inl h
      · rcases ih h with h | ⟨v, hv, h⟩
        · exact .inl h
        · exact .inr ⟨v, List.mem_cons_of_mem _ hv, h⟩

theorem Arguments.subset {a t : Text} (h : t ∈ ofText a) : t ⊆ a := by
  obtain ⟨l, r, rfl⟩ := exists_of_mem h
  intro c hc
  simp [hc]

theorem Text.trim_subset (t : Text) : t.trim ⊆ t := by
  obtain ⟨s, s', whole, -, -⟩ := t.exists_trim
  intro c hc
  rw [whole]
  simp [hc]

namespace Token

def text : Token → Text
  | operand value => value
  | operator op => op.symbol
  | arguments a => a

end Token

theorem Reads.text_subset {named : Bool} {before t : Text} {ts : List Token}
    (h : Reads named before t ts) : ∀ token ∈ ts, token.text ⊆ t := by
  have inGap (gap : Text) : ∀ token ∈ Token.ofGap gap, token.text ⊆ gap := by
    unfold Token.ofGap
    split_ifs
    · exact List.forall_mem_singleton.mpr gap.trim_subset
    · simp
  induction h with
  | last absent => exact inGap _
  | operator absent first uncalled tail ih =>
    simp only [List.forall_mem_append, List.forall_mem_cons]
    refine ⟨fun token mem => ?_, ?_, fun token mem => ?_⟩
    · exact List.subset_append_of_subset_left _ (inGap _ token mem)
    · exact List.subset_append_of_subset_right _ (List.subset_append_left _ _)
    · apply List.subset_append_of_subset_right
      exact List.subset_append_of_subset_right _ (ih token mem)
  | @call named before gap a rest ts absent called matching tail ih =>
    simp only [List.forall_mem_append, List.forall_mem_cons]
    have inner : a ⊆ '(' :: (a ++ ')' :: rest) :=
      List.subset_cons_of_subset _ (List.subset_append_left _ _)
    have outer : rest ⊆ '(' :: (a ++ ')' :: rest) := by
      intro c hc
      simp [hc]
    refine ⟨fun token mem => ?_, ?_, fun token mem => ?_⟩
    · exact List.subset_append_of_subset_left _ (inGap _ token mem)
    · exact List.subset_append_of_subset_right _ inner
    · exact List.subset_append_of_subset_right _ (List.Subset.trans (ih token mem) outer)

theorem Formula.operator_mem_of_operators {p : Operator} (plain : p.isUnary = false)
    {t : Text} {ts : List Token} (reads : Reads false [] t ts) {f : Formula}
    (h : ofText t = .ok f) (mem : p ∈ f.operators) : .operator p ∈ ts := by
  obtain ⟨s, run, finished⟩ := exists_of_bind_eq_ok h
  obtain ⟨-, count⟩ := Stacks.run_count plain (reads_ofText_iff.mp reads) run Stacks.empty_sound
  have folded := (tallies_operators p).finish finished
  rw [collect, ← held] at folded
  have pushed : p ∈ ts.flatMap Token.pushes := by
    have := List.count_pos_iff.mpr mem
    apply List.count_pos_iff.mp
    have start : (held Stacks.empty.operands Stacks.empty.frames).count p = 0 := rfl
    omega
  obtain ⟨token, mem, pushes⟩ := List.mem_flatMap.mp pushed
  cases token with
  | operator op =>
    rw [Token.pushes] at pushes
    split_ifs at pushes with h
    · cases pushes
    · obtain rfl := List.mem_singleton.mp pushes
      exact mem
  | _ => cases pushes

theorem Operator.bar_notMem_token {op : Operator} (h : op ≠ disjunction) : '|' ∉ op.token := by
  cases op <;> first | decide | contradiction

theorem bar_notMem_of_scriptCall? {name function : Text} (h : scriptCall? name = some function) :
    '|' ∉ function := by
  obtain ⟨l, l', table, -⟩ := List.lookup_eq_some_iff.mp h
  have bare : ∀ row ∈ functionTable, '|' ∉ row.2 := by decide
  exact bare (name, function) (by simp [table])

namespace Formula

def texts : Formula → List Text
  | missing => []
  | operand value _ => [value]
  | call function a _ => [function, a]
  | node left right _ _ _ => left.texts ++ right.texts

theorem texts_eq (f : Formula) : f.texts = (f.leaves.map unsigned).flatMap texts := by
  induction f with
  | node left right op sign grouped ihl ihr => simp [texts, leaves, ihl, ihr]
  | _ => simp [texts, leaves, unsigned]

structure Barless (f : Formula) : Prop where
  texts : ∀ t ∈ f.texts, '|' ∉ t
  operators : .disjunction ∉ f.operators

theorem bar_notMem_of_leaves {ts : List Token} {fs : List Formula} (h : Token.Leaves ts fs)
    (bare : ∀ token ∈ ts, '|' ∉ token.text) : ∀ t ∈ fs.flatMap Formula.texts, '|' ∉ t := by
  induction h with
  | nil => simp
  | operand alone tail ih =>
    obtain ⟨first, rest⟩ := List.forall_mem_cons.mp bare
    exact List.forall_mem_cons.mpr ⟨first, ih rest⟩
  | call next hf tail ih =>
    have called := bare _ (List.mem_cons_of_mem _ (Token.mem_of_argumentsNext next))
    have rest := ih (List.forall_mem_cons.mp bare).2
    exact List.forall_mem_cons.mpr
      ⟨bar_notMem_of_scriptCall? hf, List.forall_mem_cons.mpr ⟨called, rest⟩⟩
  | operator op tail ih => exact ih (List.forall_mem_cons.mp bare).2
  | arguments a tail ih => exact ih (List.forall_mem_cons.mp bare).2

theorem barless_ofText {t : Text} {f : Formula} (h : ofText t = .ok f) (bare : '|' ∉ t) :
    f.Barless := by
  obtain ⟨ts, reads, -, leaves⟩ := exists_reads h
  have tokens : ∀ token ∈ ts, '|' ∉ token.text := fun token mem bar =>
    bare (reads.text_subset token mem bar)
  constructor
  · rw [texts_eq]
    exact bar_notMem_of_leaves leaves tokens
  · intro mem
    exact tokens _ (operator_mem_of_operators rfl reads h mem) List.mem_cons_self

end Formula

namespace Script

def Part.Barless : Part → Prop
  | formula f => f.Barless
  | arguments _ _ ts => ∀ t ∈ ts, '|' ∉ t

variable {ts : List Text}

theorem bar_notMem_mapFirst (h : ∀ t ∈ ts, '|' ∉ t) {s : Text} (hs : '|' ∉ s) :
    ∀ t ∈ mapFirst (s ++ ·) ts, '|' ∉ t := by
  cases ts with
  | nil => exact h
  | cons t ts =>
    obtain ⟨first, rest⟩ := List.forall_mem_cons.mp h
    exact List.forall_mem_cons.mpr ⟨by simp [hs, first], rest⟩

theorem bar_notMem_mapLast (h : ∀ t ∈ ts, '|' ∉ t) {s : Text} (hs : '|' ∉ s) :
    ∀ t ∈ mapLast (· ++ s) ts, '|' ∉ t := by
  induction ts with
  | nil => exact h
  | cons t ts ih =>
    obtain ⟨first, rest⟩ := List.forall_mem_cons.mp h
    cases ts with
    | nil => exact List.forall_mem_singleton.mpr (by simp [hs, first])
    | cons u ts => exact List.forall_mem_cons.mpr ⟨first, ih rest⟩

theorem bar_notMem_signToken {sign : Option Operator} (h : .disjunction ∉ sign.toList) :
    '|' ∉ signToken sign := by
  cases sign with
  | none => exact List.not_mem_nil
  | some op => exact Operator.bar_notMem_token (by rintro rfl; simp at h)

theorem bar_notMem_quote {t : Text} (h : '|' ∉ t) : '|' ∉ t.quote := by
  simp [Text.quote, h]

theorem bar_notMem_copied? {function t token : Text} {position : Nat}
    (copied : copied? function position t = some token) (h : '|' ∉ t) : '|' ∉ token := by
  have trimmed : '|' ∉ t.trim := fun bar => h (t.trim_subset bar)
  unfold copied? at copied
  split_ifs at copied
  · cases copied
    unfold diceLiteral
    dsimp only
    split_ifs
    · exact trimmed
    · exact bar_notMem_quote trimmed
  · cases copied
    exact h

theorem bar_notMem_beforeNext {α : Type} {us : List α} (h : ∀ t ∈ ts, '|' ∉ t) :
    ∀ t ∈ beforeNext us ts, '|' ∉ t := by
  unfold beforeNext
  split_ifs
  · exact h
  · exact bar_notMem_mapLast h (by decide)

theorem bar_notMem_nodeTokens {left right : Formula} {op sign : Option Operator} {us : List Text}
    (grouped : Bool) (ht : ∀ t ∈ ts, '|' ∉ t) (hu : ∀ t ∈ us, '|' ∉ t)
    (operator : .disjunction ∉ op.toList) (signed : .disjunction ∉ sign.toList) :
    ∀ t ∈ nodeTokens left right op sign grouped ts us, '|' ∉ t := by
  have middle : ∀ t ∈ operatorTokens left right op, '|' ∉ t := by
    cases op with
    | none => simp [operatorTokens]
    | some op =>
      have token := bar_notMem_signToken operator
      unfold operatorTokens
      dsimp only
      split_ifs
      · exact List.forall_mem_singleton.mpr token
      · simp
  have inner : ∀ t ∈ ts ++ operatorTokens left right op ++ us, '|' ∉ t :=
    List.forall_mem_append.mpr ⟨List.forall_mem_append.mpr ⟨ht, middle⟩, hu⟩
  have tokens : ∀ t ∈ (if left.isPresent && right.isPresent
      then ts ++ operatorTokens left right op ++ us
      else withSign sign (ts ++ operatorTokens left right op ++ us)), '|' ∉ t := by
    split_ifs
    · exact inner
    · exact bar_notMem_mapFirst inner (bar_notMem_signToken signed)
  unfold nodeTokens
  cases grouped with
  | false => exact tokens
  | true =>
    have opened := bar_notMem_mapFirst (s := ['(']) tokens (by decide)
    exact bar_notMem_mapLast opened (by decide)

theorem Written.bar_notMem {part : Part} {rs : List Rejection} (h : Written part ts rs)
    (bare : part.Barless) : ∀ t ∈ ts, '|' ∉ t := by
  induction h with
  | missing => simp
  | operand value sign =>
    have word : '|' ∉ value := bare.texts value List.mem_cons_self
    have literal : '|' ∉ Literal.ofOperand value := by
      rcases Literal.ofOperand_cases value with same | quoted
      · rwa [same]
      · rw [quoted]
        exact bar_notMem_quote word
    have signed := bar_notMem_signToken bare.operators
    exact List.forall_mem_singleton.mpr (by simp [signed, literal])
  | node operator sign grouped l r ihl ihr =>
    obtain ⟨texts, operators⟩ := bare
    simp only [Formula.operators, List.mem_append, not_or] at operators
    obtain ⟨⟨⟨left, joining⟩, signed⟩, right⟩ := operators
    obtain ⟨textsLeft, textsRight⟩ := List.forall_mem_append.mp texts
    exact bar_notMem_nodeTokens grouped (ihl ⟨textsLeft, left⟩) (ihr ⟨textsRight, right⟩) joining
      signed
  | @call function a ts rs sign parts ih =>
    obtain ⟨texts, operators⟩ := bare
    have name : '|' ∉ function := texts function (by simp [Formula.texts])
    have arguments : '|' ∉ a := texts a (by simp [Formula.texts])
    have inner := ih fun t mem bar => arguments (Arguments.subset mem bar)
    have joined : '|' ∉ Text.join [' '] ts := by
      intro bar
      rcases Text.mem_join bar with blank | ⟨t, mem, bar⟩
      · simp at blank
      · exact inner t mem bar
    have signed := bar_notMem_signToken operators
    exact List.forall_mem_singleton.mpr (by simp [signed, name, joined])
  | nil function position => simp
  | copied h tail ih =>
    obtain ⟨first, rest⟩ := List.forall_mem_cons.mp bare
    have token := bar_notMem_copied? h first
    have tokens : ∀ t ∈ [_], '|' ∉ t := List.forall_mem_singleton.mpr token
    exact List.forall_mem_append.mpr ⟨bar_notMem_beforeNext tokens, ih rest⟩
  | read h reading inner tail ihi iht =>
    obtain ⟨first, rest⟩ := List.forall_mem_cons.mp bare
    have tokens := ihi (Formula.barless_ofText reading first)
    exact List.forall_mem_append.mpr ⟨bar_notMem_beforeNext tokens, iht rest⟩
  | rejected h reading tail ih =>
    obtain ⟨first, rest⟩ := List.forall_mem_cons.mp bare
    have token : ∀ t ∈ [errorPlaceholder], '|' ∉ t := List.forall_mem_singleton.mpr (by decide)
    exact List.forall_mem_append.mpr ⟨bar_notMem_beforeNext token, ih rest⟩

end Script

namespace Formula

theorem bar_notMem_convert {t : Text} (h : '|' ∉ t) : '|' ∉ (convert t).output := by
  unfold convert
  cases reading : ofText t with
  | error e =>
    have kept : convert? t = .error e := by rw [convert?, reading]; rfl
    rwa [kept]
  | ok f =>
    have written : convert? t = .ok ⟨(Script.ofFormula f).text, (Script.ofFormula f).issues⟩ := by
      rw [convert?, reading]
      rfl
    obtain ⟨rs, tokens, -⟩ := Script.ofFormula_tells reading
    have bare := tokens.bar_notMem (barless_ofText reading h)
    rw [written]
    intro bar
    rcases Text.mem_join bar with blank | ⟨token, mem, bar⟩
    · simp at blank
    · exact bare token mem bar

end Formula

end FormulaMigration
