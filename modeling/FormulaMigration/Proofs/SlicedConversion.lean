import FormulaMigration.Proofs.Cursor
import FormulaMigration.Proofs.Spans
import FormulaMigration.Proofs.TopLevelCommas

namespace FormulaMigration

namespace Sliced

def read (t : Text) : Except Fault (Except FormulaError Formula) :=
  match Formula.Cursor.run t (Text.byteLength t) with
  | .ok f => .ok (.ok f)
  | .error (.refused e) => .ok (.error e)
  | .error (.fault f) => .error f

theorem read_eq (t : Text) : read t = .ok (Formula.ofText t) := by
  rw [read, Formula.Cursor.run_eq (Nat.le_refl _)]
  cases Formula.ofText t <;> rfl

section Write

variable (keep : Int → Option Int) (formula : Text → Except Fault Script)

def arguments (function : Text) : (position : Nat) → List Text → Except Fault Script
  | _, [] => .ok .empty
  | position, t :: rest => do
    let here ←
      match Script.copied? function position t with
      | some copy => .ok (.token copy)
      | none => formula t
    let others ← arguments function (position + 1) rest
    .ok ⟨Script.beforeNext rest here.tokens ++ others.tokens, here.issues ++ others.issues⟩

def ofFormulaWith : Formula → Except Fault Script
  | .missing => .ok .empty
  | .operand value sign => .ok (.token (Script.signToken sign ++ Literal.ofOperand value))
  | .call function a sign => do
    let parts ← arguments formula function 0 (← Arguments.split keep a)
    .ok ⟨[Script.signToken sign ++ function ++ '(' :: Text.join [' '] parts.tokens ++ [')']],
      parts.issues⟩
  | .node left right operator sign grouped => do
    let l ← ofFormulaWith left
    let r ← ofFormulaWith right
    .ok ⟨Script.nodeTokens left right operator sign grouped l.tokens r.tokens,
      l.issues ++ r.issues⟩

end Write

def ofArgument (keep : Int → Option Int) : (depth : Nat) → Text → Except Fault Script
  | 0, _ => .error .endless
  | depth + 1, t => do
    match ← read t with
    | .ok f => ofFormulaWith keep (ofArgument keep depth) f
    | .error e => .ok (Script.placeholder t e)

def convert (keep : Int → Option Int) (t : Text) : Except Fault Conversion := do
  match ← read t with
  | .ok f => do
    let script ← ofFormulaWith keep (ofArgument keep (Text.byteLength t)) f
    .ok ⟨script.text, script.issues⟩
  | .error e => .ok ⟨t, [⟨.originalKept, t, e.message⟩]⟩

def convertPart (keep : Int → Option Int) : Embedded.Part → Except Fault Conversion
  | .plain c => .ok ⟨[c], []⟩
  | .formula t => do
    let span := Embedded.span t
    let inner ← span.cut 2 (Text.byteLength span - 2)
    let conversion ← convert keep inner
    .ok ⟨Embedded.scriptStart ++ conversion.output ++ Embedded.scriptEnd, conversion.issues⟩

def embedded (keep : Int → Option Int) (t : Text) : Except Fault Conversion := do
  let conversions ← (Embedded.parts t).mapM (convertPart keep)
  .ok ⟨conversions.flatMap (·.output), conversions.flatMap (·.issues)⟩

variable {keep : Int → Option Int} {formula : Text → Except Fault Script}

theorem ofArgument_succ (depth : Nat) (t : Text) :
    ofArgument keep (depth + 1) t =
      match Formula.ofText t with
      | .ok f => ofFormulaWith keep (ofArgument keep depth) f
      | .error e => .ok (Script.placeholder t e) := by
  rw [ofArgument, read_eq]
  rfl

theorem convert_eq (t : Text) :
    convert keep t =
      match Formula.ofText t with
      | .ok f => do
        let script ← ofFormulaWith keep (ofArgument keep (Text.byteLength t)) f
        .ok ⟨script.text, script.issues⟩
      | .error e => .ok ⟨t, [⟨.originalKept, t, e.message⟩]⟩ := by
  rw [convert, read_eq]
  rfl

section Bounded

theorem ends_arguments {function : Text} {position : Nat} {ts : List Text}
    (h : ∀ t ∈ ts, Ends (formula t)) :
    Ends (arguments formula function position ts) := by
  induction ts generalizing position with
  | nil => trivial
  | cons t rest ih =>
    obtain ⟨first, others⟩ := List.forall_mem_cons.mp h
    have tail (here : Script) : Ends (do
        let others ← arguments formula function (position + 1) rest
        .ok (Script.mk (Script.beforeNext rest here.tokens ++ others.tokens)
          (here.issues ++ others.issues))) := (ih others).bind fun _ _ => ends_ok
    rw [arguments]
    cases Script.copied? function position t with
    | some copy => exact tail (.token copy)
    | none => exact first.bind fun here _ => tail here

theorem ends_ofFormulaWith {f : Formula} (h : ∀ function a sign, .call function a sign ∈ f.leaves →
      ∀ t, Text.byteLength t ≤ Text.byteLength a → Ends (formula t)) :
    Ends (ofFormulaWith keep formula f) := by
  induction f with
  | missing => trivial
  | operand value sign => trivial
  | call function a sign =>
    refine (Arguments.gives_split keep a).bind fun ts short => ?_
    refine (ends_arguments fun t mem => ?_).bind fun _ _ => ends_ok
    exact h function a sign List.mem_cons_self t (short t mem)
  | node left right op sign grouped ihl ihr =>
    have l := ihl fun function a sign hc => h function a sign (List.mem_append_left _ hc)
    have r := ihr fun function a sign hc => h function a sign (List.mem_append_right _ hc)
    exact l.bind fun _ _ => r.bind fun _ _ => ends_ok

theorem ends_of_reading {t : Text} {f : Formula} (reading : Formula.ofText t = .ok f)
    (h : ∀ u, Text.byteLength u < Text.byteLength t → Ends (formula u)) :
    Ends (ofFormulaWith keep formula f) := by
  apply ends_ofFormulaWith
  intro function a sign called u part
  have shorter := Formula.byteLength_le_of_call reading called
  exact h u (by omega)

theorem ends_ofArgument {depth : Nat} {t : Text} (enough : Text.byteLength t < depth) :
    Ends (ofArgument keep depth t) := by
  induction depth generalizing t with
  | zero => exact absurd enough (Nat.not_lt_zero _)
  | succ depth ih =>
    rw [ofArgument_succ]
    cases reading : Formula.ofText t with
    | error e => trivial
    | ok f => exact ends_of_reading reading fun u shorter => ih (by omega)

theorem ends_convert (keep : Int → Option Int) (t : Text) :
    Ends (convert keep t) := by
  rw [convert_eq]
  cases reading : Formula.ofText t with
  | error e => trivial
  | ok f => exact (ends_of_reading reading fun u => ends_ofArgument).bind fun _ _ => ends_ok

theorem cut_span (t : Text) :
    (Embedded.span t).slice? 2 (Text.byteLength (Embedded.span t) - 2) = some t := by
  have width : Text.byteLength (Embedded.span t) - 2 =
      Text.byteLength ['|', '|'] + Text.byteLength t := by
    have bars : Text.byteLength ['|', '|'] = 2 := rfl
    have whole : Embedded.span t = ['|', '|'] ++ (t ++ ['|', '|']) := rfl
    rw [whole, Text.byteLength_append, Text.byteLength_append]
    omega
  rw [width]
  exact Text.slice?_append ['|', '|'] t ['|', '|']

theorem convertPart_formula (t : Text) :
    convertPart keep (.formula t) = (do
      let conversion ← convert keep t
      .ok ⟨Embedded.scriptStart ++ conversion.output ++ Embedded.scriptEnd,
        conversion.issues⟩) := by
  rw [convertPart, Text.cut, cut_span]
  rfl

theorem ends_embedded (keep : Int → Option Int) (t : Text) : Ends (embedded keep t) := by
  refine (ends_mapM fun part _ => ?_).bind fun _ _ => ends_ok
  cases part with
  | plain c => trivial
  | formula t =>
    rw [convertPart_formula]
    exact (ends_convert keep t).bind fun _ _ => ends_ok

end Bounded

section Exact

variable {pure : Text → Script}

theorem arguments_eq (function : Text) (position : Nat) {ts : List Text}
    (h : ∀ t ∈ ts, formula t = .ok (pure t)) :
    arguments formula function position ts =
      .ok (Script.separate (Script.argumentsFrom pure function position ts)) := by
  induction ts generalizing position with
  | nil => rfl
  | cons t rest ih =>
    obtain ⟨first, others⟩ := List.forall_mem_cons.mp h
    rw [arguments, ih (position + 1) others, Script.separate_argumentsFrom_cons]
    cases copied : Script.copied? function position t with
    | some copy =>
      rw [Script.argument_of_copied copied]
      rfl
    | none =>
      rw [Script.argument_of_read copied]
      dsimp only
      rw [first]
      rfl

theorem ofFormulaWith_eq {f : Formula} (h : ∀ function a sign, .call function a sign ∈ f.leaves →
      Arguments.split keep a = .ok (Arguments.ofText a) ∧
        ∀ t ∈ Arguments.ofText a, formula t = .ok (pure t)) :
    ofFormulaWith keep formula f = .ok (Script.ofFormulaWith pure f) := by
  induction f with
  | missing => rfl
  | operand value sign => rfl
  | call function a sign =>
    obtain ⟨cut, known⟩ := h function a sign List.mem_cons_self
    have parts := arguments_eq function 0 known
    rw [ofFormulaWith, cut]
    change (arguments formula function 0 (Arguments.ofText a) >>= _) = _
    rw [parts]
    rfl
  | node left right op sign grouped ihl ihr =>
    have l := ihl fun function a sign hc => h function a sign (List.mem_append_left _ hc)
    have r := ihr fun function a sign hc => h function a sign (List.mem_append_right _ hc)
    rw [ofFormulaWith, l, r]
    rfl

theorem ofFormulaWith_of_reading {t : Text} {f : Formula}
    (room : Arguments.Room keep (Text.byteLength t)) (reading : Formula.ofText t = .ok f)
    (h : ∀ u, Text.byteLength u < Text.byteLength t → formula u = .ok (Script.nested u)) :
    ofFormulaWith keep formula f = .ok (Script.ofFormula f) := by
  apply ofFormulaWith_eq
  intro function a sign called
  have shorter := Formula.byteLength_le_of_call reading called
  refine ⟨Arguments.split_exact (room.mono (by omega)), fun u hu => h u ?_⟩
  have part := Arguments.byteLength_le hu
  omega

theorem ofArgument_eq {depth : Nat} {t : Text} (room : Arguments.Room keep (Text.byteLength t))
    (enough : Text.byteLength t < depth) : ofArgument keep depth t = .ok (Script.nested t) := by
  induction depth generalizing t with
  | zero => exact absurd enough (Nat.not_lt_zero _)
  | succ depth ih =>
    rw [ofArgument_succ]
    cases reading : Formula.ofText t with
    | error e => rw [Script.nested_of_error reading]
    | ok f =>
      rw [Script.nested_of_ok reading]
      exact ofFormulaWith_of_reading room reading fun u shorter =>
        ih (room.mono (Nat.le_of_lt shorter)) (by omega)

theorem convert_exact {t : Text} (room : Arguments.Room keep (Text.byteLength t)) :
    convert keep t = .ok (Formula.convert t) := by
  rw [convert_eq, Formula.convert, Formula.convert?]
  cases reading : Formula.ofText t with
  | error e => rfl
  | ok f =>
    dsimp only
    rw [ofFormulaWith_of_reading room reading fun u shorter =>
      ofArgument_eq (room.mono (Nat.le_of_lt shorter)) shorter]
    rfl

theorem byteLength_of_mem_partsFrom {u : Text} {skip : Nat} {t : Text}
    (h : .formula u ∈ Embedded.partsFrom skip t) : Text.byteLength u ≤ Text.byteLength t := by
  induction t generalizing skip with
  | nil => cases h
  | cons c t ih =>
    have later {skip : Nat} (h : .formula u ∈ Embedded.partsFrom skip t) :
        Text.byteLength u ≤ Text.byteLength (c :: t) := by
      rw [Text.byteLength_cons]
      exact Nat.le_trans (ih h) (Nat.le_add_left _ _)
    cases skip with
    | succ skip => exact later h
    | zero =>
      rw [Embedded.partsFrom] at h
      cases first : Embedded.span? (c :: t) with
      | none =>
        rw [first] at h
        exact later (List.mem_of_ne_of_mem (by simp) h)
      | some cut =>
        obtain ⟨formula, rest⟩ := cut
        rw [first] at h
        rcases List.mem_cons.mp h with here | h
        · obtain rfl := Embedded.Part.formula.inj here
          rw [(Embedded.span?_eq_some first).1]
          simp only [Text.byteLength_cons, Text.byteLength_append, List.cons_append]
          omega
        · exact later h

theorem embedded_exact {t : Text} (room : Arguments.Room keep (Text.byteLength t)) :
    embedded keep t = .ok (Embedded.convert t) := by
  have known : ∀ part ∈ Embedded.parts t,
      convertPart keep part = .ok (Embedded.convertPart part) := by
    intro part mem
    cases part with
    | plain c => rfl
    | formula u =>
      rw [convertPart_formula, convert_exact (room.mono (byteLength_of_mem_partsFrom mem))]
      rfl
  rw [embedded, mapM_eq_ok_map known]
  rfl

end Exact

end Sliced

namespace Formula

/-- Reading and converting a text advances at boundaries until it ends. `advances` and `reads` are
about the loop of the reader, whose places and slices are bytes, and the other fields about what is
sliced beside it; `keep` is the counter of the depth in arguments. -/
structure Advancing (t : Text) : Prop where
  advances : ∀ c : Cursor, c.Reached t →
    c.index ≤ Text.byteLength t ∧ t.Boundary c.index ∧
      (c.index < Text.byteLength t →
        (∃ e, c.round t = .error (.refused e)) ∨
          ∃ c', c.round t = .ok c' ∧ c.index < c'.index ∧ c'.index ≤ Text.byteLength t)
  reads : ∀ n, Text.byteLength t ≤ n → Cursor.run t n = (ofText t).mapError .refused
  slices : ∀ first last, t.cut first last = .error .slice ↔
    ¬ (first ≤ last ∧ t.Boundary first ∧ t.Boundary last)
  splits : ∀ keep, Ends (Arguments.split keep t)
  spans : (Embedded.span t).cut 2 (Text.byteLength (Embedded.span t) - 2) = .ok t
  converts : ∀ keep, Ends (Sliced.convert keep t) ∧ Ends (Sliced.embedded keep t)
  exact : ∀ keep, Arguments.Room keep (Text.byteLength t) →
    Sliced.convert keep t = .ok (convert t) ∧
      Sliced.embedded keep t = .ok (Embedded.convert t)

/-- Every round of the reader is refused or moves on to a later boundary, and nothing is ever sliced
that is out of order or tears a character, so reading and converting come to an end. -/
theorem advancing (t : Text) : Advancing t where
  advances c reached := by
    have boundary := reached.boundary
    refine ⟨boundary.le, boundary, fun more => ?_⟩
    rcases Cursor.round_of_boundary boundary more with refused | ⟨c', moved, later, boundary'⟩
    · exact .inl refused
    · exact .inr ⟨c', moved, later, boundary'.le⟩
  reads n enough := Cursor.run_eq enough
  slices _ _ := Text.cut_eq_error_iff
  splits keep := (Arguments.gives_split keep t).mono fun _ _ => trivial
  spans := by rw [Text.cut, Sliced.cut_span]
  converts keep := ⟨Sliced.ends_convert keep t, Sliced.ends_embedded keep t⟩
  exact _ room := ⟨Sliced.convert_exact room, Sliced.embedded_exact room⟩

end Formula

end FormulaMigration
