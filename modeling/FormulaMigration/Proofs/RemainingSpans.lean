import FormulaMigration.Proofs.Bars
import FormulaMigration.Proofs.Spans

namespace FormulaMigration

namespace Embedded

theorem script_cons (formula : Text) : ∃ rest, script formula = '<' :: rest :=
  ⟨_, rfl⟩

theorem bar_notMem_script {formula : Text} (h : '|' ∉ formula) : '|' ∉ script formula := by
  have marks : '|' ∉ scriptStart ∧ '|' ∉ scriptEnd := by decide
  have inner := Formula.bar_notMem_convert h
  simp [script, marks, inner]

theorem hasSpan_eq_true_iff {t : Text} :
    hasSpan t = true ↔ ∃ l r, t = l ++ r ∧ StartsSpan r := by
  induction t with
  | nil =>
    constructor
    · intro h
      cases h
    · rintro ⟨l, r, whole, formula, rest, rfl, -⟩
      simp [span] at whole
  | cons c t ih =>
    rw [hasSpan, Bool.or_eq_true, ih, Option.isSome_iff_ne_none, Ne, span?_eq_none, not_not]
    constructor
    · rintro (here | ⟨l, r, rfl, later⟩)
      · exact ⟨[], c :: t, rfl, here⟩
      · exact ⟨c :: l, r, rfl, later⟩
    · rintro ⟨l, r, whole, starts⟩
      cases l with
      | nil =>
        obtain rfl : c :: t = r := whole
        exact .inl starts
      | cons d l =>
        rw [List.cons_append, List.cons.injEq] at whole
        exact .inr ⟨l, r, whole.2, starts⟩

theorem hasSpan_eq_false_iff {t : Text} : hasSpan t = false ↔ SpanFree t [] := by
  rw [← Bool.not_eq_true, hasSpan_eq_true_iff]
  constructor
  · intro h l r whole _ starts
    exact h ⟨l, r, whole, by rwa [List.append_nil] at starts⟩
  · rintro free ⟨l, r, whole, starts⟩
    have filled : r ≠ [] := by
      rintro rfl
      obtain ⟨formula, rest, none, -⟩ := starts
      cases none
    apply free l r whole filled
    rwa [List.append_nil]

theorem convert_eq_self_iff {t : Text} : (convert t).output = t ↔ hasSpan t = false := by
  obtain ⟨segments, last, cut⟩ := exists_segments t
  rw [cut.convert_eq, hasSpan_eq_false_iff]
  cases cut with
  | last free => simpa using free
  | @more gap formula rest last segments free filled barless tail =>
    constructor
    · intro same
      -- A script and a span start with different characters.
      obtain ⟨script, first⟩ := script_cons formula
      simp [first, span] at same
    · intro whole
      have starts : StartsSpan (span formula ++ rest ++ []) :=
        ⟨formula, rest, List.append_nil _, filled, barless⟩
      exact absurd starts (whole gap _ rfl (by simp [span]))

def gaps (segments : List (Text × Text)) (last : Text) : List Text :=
  segments.map (·.1) ++ [last]

def fromBar (t : Text) : Text :=
  t.dropWhile (· ≠ '|')

def Paired (t : Text) : Prop :=
  ['|', '|'] <+: fromBar t

def NextPaired (ts : List Text) : Prop :=
  ∃ before t after, ts = before ++ t :: after ∧ (∀ s ∈ before, '|' ∉ s) ∧ Paired t

/-- Two bars end a text, and the next in the texts after it are two again. -/
def Rejoined (ts : List Text) : Prop :=
  ∃ before t after, ts = before ++ t :: after ∧ ['|', '|'] <:+ t ∧ NextPaired after

theorem nextPaired_cons {t : Text} {ts : List Text} :
    NextPaired (t :: ts) ↔ Paired t ∨ '|' ∉ t ∧ NextPaired ts := by
  constructor
  · rintro ⟨before, u, after, whole, bare, paired⟩
    cases before with
    | nil =>
      cases whole
      exact .inl paired
    | cons s before =>
      cases whole
      obtain ⟨first, rest⟩ := List.forall_mem_cons.mp bare
      exact .inr ⟨first, before, u, after, rfl, rest, paired⟩
  · rintro (paired | ⟨first, before, u, after, rfl, bare, paired⟩)
    · exact ⟨[], t, ts, rfl, by simp, paired⟩
    · exact ⟨t :: before, u, after, rfl, List.forall_mem_cons.mpr ⟨first, bare⟩, paired⟩

theorem rejoined_cons {t : Text} {ts : List Text} :
    Rejoined (t :: ts) ↔ ['|', '|'] <:+ t ∧ NextPaired ts ∨ Rejoined ts := by
  constructor
  · rintro ⟨before, u, after, whole, ends, next⟩
    cases before with
    | nil =>
      cases whole
      exact .inl ⟨ends, next⟩
    | cons s before =>
      cases whole
      exact .inr ⟨before, u, after, rfl, ends, next⟩
  · rintro (⟨ends, next⟩ | ⟨before, u, after, rfl, ends, next⟩)
    · exact ⟨[], t, ts, rfl, ends, next⟩
    · exact ⟨t :: before, u, after, rfl, ends, next⟩

theorem not_nextPaired_nil : ¬ NextPaired [] := by
  rintro ⟨before, t, after, none, -⟩
  simp at none

theorem fromBar_append {t : Text} (h : '|' ∉ t) (rest : Text) :
    fromBar (t ++ rest) = fromBar rest := by
  apply List.dropWhile_append_of_pos
  intro c hc
  apply decide_eq_true
  rintro rfl
  exact h hc

theorem fromBar_bar (t : Text) : fromBar ('|' :: t) = '|' :: t := rfl

theorem fromBar_barless {t : Text} (h : '|' ∉ t) : fromBar t = [] := by
  have dropped := fromBar_append h []
  rwa [List.append_nil] at dropped

theorem paired_iff {t : Text} : Paired t ↔ ∃ q r, t = q ++ '|' :: '|' :: r ∧ '|' ∉ q := by
  constructor
  · intro paired
    by_cases bars : '|' ∈ t
    · obtain ⟨q, r, rfl, first⟩ := List.eq_append_cons_of_mem bars
      rw [Paired, fromBar_append first, fromBar_bar] at paired
      obtain ⟨r', hr⟩ := paired
      exact ⟨q, r', by rw [← hr]; rfl, first⟩
    · rw [Paired, fromBar_barless bars] at paired
      cases List.prefix_nil.mp paired
  · rintro ⟨q, r, rfl, first⟩
    rw [Paired, fromBar_append first]
    exact ⟨r, rfl⟩

theorem paired_append {gap s rest : Text} (bare : '|' ∉ s) (filled : s ≠ []) :
    Paired (gap ++ (s ++ rest)) ↔ Paired gap ∨ '|' ∉ gap ∧ Paired rest := by
  by_cases bars : '|' ∈ gap
  · obtain ⟨q, r, rfl, first⟩ := List.eq_append_cons_of_mem bars
    obtain ⟨c, s, rfl⟩ := List.exists_cons_of_ne_nil filled
    have other : '|' ≠ c := fun same => bare (same ▸ List.mem_cons_self)
    rw [Paired, Paired, List.append_assoc, fromBar_append first, fromBar_append first]
    cases r <;> simp [fromBar_bar, other]
  · have single : ¬ Paired gap := by
      rw [Paired, fromBar_barless bars]
      simp
    simp only [Paired, fromBar_append bars, fromBar_append bare] at single ⊢
    simp [single, bars]

theorem span_append (y z : Text) : span y ++ z = '|' :: '|' :: (y ++ '|' :: '|' :: z) := by
  simp [span]

theorem append_ne_bar {s : Text} (bare : '|' ∉ s) (filled : s ≠ []) (t u : Text) :
    s ++ t ≠ '|' :: u := by
  obtain ⟨c, s, rfl⟩ := List.exists_cons_of_ne_nil filled
  rintro same
  rw [List.cons_append, List.cons.injEq] at same
  simp [same.1] at bare

theorem exists_of_bars {t s rest u : Text} (bare : '|' ∉ s) (filled : s ≠ [])
    (h : t ++ (s ++ rest) = '|' :: '|' :: u) :
    ∃ t', t = '|' :: '|' :: t' ∧ t' ++ (s ++ rest) = u := by
  rcases t with _ | ⟨c, _ | ⟨d, t⟩⟩
  · exact absurd h (append_ne_bar bare filled _ _)
  · rw [List.singleton_append, List.cons.injEq] at h
    exact absurd h.2 (append_ne_bar bare filled _ _)
  · simp only [List.cons_append, List.cons.injEq] at h
    obtain ⟨rfl, rfl, h⟩ := h
    exact ⟨t, rfl, h⟩

theorem hasSpan_append {s t : Text} :
    hasSpan (s ++ t) = true ↔
      (∃ l r, s = l ++ r ∧ r ≠ [] ∧ StartsSpan (r ++ t)) ∨ hasSpan t = true := by
  rw [hasSpan_eq_true_iff, hasSpan_eq_true_iff]
  constructor
  · rintro ⟨l, r, whole, starts⟩
    rcases List.append_eq_append_iff.mp whole with ⟨l', rfl, rfl⟩ | ⟨r', rfl, rfl⟩
    · exact .inr ⟨l', r, rfl, starts⟩
    · by_cases none : r' = []
      · subst none
        exact .inr ⟨[], t, rfl, starts⟩
      · exact .inl ⟨l, r', rfl, none, starts⟩
  · rintro (⟨l, r, rfl, -, starts⟩ | ⟨l, r, rfl, starts⟩)
    · exact ⟨l, r ++ t, List.append_assoc _ _ _, starts⟩
    · exact ⟨s ++ l, r, (List.append_assoc _ _ _).symm, starts⟩

theorem startsSpan_replaced {g formula rest s rest' : Text}
    (free : ¬ StartsSpan (g ++ (span formula ++ rest))) (bare : '|' ∉ s) (filled : s ≠ []) :
    StartsSpan (g ++ (s ++ rest')) ↔ g = ['|', '|'] ∧ Paired rest' := by
  have inside (y q : Text) (full : y ≠ []) (clean : '|' ∉ y) :
      g ≠ '|' :: '|' :: (y ++ '|' :: '|' :: q) := by
    rintro rfl
    exact free ⟨y, q ++ (span formula ++ rest), by simp [span], full, clean⟩
  constructor
  · rintro ⟨y, z, whole, full, clean⟩
    rw [span_append] at whole
    obtain ⟨q, rfl, inner⟩ := exists_of_bars bare filled whole
    rcases List.append_eq_append_iff.mp inner with ⟨y', rfl, after⟩ | ⟨q', rfl, after⟩
    · -- The bars of the replaced span would have ended one that starts here.
      have short : q = [] := by
        by_contra long
        apply free
        refine ⟨q, formula ++ '|' :: '|' :: rest, ?_, long, fun bar => clean (by simp [bar])⟩
        rw [span_append, span_append]
        rfl
      subst short
      have paired : Paired (s ++ rest') :=
        paired_iff.mpr ⟨y', z, after, fun bar => clean (by simp [bar])⟩
      rw [Paired, fromBar_append bare] at paired
      exact ⟨rfl, paired⟩
    · obtain ⟨q', rfl, -⟩ := exists_of_bars bare filled after.symm
      exact absurd rfl (inside y q' full clean)
  · rintro ⟨rfl, paired⟩
    obtain ⟨q, r, rfl, first⟩ := paired_iff.mp paired
    refine ⟨s ++ q, r, ?_, by simp [filled], by simp [bare, first]⟩
    rw [span_append]
    simp

theorem hasSpan_replaced {gap formula rest s rest' : Text}
    (free : SpanFree gap (span formula ++ rest)) (bare : '|' ∉ s) (filled : s ≠ []) :
    hasSpan (gap ++ (s ++ rest')) = true ↔
      ['|', '|'] <:+ gap ∧ Paired rest' ∨ hasSpan rest' = true := by
  have behind : hasSpan (s ++ rest') = hasSpan rest' := by
    rw [Bool.eq_iff_iff, hasSpan_append]
    constructor
    · rintro (⟨l, r, rfl, nonempty, y, z, whole, -⟩ | later)
      · rw [span_append] at whole
        have tail : '|' ∉ r := fun bar => bare (List.mem_append_right _ bar)
        exact absurd whole (append_ne_bar tail nonempty _ _)
      · exact later
    · exact .inr
  rw [hasSpan_append, behind]
  constructor
  · rintro (⟨l, r, rfl, nonempty, starts⟩ | later)
    · obtain ⟨rfl, paired⟩ := (startsSpan_replaced (free l r rfl nonempty) bare filled).mp starts
      exact .inl ⟨List.suffix_append _ _, paired⟩
    · exact .inr later
  · rintro (⟨⟨l, rfl⟩, paired⟩ | later)
    · have starts := (startsSpan_replaced (free l _ rfl (by simp)) bare filled).mpr ⟨rfl, paired⟩
      exact .inl ⟨l, _, rfl, by simp, starts⟩
    · exact .inr later

def replaced (segments : List (Text × Text)) (last : Text) : Text :=
  segments.flatMap (fun (gap, formula) => gap ++ script formula) ++ last

theorem replaced_cons (gap formula : Text) (segments : List (Text × Text)) (last : Text) :
    replaced ((gap, formula) :: segments) last =
      gap ++ (script formula ++ replaced segments last) := by
  simp [replaced]

theorem script_ne_nil (formula : Text) : script formula ≠ [] := by
  obtain ⟨rest, first⟩ := script_cons formula
  simp [first]

theorem Segments.paired_replaced {t last : Text} {segments : List (Text × Text)}
    (h : Segments t segments last) :
    Paired (replaced segments last) ↔ NextPaired (gaps segments last) := by
  induction h with
  | @last gap free =>
    change Paired gap ↔ NextPaired [gap]
    rw [nextPaired_cons]
    simp [not_nextPaired_nil]
  | @more gap formula rest last segments free filled barless tail ih =>
    change _ ↔ NextPaired (gap :: gaps segments last)
    rw [replaced_cons, paired_append (bar_notMem_script barless) (script_ne_nil formula),
      nextPaired_cons, ih]

theorem Segments.hasSpan_replaced {t last : Text} {segments : List (Text × Text)}
    (h : Segments t segments last) :
    hasSpan (replaced segments last) = true ↔ Rejoined (gaps segments last) := by
  induction h with
  | @last gap free =>
    change hasSpan gap = true ↔ Rejoined [gap]
    rw [hasSpan_eq_false_iff.mpr free, rejoined_cons]
    have none : ¬ Rejoined [] := by
      rintro ⟨before, t, after, none, -⟩
      simp at none
    simp [not_nextPaired_nil, none]
  | @more gap formula rest last segments free filled barless tail ih =>
    change _ ↔ Rejoined (gap :: gaps segments last)
    rw [replaced_cons,
      Embedded.hasSpan_replaced free (bar_notMem_script barless) (script_ne_nil formula),
      rejoined_cons, tail.paired_replaced, ih]

/-- A converted text has a span exactly when two bars are left in front of a script and the next
bars behind it, in what stood between the spans, are two again. Only then does another conversion
change it. -/
theorem hasSpan_convert (t : Text) :
    ∃ segments last, (∀ ss g, Segments t ss g ↔ ss = segments ∧ g = last) ∧
      (hasSpan (convert t).output = true ↔ Rejoined (gaps segments last)) ∧
      ((convert (convert t).output).output = (convert t).output ↔
        ¬ Rejoined (gaps segments last)) := by
  obtain ⟨segments, last, cut⟩ := exists_segments t
  have output : (convert t).output = replaced segments last := by
    rw [cut.convert_eq]
    rfl
  refine ⟨segments, last, ?_, ?_, ?_⟩
  · intro ss g
    constructor
    · exact cut.unique
    · rintro ⟨rfl, rfl⟩
      exact cut
  · rw [output, cut.hasSpan_replaced]
  · rw [convert_eq_self_iff, ← Bool.not_eq_true, output, cut.hasSpan_replaced]

theorem hasSpan_convert_bars :
    (convert "||||a||||".toList).output = "||<script>\"a\"</script>||".toList ∧
      hasSpan (convert "||||a||||".toList).output = true ∧
      (convert (convert "||||a||||".toList).output).output ≠
        (convert "||||a||||".toList).output := by
  decide

end Embedded

end FormulaMigration
