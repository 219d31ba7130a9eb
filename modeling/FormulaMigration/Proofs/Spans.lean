import Mathlib.Tactic.Common
import FormulaMigration.Ledger

namespace FormulaMigration

namespace Embedded

def span (formula : Text) : Text :=
  '|' :: '|' :: (formula ++ ['|', '|'])

def StartsSpan (t : Text) : Prop :=
  ∃ formula rest, t = span formula ++ rest ∧ formula ≠ [] ∧ '|' ∉ formula

def SpanFree (gap rest : Text) : Prop :=
  ∀ l r, gap = l ++ r → r ≠ [] → ¬ StartsSpan (r ++ rest)

/-- A text cut at its spans: what stands before each of them with its formula, and what follows the
last. The next span is always the first that starts after the end of the one before. -/
inductive Segments : Text → List (Text × Text) → Text → Prop
  | last {gap : Text} (free : SpanFree gap []) : Segments gap [] gap
  | more {gap formula rest last : Text} {segments : List (Text × Text)}
      (free : SpanFree gap (span formula ++ rest)) (filled : formula ≠ []) (barless : '|' ∉ formula)
      (tail : Segments rest segments last) :
      Segments (gap ++ (span formula ++ rest)) ((gap, formula) :: segments) last

theorem span?_span {formula : Text} (filled : formula ≠ []) (barless : '|' ∉ formula)
    (rest : Text) : span? (span formula ++ rest) = some (formula, rest) := by
  have other : ∀ c ∈ formula, decide (c ≠ '|') = true := by
    intro c hc
    apply decide_eq_true
    rintro rfl
    exact barless hc
  have front : (formula ++ '|' :: '|' :: rest).takeWhile (fun c => decide (c ≠ '|')) = formula := by
    rw [List.takeWhile_append_of_pos other]
    simp
  have back : (formula ++ '|' :: '|' :: rest).dropWhile (fun c => decide (c ≠ '|')) =
      '|' :: '|' :: rest := by
    rw [List.dropWhile_append_of_pos other]
    simp
  rw [span, List.cons_append, List.cons_append, List.append_assoc]
  simp only [span?, List.cons_append, List.nil_append, front, back]
  simp [filled]

theorem span?_eq_none {t : Text} : span? t = none ↔ ¬ StartsSpan t := by
  constructor
  · rintro h ⟨formula, rest, rfl, filled, barless⟩
    cases h.symm.trans (span?_span filled barless rest)
  · intro h
    cases hs : span? t with
    | none => rfl
    | some cut =>
      obtain ⟨formula, rest⟩ := cut
      obtain ⟨whole, filled, barless⟩ := span?_eq_some hs
      exact absurd ⟨formula, rest, by simp [whole, span], filled, barless⟩ h

theorem spanFree_nil (rest : Text) : SpanFree [] rest := by
  intro l r h hr
  simp_all

theorem spanFree_cons {c : Char} {gap rest : Text} :
    SpanFree (c :: gap) rest ↔ ¬ StartsSpan (c :: (gap ++ rest)) ∧ SpanFree gap rest := by
  constructor
  · intro h
    refine ⟨h [] (c :: gap) rfl (by simp), ?_⟩
    intro l r hg hr
    exact h (c :: l) r (by rw [hg, List.cons_append]) hr
  · rintro ⟨hc, h⟩ l r hg hr
    cases l with
    | nil =>
      obtain rfl : c :: gap = r := hg
      exact hc
    | cons d l =>
      simp only [List.cons_append, List.cons.injEq] at hg
      exact h l r hg.2 hr

theorem exists_span (t : Text) :
    SpanFree t [] ∨ ∃ gap formula rest, t = gap ++ (span formula ++ rest) ∧
      SpanFree gap (span formula ++ rest) ∧ formula ≠ [] ∧ '|' ∉ formula := by
  induction t with
  | nil => exact .inl (spanFree_nil [])
  | cons c t ih =>
    by_cases starts : StartsSpan (c :: t)
    · obtain ⟨formula, rest, whole, filled, barless⟩ := starts
      exact .inr ⟨[], formula, rest, whole, spanFree_nil _, filled, barless⟩
    rcases ih with free | ⟨gap, formula, rest, rfl, free, filled, barless⟩
    · exact .inl (spanFree_cons.mpr ⟨by rwa [List.append_nil], free⟩)
    · exact .inr ⟨c :: gap, formula, rest, rfl, spanFree_cons.mpr ⟨starts, free⟩, filled, barless⟩

theorem exists_segments (t : Text) : ∃ segments last, Segments t segments last := by
  induction hn : t.length using Nat.strongRecOn generalizing t with
  | ind n ih =>
    rcases exists_span t with free | ⟨gap, formula, rest, rfl, free, filled, barless⟩
    · exact ⟨[], t, .last free⟩
    · have shorter : rest.length < n := by
        simp only [span, List.length_append, List.length_cons] at hn
        omega
      obtain ⟨segments, last, tail⟩ := ih _ shorter rest rfl
      exact ⟨_, last, .more free filled barless tail⟩

theorem SpanFree.length_le {gap rest gap' rest' : Text} (free : SpanFree gap rest)
    (same : gap ++ rest = gap' ++ rest') (starts : StartsSpan rest') :
    gap.length ≤ gap'.length := by
  by_contra longer
  rcases List.append_eq_append_iff.mp same with ⟨r, rfl, -⟩ | ⟨r, rfl, hr⟩
  · simp at longer
  · -- The longer gap would hold the start of the other text's span.
    have nonempty : r ≠ [] := by
      rintro rfl
      simp at longer
    apply free gap' r rfl nonempty
    rwa [← hr]

theorem Segments.unique {t last last' : Text} {segments segments' : List (Text × Text)}
    (h : Segments t segments last) (h' : Segments t segments' last') :
    segments' = segments ∧ last' = last := by
  induction h generalizing segments' last' with
  | @last gap free =>
    cases h' with
    | last free' => exact ⟨rfl, rfl⟩
    | @more gap' formula' rest' _ _ free' filled' barless' tail' =>
      have starts : StartsSpan (span formula' ++ rest') := ⟨_, _, rfl, filled', barless'⟩
      have bound := free.length_le (List.append_nil _) starts
      simp only [span, List.length_append, List.length_cons] at bound
      omega
  | @more gap formula rest last segments free filled barless tail ih =>
    have starts : StartsSpan (span formula ++ rest) := ⟨_, _, rfl, filled, barless⟩
    generalize hw : gap ++ (span formula ++ rest) = whole at h'
    cases h' with
    | last free' =>
      have bound := free'.length_le (by rw [List.append_nil, ← hw]) starts
      rw [← hw] at bound
      simp only [span, List.length_append, List.length_cons] at bound
      omega
    | @more gap' formula' rest' _ segments' free' filled' barless' tail' =>
      -- Neither gap can be longer, as it would hold the start of the other's span.
      have starts' : StartsSpan (span formula' ++ rest') := ⟨_, _, rfl, filled', barless'⟩
      have length : gap.length = gap'.length :=
        Nat.le_antisymm (free.length_le hw starts') (free'.length_le hw.symm starts)
      obtain ⟨rfl, same⟩ := List.append_inj hw length
      have cut := span?_span filled barless rest
      rw [same, span?_span filled' barless'] at cut
      cases cut
      obtain ⟨rfl, rfl⟩ := ih tail'
      exact ⟨rfl, rfl⟩

theorem partsFrom_skip (s t : Text) : partsFrom s.length (s ++ t) = partsFrom 0 t := by
  induction s with
  | nil => rfl
  | cons c s ih => exact ih

theorem partsFrom_free {gap rest : Text} (free : SpanFree gap rest) :
    partsFrom 0 (gap ++ rest) = gap.map .plain ++ partsFrom 0 rest := by
  induction gap with
  | nil => rfl
  | cons c gap ih =>
    obtain ⟨hc, hg⟩ := spanFree_cons.mp free
    rw [List.cons_append, partsFrom, span?_eq_none.mpr hc]
    exact congrArg (.plain c :: ·) (ih hg)

theorem partsFrom_span {formula : Text} (filled : formula ≠ []) (barless : '|' ∉ formula)
    (rest : Text) :
    partsFrom 0 (span formula ++ rest) = .formula formula :: partsFrom 0 rest := by
  have first := span?_span filled barless rest
  have skipped := partsFrom_skip ('|' :: (formula ++ ['|', '|'])) rest
  rw [span, List.cons_append] at first ⊢
  rw [partsFrom, first]
  rw [List.length_cons, List.length_append] at skipped
  exact congrArg (.formula formula :: ·) skipped

def script (formula : Text) : Text :=
  scriptStart ++ (Formula.convert formula).output ++ scriptEnd

theorem convert_gap (gap : Text) :
    (gap.map Part.plain).flatMap (fun part => (convertPart part).output) = gap ∧
      (gap.map Part.plain).flatMap (fun part => (convertPart part).issues) = [] := by
  simp [List.flatMap_map, convertPart]

theorem Segments.convert_eq {t last : Text} {segments : List (Text × Text)}
    (h : Segments t segments last) :
    convert t = ⟨segments.flatMap (fun (gap, formula) => gap ++ script formula) ++ last,
      segments.flatMap fun (_, formula) => (Formula.convert formula).issues⟩ := by
  have unfolded (t : Text) : convert t =
      ⟨(partsFrom 0 t).flatMap fun part => (convertPart part).output,
        (partsFrom 0 t).flatMap fun part => (convertPart part).issues⟩ := by
    simp [convert, parts, List.flatMap_map]
  induction h with
  | @last gap free =>
    obtain ⟨output, issues⟩ := convert_gap gap
    have plain := partsFrom_free free
    rw [List.append_nil] at plain
    rw [unfolded, plain]
    simp [partsFrom, output, issues]
  | @more gap formula rest last segments free filled barless tail ih =>
    obtain ⟨output, issues⟩ := convert_gap gap
    rw [unfolded, Conversion.mk.injEq] at ih
    have first : convertPart (.formula formula) =
        ⟨script formula, (Formula.convert formula).issues⟩ := rfl
    rw [unfolded, partsFrom_free free, partsFrom_span filled barless]
    simp only [List.flatMap_append, List.flatMap_cons, output, issues, first, ih.1, ih.2,
      List.append_assoc, List.nil_append]

end Embedded

namespace Ledger

theorem extend_extend (l : Ledger) (time : UInt64) (issues issues' : List Issue) :
    (l.extend time issues).extend time issues' = l.extend time (issues ++ issues') := by
  simp [extend]

theorem foldl_convertFormula (l : Ledger) (time : UInt64) (segments : List (Text × Text)) :
    segments.foldl (fun l (_, formula) => (l.convertFormula time formula).2) l =
      l.extend time (segments.flatMap fun (_, formula) => (Formula.convert formula).issues) := by
  induction segments generalizing l with
  | nil => simp [extend]
  | cons segment segments ih =>
    rw [List.foldl_cons, ih, List.flatMap_cons, ← extend_extend]
    rfl

/-- A free text is cut at its spans in a single way. Converting it puts a script in the place of
each span, keeps the gaps, and leaves the ledger as if the formulas were converted one by one. -/
theorem convertEmbedded_eq (l : Ledger) (time : UInt64) (t : Text) :
    ∃ segments last, (∀ ss g, Embedded.Segments t ss g ↔ ss = segments ∧ g = last) ∧
      l.convertEmbedded time t =
        (segments.flatMap (fun (gap, formula) => gap ++ Embedded.script formula) ++ last,
          segments.foldl (fun l (_, formula) => (l.convertFormula time formula).2) l) := by
  obtain ⟨segments, last, cut⟩ := Embedded.exists_segments t
  refine ⟨segments, last, ?_, ?_⟩
  · intro ss g
    constructor
    · exact cut.unique
    · rintro ⟨rfl, rfl⟩
      exact cut
  · rw [convertEmbedded, cut.convert_eq, foldl_convertFormula]

end Ledger

end FormulaMigration
