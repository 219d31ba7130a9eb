import FormulaMigration.Proofs.Operand
import FormulaMigration.Script.Arguments

namespace FormulaMigration

namespace Text

/-- No `)` comes before its `(`, and there are as many of the one as of the other. -/
def Balanced (t : Text) : Prop :=
  (∀ s, s <+: t → s.count ')' ≤ s.count '(') ∧ t.count '(' = t.count ')'

theorem forall_prefix_cons {c : Char} {t : Text} (P : Text → Prop) :
    (∀ s, s <+: c :: t → P s) ↔ P [] ∧ ∀ s, s <+: t → P (c :: s) := by
  constructor
  · intro h
    exact ⟨h [] List.nil_prefix, fun s hs => h (c :: s) (List.cons_prefix_cons.mpr ⟨rfl, hs⟩)⟩
  · rintro ⟨hnil, h⟩ s hs
    cases s with
    | nil => exact hnil
    | cons d s =>
      obtain ⟨rfl, tail⟩ := List.cons_prefix_cons.mp hs
      exact h s tail

theorem balances_iff {depth : Nat} {t : Text} :
    balances depth t ↔
      (∀ s, s <+: t → s.count ')' ≤ depth + s.count '(') ∧ depth + t.count '(' = t.count ')' := by
  induction t generalizing depth with
  | nil => simp [balances]
  | cons c t ih =>
    rw [balances, forall_prefix_cons]
    by_cases opens : c = '('
    · subst opens
      simp [ih, Nat.add_assoc, Nat.add_comm 1]
    by_cases closes : c = ')'
    · subst closes
      cases depth with
      | zero =>
        constructor
        · intro h
          simp at h
        · rintro ⟨⟨-, h⟩, -⟩
          have first := h [] List.nil_prefix
          simp at first
      | succ depth => simp [ih, Nat.add_right_comm]
    · simp [ih, opens, closes]

theorem untilClose_eq_none_iff {depth : Nat} {t : Text} :
    untilClose depth t = none ↔ ∀ s, s <+: t → s.count ')' ≤ depth + s.count '(' := by
  induction t generalizing depth with
  | nil => simp [untilClose]
  | cons c t ih =>
    rw [untilClose, forall_prefix_cons]
    by_cases opens : c = '('
    · subst opens
      simp [ih, Nat.add_assoc, Nat.add_comm 1]
    by_cases closes : c = ')'
    · subst closes
      cases depth with
      | zero =>
        simp only [if_neg opens, if_true]
        constructor
        · rintro ⟨⟩
        · rintro ⟨-, h⟩
          have first := h [] List.nil_prefix
          simp at first
      | succ depth => simp [ih, Nat.add_right_comm]
    · simp [ih, opens, closes]

theorem balanced_iff {t : Text} : t.Balanced ↔ balances 0 t := by
  simp [Balanced, balances_iff]

def Plain (t : Text) : Prop :=
  ∀ c ∈ t, c ≠ '(' ∧ c ≠ ')'

theorem plain_iff {t : Text} : Plain t ↔ t.all fun c => c != '(' && c != ')' := by
  simp [Plain, List.all_eq_true]

theorem balances_append_of {k : Nat} {s : Text} (h : balances k s) (depth : Nat) (t : Text) :
    balances (k + depth) (s ++ t) = balances depth t := by
  induction s generalizing k with
  | nil =>
    obtain rfl : k = 0 := by simpa [balances] using h
    simp
  | cons c s ih =>
    rw [balances] at h
    rw [List.cons_append, balances]
    split_ifs at h ⊢ with opens closes
    · rw [Nat.add_right_comm, ih h]
    · simp only [Bool.and_eq_true, bne_iff_ne] at h
      have back : k + depth - 1 = k - 1 + depth := by omega
      have deep : (k + depth != 0) = true := by simp; omega
      rw [back, ih h.2, deep, Bool.true_and]
    · exact ih h

theorem balances_append {s : Text} (h : balances 0 s) (depth : Nat) (t : Text) :
    balances depth (s ++ t) = balances depth t := by
  simpa using balances_append_of h depth t

theorem balances_of_plain {t : Text} (h : Plain t) : balances 0 t := by
  induction t with
  | nil => rfl
  | cons c t ih =>
    obtain ⟨hc, ht⟩ := List.forall_mem_cons.mp h
    rw [balances, if_neg hc.1, if_neg hc.2]
    exact ih ht

theorem Plain.append {s t : Text} (hs : Plain s) (ht : Plain t) : Plain (s ++ t) := by
  intro c hc
  exact (List.mem_append.mp hc).elim (hs c) (ht c)

theorem balances_parenthesized {t : Text} (h : balances 0 t) :
    balances 0 ('(' :: (t ++ [')'])) := by
  rw [balances, if_pos rfl, balances_append h]
  rfl

theorem count_eq_of_balances {t : Text} (h : balances 0 t) : t.count '(' = t.count ')' :=
  (balanced_iff.mpr h).2

theorem Plain.of_balances {t : Text} (h : balances 0 t) (unopened : '(' ∉ t) : Plain t := by
  have opened : t.count '(' = 0 := List.count_eq_zero.mpr unopened
  have closed : ')' ∉ t := by
    rw [← List.count_eq_zero, ← count_eq_of_balances h, opened]
  intro c hc
  constructor
  · rintro rfl
    exact unopened hc
  · rintro rfl
    exact closed hc

theorem Plain.trim {t : Text} (h : Plain t) : Plain t.trim := by
  obtain ⟨s, s', whole, -, -⟩ := t.exists_trim
  intro c hc
  apply h c
  rw [whole]
  simp [hc]

theorem Plain.quote {t : Text} (h : Plain t) : Plain t.quote := by
  have mark : Plain ['\x22'] := plain_iff.mpr rfl
  exact mark.append (h.append mark)

end Text

namespace Arguments

theorem balances_pieces {depth : Nat} {t : Text} (h : t.balances depth) :
    ∃ p ps, pieces depth t = p :: ps ∧ p.balances depth ∧ ∀ q ∈ ps, q.balances 0 := by
  induction t generalizing depth with
  | nil => exact ⟨[], [], rfl, h, by simp⟩
  | cons c t ih =>
    by_cases comma : c = ',' ∧ (depth : Int) = 0
    · obtain ⟨rfl, zero⟩ := comma
      obtain rfl : depth = 0 := by omega
      obtain ⟨p, ps, cut, hp, hps⟩ := ih (by simpa [Text.balances] using h)
      refine ⟨[], p :: ps, ?_, rfl, List.forall_mem_cons.mpr ⟨hp, hps⟩⟩
      simp only [pieces, Int.natCast_zero, and_self, if_true]
      rw [← cut]
      rfl
    · rw [pieces, if_neg comma]
      by_cases opens : c = '('
      · subst opens
        obtain ⟨p, ps, cut, hp, hps⟩ := @ih (depth + 1) (by simpa [Text.balances] using h)
        push_cast at cut
        refine ⟨'(' :: p, ps, by simp [cut], ?_, hps⟩
        simpa [Text.balances] using hp
      by_cases closes : c = ')'
      · subst closes
        have inner : depth ≠ 0 ∧ Text.balances (depth - 1) t := by simpa [Text.balances] using h
        obtain ⟨p, ps, cut, hp, hps⟩ := ih inner.2
        have back : ((depth - 1 : Nat) : Int) = (depth : Int) - 1 := by omega
        rw [back] at cut
        refine ⟨')' :: p, ps, by simp [cut], ?_, hps⟩
        simpa [Text.balances] using ⟨inner.1, hp⟩
      · obtain ⟨p, ps, cut, hp, hps⟩ := @ih depth (by simpa [Text.balances, opens, closes] using h)
        refine ⟨c :: p, ps, by simp [opens, closes, cut], ?_, hps⟩
        simpa [Text.balances, opens, closes] using hp

theorem balances_of_mem {a t : Text} (h : a.balances 0) (ht : t ∈ ofText a) : t.balances 0 := by
  obtain ⟨p, ps, cut, hp, hps⟩ := balances_pieces h
  have piece : t ∈ p :: ps := by
    rw [← cut]
    exact (List.takeWhile_sublist _).subset ht
  rcases List.mem_cons.mp piece with rfl | piece
  · exact hp
  · exact hps t piece

end Arguments

end FormulaMigration
