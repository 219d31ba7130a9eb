import FormulaMigration.Disk.Path
import Mathlib.Data.List.Sort
import Mathlib.Data.List.Nodup
import Mathlib.Tactic.Common

/-!
The orders of texts and of paths, and sorting by a text. Main statements: both orders are total, and
a list that is sorted by a text keeps the order of all that have the same text, so that leaving
elements out before and after it is sorted comes to the same.
-/

namespace FormulaMigration

namespace Text

variable {s t : Text}

theorem le_refl (t : Text) : le t t := by
  induction t with
  | nil => rfl
  | cons c t ih => simpa [le] using ih

theorem le_total (s t : Text) : le s t || le t s := by
  induction s generalizing t with
  | nil => simp [le]
  | cons c s ih =>
    cases t with
    | nil => simp [le]
    | cons d t =>
      by_cases same : c = d
      · subst same
        simpa [le] using ih t
      · have apart : c.toNat ≠ d.toNat := fun h => same (Char.toNat_inj.mp h)
        simp [le, same, Ne.symm same]
        omega

theorem le_antisymm (h : le s t) (h' : le t s) : s = t := by
  induction s generalizing t with
  | nil =>
    cases t with
    | nil => rfl
    | cons d t => simp [le] at h'
  | cons c s ih =>
    cases t with
    | nil => simp [le] at h
    | cons d t =>
      by_cases same : c = d
      · subst same
        simp only [le, if_true] at h h'
        rw [ih h h']
      · simp only [le, if_neg same, if_neg (Ne.symm same), decide_eq_true_eq] at h h'
        omega

theorem le_trans (s t u : Text) (h : le s t) (h' : le t u) : le s u := by
  induction s generalizing t u with
  | nil => rfl
  | cons c s ih =>
    cases t with
    | nil => simp [le] at h
    | cons d t =>
      cases u with
      | nil => simp [le] at h'
      | cons e u =>
        by_cases first : c = d
        · subst first
          by_cases second : c = e
          · subst second
            simp only [le, if_true] at h h' ⊢
            exact ih _ _ h h'
          · simpa only [le, if_neg second] using h'
        · simp only [le, if_neg first, decide_eq_true_eq] at h
          by_cases second : d = e
          · subst second
            simpa only [le, if_neg first, decide_eq_true_eq] using h
          · simp only [le, if_neg second, decide_eq_true_eq] at h'
            have apart : c ≠ e := by
              rintro rfl
              omega
            simp only [le, if_neg apart, decide_eq_true_eq]
            omega

end Text

namespace Path

theorem namesLe_total (s t : List Name) : namesLe s t || namesLe t s := by
  induction s generalizing t with
  | nil => simp [namesLe]
  | cons m s ih =>
    cases t with
    | nil => simp [namesLe]
    | cons n t =>
      by_cases same : m = n
      · subst same
        simpa [namesLe] using ih t
      · simpa [namesLe, same, Ne.symm same] using Text.le_total m n

theorem namesLe_antisymm {s t : List Name} (h : namesLe s t) (h' : namesLe t s) : s = t := by
  induction s generalizing t with
  | nil =>
    cases t with
    | nil => rfl
    | cons n t => simp [namesLe] at h'
  | cons m s ih =>
    cases t with
    | nil => simp [namesLe] at h
    | cons n t =>
      by_cases same : m = n
      · subst same
        simp only [namesLe, if_true] at h h'
        rw [ih h h']
      · simp only [namesLe, if_neg same, if_neg (Ne.symm same)] at h h'
        exact absurd (Text.le_antisymm h h') same

theorem namesLe_trans (s t u : List Name) (h : namesLe s t) (h' : namesLe t u) :
    namesLe s u := by
  induction s generalizing t u with
  | nil => rfl
  | cons m s ih =>
    cases t with
    | nil => simp [namesLe] at h
    | cons n t =>
      cases u with
      | nil => simp [namesLe] at h'
      | cons o u =>
        by_cases first : m = n
        · subst first
          by_cases second : m = o
          · subst second
            simp only [namesLe, if_true] at h h' ⊢
            exact ih _ _ h h'
          · simpa only [namesLe, if_neg second] using h'
        · simp only [namesLe, if_neg first] at h
          by_cases second : n = o
          · subst second
            simpa only [namesLe, if_neg first] using h
          · simp only [namesLe, if_neg second] at h'
            have apart : m ≠ o := by
              rintro rfl
              exact first (Text.le_antisymm h h')
            simpa only [namesLe, if_neg apart] using Text.le_trans _ _ _ h h'

end Path

section Sorting

variable {α : Type} {le : α → α → Bool} (trans : ∀ a b c, le a b → le b c → le a c)
  (total : ∀ a b, le a b || le b a)

include trans total

theorem mergeSort_cons_split (a : α) (l : List α) :
    l.mergeSort le = (l.mergeSort le).filter (!le a ·) ++ (l.mergeSort le).filter (le a ·) ∧
      (a :: l).mergeSort le =
        (l.mergeSort le).filter (!le a ·) ++ a :: (l.mergeSort le).filter (le a ·) := by
  obtain ⟨l₁, l₂, sorted, rest, before⟩ := List.mergeSort_cons trans total a l
  have after : ∀ b ∈ l₂, le a b := by
    have all := List.pairwise_mergeSort trans total (a :: l)
    rw [sorted, List.pairwise_append, List.pairwise_cons] at all
    exact all.2.1.1
  have front : (l.mergeSort le).filter (!le a ·) = l₁ := by
    have none : l₂.filter (!le a ·) = [] := List.filter_eq_nil_iff.mpr fun b hb => by simp [after b hb]
    rw [rest, List.filter_append, none, List.append_nil, List.filter_eq_self.mpr before]
  have back : (l.mergeSort le).filter (le a ·) = l₂ := by
    have none : l₁.filter (le a ·) = [] :=
      List.filter_eq_nil_iff.mpr fun b hb => by simpa using before b hb
    rw [rest, List.filter_append, none, List.nil_append, List.filter_eq_self.mpr after]
  rw [front, back]
  exact ⟨rest, sorted⟩

theorem pairwise_mergeSort_ties {R : α → α → Prop} {l : List α} (h : l.Pairwise R) :
    (l.mergeSort le).Pairwise fun a b => le b a → R a b := by
  induction l with
  | nil => simp
  | cons a l ih =>
    obtain ⟨first, others⟩ := List.pairwise_cons.mp h
    obtain ⟨parts, sorted⟩ := mergeSort_cons_split trans total a l
    have kept := ih others
    rw [parts, List.pairwise_append] at kept
    rw [sorted, List.pairwise_append, List.pairwise_cons]
    refine ⟨kept.1, ⟨?_, kept.2.1⟩, ?_⟩
    · intro b hb _
      exact first b (List.mem_mergeSort.mp (List.mem_filter.mp hb).1)
    · intro b hb c hc
      rcases List.mem_cons.mp hc with rfl | hc
      · -- What was put in front of the list stands behind `b` only if it comes after it.
        intro later
        simpa [later] using (List.mem_filter.mp hb).2
      · exact kept.2.2 b hb c hc

theorem filter_mergeSort (p : α → Bool) (l : List α) :
    (l.mergeSort le).filter p = (l.filter p).mergeSort le := by
  induction l with
  | nil => simp
  | cons a l ih =>
    obtain ⟨parts, sorted⟩ := mergeSort_cons_split trans total a l
    rw [sorted, List.filter_append]
    by_cases kept : p a
    · rw [List.filter_cons_of_pos kept, List.filter_cons_of_pos kept,
        (mergeSort_cons_split trans total a (l.filter p)).2, ← ih, List.filter_comm,
        List.filter_comm (le a ·)]
    · rw [List.filter_cons_of_neg kept, List.filter_cons_of_neg kept, ← List.filter_append, ← parts,
        ih]

end Sorting

section Grouping

variable {α β : Type}

theorem nodup_eraseDups [BEq β] [LawfulBEq β] : ∀ l : List β, l.eraseDups.Nodup
  | [] => by simp
  | b :: l => by
    rw [List.eraseDups_cons, List.nodup_cons]
    exact ⟨by simp, nodup_eraseDups (l.filter fun c => !c == b)⟩
termination_by l => l.length
decreasing_by
  have shorter := List.length_filter_le (fun c => !c == b) l
  rw [List.length_cons]
  omega

variable [DecidableEq β]

theorem filter_eq_of_nodup {l : List β} (h : l.Nodup) (b : β) :
    l.filter (fun c => decide (c = b)) = if b ∈ l then [b] else [] := by
  rw [List.filter_eq, h.count]
  split_ifs <;> rfl

theorem flatMap_filter_perm (key : α → β) {keys : List β} (distinct : keys.Nodup) {l : List α}
    (known : ∀ a ∈ l, key a ∈ keys) :
    (keys.flatMap fun k => l.filter fun a => decide (key a = k)).Perm l := by
  induction keys generalizing l with
  | nil =>
    obtain rfl := List.eq_nil_iff_forall_not_mem.mpr fun a ha => List.not_mem_nil (known a ha)
    exact .refl _
  | cons k keys ih =>
    obtain ⟨fresh, distinct⟩ := List.nodup_cons.mp distinct
    have others : (keys.flatMap fun k' => l.filter fun a => decide (key a = k')) =
        keys.flatMap fun k' =>
          (l.filter fun a => !decide (key a = k)).filter fun a => decide (key a = k') := by
      apply List.flatMap_congr
      intro k' hk'
      rw [List.filter_filter]
      apply List.filter_congr
      intro a _
      have apart : k' ≠ k := fun same => fresh (same ▸ hk')
      by_cases own : key a = k' <;> simp [own, apart]
    have rest := ih distinct (l := l.filter fun a => !decide (key a = k)) (by
      intro a ha
      obtain ⟨inside, apart⟩ := List.mem_filter.mp ha
      exact (List.mem_cons.mp (known a inside)).resolve_left (by simpa using apart))
    rw [List.flatMap_cons, others]
    exact (rest.append_left _).trans (List.filter_append_perm _ l)

end Grouping

end FormulaMigration
