import Mathlib.Tactic.Common

namespace FormulaMigration

section Except

variable {ε α β : Type}

theorem exists_of_bind_eq_ok {x : Except ε α} {f : α → Except ε β} {b : β} (h : x >>= f = .ok b) :
    ∃ a, x = .ok a ∧ f a = .ok b := by
  cases x with
  | error e => cases h
  | ok a => exact ⟨a, rfl, h⟩

theorem error_or_of_bind {x : Except ε α} {f : α → Except ε β} {e : ε} (h : x >>= f = .error e) :
    x = .error e ∨ ∃ a, x = .ok a ∧ f a = .error e := by
  cases x with
  | error e' =>
    cases h
    exact .inl rfl
  | ok a => exact .inr ⟨a, rfl, h⟩

theorem foldlM_invariant {P : β → Prop} {f : β → α → Except ε β} {l : List α}
    (step : ∀ a ∈ l, ∀ b b', f b a = .ok b' → P b → P b') {b b' : β} (run : l.foldlM f b = .ok b')
    (start : P b) : P b' := by
  induction l generalizing b with
  | nil =>
    cases run
    exact start
  | cons a l ih =>
    rw [List.foldlM_cons] at run
    obtain ⟨b'', here, run⟩ := exists_of_bind_eq_ok run
    obtain ⟨first, rest⟩ := List.forall_mem_cons.mp step
    exact ih rest run (first b b'' here start)

theorem exists_of_foldlM_eq_error {f : β → α → Except ε β} {l : List α} {b : β} {e : ε}
    (h : l.foldlM f b = .error e) :
    ∃ l' a l'' b', l = l' ++ a :: l'' ∧ l'.foldlM f b = .ok b' ∧ f b' a = .error e := by
  induction l generalizing b with
  | nil => cases h
  | cons a l ih =>
    rw [List.foldlM_cons] at h
    rcases error_or_of_bind h with here | ⟨b', passed, h⟩
    · exact ⟨[], a, l, b, rfl, rfl, here⟩
    · obtain ⟨l', a', l'', b'', rfl, run, fails⟩ := ih h
      refine ⟨a :: l', a', l'', b'', rfl, ?_, fails⟩
      rw [List.foldlM_cons, passed]
      exact run

theorem toOption_bind {x x' : Except ε α} {f f' : α → Except ε β} (h : x.toOption = x'.toOption)
    (next : ∀ a, (f a).toOption = (f' a).toOption) :
    (x >>= f).toOption = (x' >>= f').toOption := by
  cases x with
  | error e =>
    cases x' with
    | error e' => rfl
    | ok a => cases h
  | ok a =>
    cases x' with
    | error e => cases h
    | ok a' =>
      obtain rfl := Option.some.inj h
      exact next a

theorem exists_of_mapM_eq_ok {f : α → Except ε β} {l : List α} {bs : List β}
    (h : l.mapM f = .ok bs) :
    ∃ pairs : List (α × β), pairs.map Prod.fst = l ∧ pairs.map Prod.snd = bs ∧
      ∀ pair ∈ pairs, f pair.1 = .ok pair.2 := by
  induction l generalizing bs with
  | nil =>
    obtain rfl := Except.ok.inj h
    exact ⟨[], rfl, rfl, by simp⟩
  | cons a l ih =>
    rw [List.mapM_cons] at h
    obtain ⟨b, here, h⟩ := exists_of_bind_eq_ok h
    obtain ⟨rest, others, h⟩ := exists_of_bind_eq_ok h
    obtain rfl := Except.ok.inj h
    obtain ⟨pairs, rfl, rfl, known⟩ := ih others
    exact ⟨(a, b) :: pairs, rfl, rfl, List.forall_mem_cons.mpr ⟨here, known⟩⟩

theorem mapM_eq_ok_map {f : α → Except ε β} {g : α → β} {l : List α}
    (known : ∀ a ∈ l, f a = .ok (g a)) : l.mapM f = .ok (l.map g) := by
  induction l with
  | nil => rfl
  | cons a l ih =>
    obtain ⟨here, known⟩ := List.forall_mem_cons.mp known
    rw [List.mapM_cons, here, ih known]
    rfl

theorem mapM_eq_error {f : α → Except ε β} {before after : List α} {a : α} {e : ε}
    (passed : ∀ a' ∈ before, ∃ b, f a' = .ok b) (fails : f a = .error e) :
    (before ++ a :: after).mapM f = .error e := by
  induction before with
  | nil =>
    rw [List.nil_append, List.mapM_cons, fails]
    rfl
  | cons a' before ih =>
    obtain ⟨⟨b, here⟩, passed⟩ := List.forall_mem_cons.mp passed
    rw [List.cons_append, List.mapM_cons, here, ih passed]
    rfl

end Except

section EStateM

open Std.Do

variable {ε σ α β : Type}

theorem exists_of_run_bind_eq_ok {x : EStateM ε σ α} {f : α → EStateM ε σ β} {b : β} {s s' : σ}
    (h : (x >>= f) s = .ok b s') : ∃ a between, x s = .ok a between ∧ f a between = .ok b s' := by
  change EStateM.bind x f s = _ at h
  rw [EStateM.bind] at h
  cases run : x s with
  | error e between => simp [run] at h
  | ok a between => exact ⟨a, between, rfl, by simpa [run] using h⟩

theorem run_of_triple {x : EStateM ε σ α} {P : σ → Prop} {Q : α → σ → Prop} {R : ε → σ → Prop}
    (triple : ⦃fun s => ⌜P s⌝⦄ x ⦃post⟨fun a s => ⌜Q a s⌝, fun e s => ⌜R e s⌝⟩⦄) {s : σ} (h : P s) :
    match x s with
    | .ok a s' => Q a s'
    | .error e s' => R e s' := by
  have holds := triple s h
  simp only [WP.wp, PredTrans.apply] at holds
  cases run : x s <;> rw [EStateM.run, run] at holds <;> exact holds

end EStateM

end FormulaMigration
