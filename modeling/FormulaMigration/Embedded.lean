import FormulaMigration.Script

/-!
Free text with formulas between double bars. A span `||formula||` is not empty and holds no bar. The
spans of a text are found from left to right, each starting after the end of the one before.
-/

namespace FormulaMigration

namespace Embedded

def scriptStart : Text := "<script>".toList

def scriptEnd : Text := "</script>".toList

def span? : Text → Option (Text × Text)
  | a :: b :: rest =>
    let formula := rest.takeWhile (· ≠ '|')
    match rest.dropWhile (· ≠ '|') with
    | c :: d :: after =>
      if a = '|' ∧ b = '|' ∧ formula ≠ [] ∧ c = '|' ∧ d = '|' then some (formula, after) else none
    | _ => none
  | _ => none

theorem span?_eq_some {t formula after : Text} (h : span? t = some (formula, after)) :
    t = '|' :: '|' :: formula ++ '|' :: '|' :: after ∧ formula ≠ [] ∧ '|' ∉ formula := by
  match t, h with
  | a :: b :: rest, h =>
    simp only [span?] at h
    split at h
    next c d after' hd =>
      split at h
      next bars =>
        simp only [Option.some.injEq, Prod.mk.injEq] at h
        obtain ⟨rfl, rfl⟩ := h
        obtain ⟨rfl, rfl, nonempty, rfl, rfl⟩ := bars
        refine ⟨by rw [← hd]; simp, nonempty, fun mem => ?_⟩
        have := List.all_takeWhile (p := fun c => decide (c ≠ '|')) (l := rest)
        rw [List.all_eq_true] at this
        simpa using this _ mem
      next => cases h
    next => cases h

inductive Part
  | plain (c : Char)
  | formula (t : Text)
deriving DecidableEq

/-- Cuts a text at its spans; the first `skip` characters belong to a span that was cut already. -/
def partsFrom (skip : Nat) : Text → List Part
  | [] => []
  | c :: rest =>
    match skip with
    | skip + 1 => partsFrom skip rest
    | 0 =>
      match span? (c :: rest) with
      | some (formula, _) => .formula formula :: partsFrom (formula.length + 3) rest
      | none => .plain c :: partsFrom 0 rest

def parts (t : Text) : List Part :=
  partsFrom 0 t

def convertPart : Part → Conversion
  | .plain c => ⟨[c], []⟩
  | .formula t =>
    let conversion := Formula.convert t
    ⟨scriptStart ++ conversion.output ++ scriptEnd, conversion.issues⟩

def convert (t : Text) : Conversion :=
  let conversions := (parts t).map convertPart
  ⟨conversions.flatMap (·.output), conversions.flatMap (·.issues)⟩

def hasSpan : Text → Bool
  | [] => false
  | c :: rest => (span? (c :: rest)).isSome || hasSpan rest

def hasScript (t : Text) : Bool :=
  t.includes scriptStart

end Embedded

end FormulaMigration
