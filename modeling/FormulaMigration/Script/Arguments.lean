import FormulaMigration.Text

namespace FormulaMigration

namespace Arguments

/-- The pieces of a text between the commas that stand at depth 0. A `(` goes one deeper and a `)`
one back, below 0 too. -/
def pieces (depth : Int) : Text → List Text
  | [] => [[]]
  | c :: rest =>
    if c = ',' ∧ depth = 0 then [] :: pieces depth rest
    else
      let depth := if c = '(' then depth + 1 else if c = ')' then depth - 1 else depth
      match pieces depth rest with
      | piece :: more => (c :: piece) :: more
      | [] => [[c]]

theorem pieces_ne_nil (depth : Int) (t : Text) : pieces depth t ≠ [] := by
  induction t generalizing depth with
  | nil => simp [pieces]
  | cons c t ih =>
    simp only [pieces]
    split
    · simp
    · split <;> simp

theorem join_pieces (depth : Int) (t : Text) : Text.join [','] (pieces depth t) = t := by
  induction t generalizing depth with
  | nil => rfl
  | cons c t ih =>
    simp only [pieces]
    split
    next h =>
      have := ih depth
      cases hp : pieces depth t with
      | nil => exact absurd hp (pieces_ne_nil _ _)
      | cons p ps =>
        rw [hp] at this
        simp [Text.join, this, h.1]
    next =>
      split
      next piece more hp =>
        have := ih (if c = '(' then depth + 1 else if c = ')' then depth - 1 else depth)
        rw [hp] at this
        cases more <;> simp_all [Text.join]
      next hp => exact absurd hp (pieces_ne_nil _ _)

def ofText (t : Text) : List Text :=
  (pieces 0 t).takeWhile (!·.isEmpty)

end Arguments

end FormulaMigration
