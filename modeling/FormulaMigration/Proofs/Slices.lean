import FormulaMigration.Proofs.Utf8

/-!
Slices of a text from one byte up to another. Main statements: there is a slice exactly between two
boundaries that are in order, and a boundary is where no byte goes on with a character.
-/

namespace FormulaMigration

inductive Fault
  | slice
  | overflow
  | endless
deriving DecidableEq

section Gives

variable {α β : Type} {P : α → Prop} {Q : β → Prop}

/-- The result has a property, and there is one unless a counter has no room. -/
def Gives (P : α → Prop) : Except Fault α → Prop
  | .ok a => P a
  | .error f => f = .overflow

theorem Gives.mono {P' : α → Prop} {x : Except Fault α} (hx : Gives P x) (h : ∀ a, P a → P' a) :
    Gives P' x := by
  cases x with
  | ok a => exact h a hx
  | error e => exact hx

theorem Gives.bind {x : Except Fault α} {f : α → Except Fault β} (hx : Gives P x)
    (next : ∀ a, P a → Gives Q (f a)) : Gives Q (x >>= f) := by
  cases x with
  | ok a => exact next a hx
  | error e => exact hx

theorem gives_ok {a : α} (h : P a) : Gives P (.ok a) := h

abbrev Ends (x : Except Fault α) : Prop :=
  Gives (fun _ => True) x

theorem ends_ok {a : α} : Ends (.ok a) := trivial

theorem ends_mapM {f : α → Except Fault β} {l : List α} (h : ∀ a ∈ l, Ends (f a)) :
    Ends (l.mapM f) := by
  induction l with
  | nil => trivial
  | cons a l ih =>
    obtain ⟨first, rest⟩ := List.forall_mem_cons.mp h
    rw [List.mapM_cons]
    exact first.bind fun _ _ => (ih rest).bind fun _ _ => ends_ok

end Gives

namespace Text

theorem byteLength_cons (c : Char) (t : Text) : byteLength (c :: t) = c.utf8Size + byteLength t :=
  rfl

theorem byteLength_pos {t : Text} (h : t ≠ []) : 0 < byteLength t :=
  Nat.lt_of_lt_of_le (List.length_pos_iff.mpr h) t.length_le_byteLength

theorem eq_nil_of_byteLength {t : Text} (h : byteLength t = 0) : t = [] := by
  by_contra filled
  have := byteLength_pos filled
  omega

theorem splitAtByte_append (before l r : Text) :
    splitAtByte before (byteLength l) (l ++ r) = some (l.reverse ++ before, r) := by
  induction l generalizing before with
  | nil => cases r <;> rfl
  | cons c l ih =>
    have := c.utf8Size_pos
    obtain ⟨n, width⟩ := Nat.exists_eq_succ_of_ne_zero (n := byteLength (c :: l))
      (by rw [byteLength_cons]; omega)
    have fits : c.utf8Size ≤ n + 1 := by
      rw [byteLength_cons] at width
      omega
    have left : n + 1 - c.utf8Size = byteLength l := by
      rw [byteLength_cons] at width
      omega
    rw [width, List.cons_append, splitAtByte, if_pos fits, left, ih]
    simp

theorem splitAtByte_eq_some_iff {t before rest : Text} {i : Nat} :
    splitAtByte [] i t = some (before, rest) ↔
      t = before.reverse ++ rest ∧ byteLength before.reverse = i := by
  constructor
  · intro h
    obtain ⟨passed, whole, rfl, width⟩ := splitAtByte_eq_some h
    simpa using ⟨whole, width⟩
  · rintro ⟨rfl, rfl⟩
    rw [splitAtByte_append, List.reverse_reverse, List.append_nil]

theorem append_inj_of_byteLength {l r l' r' : Text} (whole : l ++ r = l' ++ r')
    (width : byteLength l = byteLength l') : l = l' ∧ r = r' := by
  have cut := splitAtByte_append [] l r
  rw [whole, width, splitAtByte_append] at cut
  obtain ⟨same, rest⟩ := Prod.mk.inj (Option.some.inj cut)
  rw [List.append_nil, List.append_nil] at same
  exact ⟨(List.reverse_inj.mp same).symm, rest.symm⟩

def Boundary (t : Text) (i : Nat) : Prop :=
  ∃ l r, t = l ++ r ∧ byteLength l = i

theorem Boundary.le {t : Text} {i : Nat} (h : t.Boundary i) : i ≤ byteLength t := by
  obtain ⟨l, r, rfl, rfl⟩ := h
  rw [byteLength_append]
  omega

def slice? (t : Text) (first last : Nat) : Option Text :=
  if first ≤ last then
    (splitAtByte [] first t).bind fun (_, rest) =>
      (splitAtByte [] (last - first) rest).map fun (part, _) => part.reverse
  else none

theorem slice?_append (l m r : Text) :
    slice? (l ++ (m ++ r)) (byteLength l) (byteLength l + byteLength m) = some m := by
  have ordered : byteLength l ≤ byteLength l + byteLength m := Nat.le_add_right _ _
  rw [slice?, if_pos ordered, splitAtByte_append, Nat.add_sub_cancel_left]
  simp [splitAtByte_append]

theorem slice?_eq_some_iff {t m : Text} {first last : Nat} :
    slice? t first last = some m ↔
      ∃ l r, t = l ++ (m ++ r) ∧ byteLength l = first ∧ first + byteLength m = last := by
  constructor
  · intro h
    unfold slice? at h
    split_ifs at h with ordered
    obtain ⟨⟨before, rest⟩, cut, h⟩ := Option.bind_eq_some_iff.mp h
    obtain ⟨⟨part, after⟩, cut', rfl⟩ := Option.map_eq_some_iff.mp h
    obtain ⟨rfl, width⟩ := splitAtByte_eq_some_iff.mp cut
    obtain ⟨rfl, width'⟩ := splitAtByte_eq_some_iff.mp cut'
    refine ⟨before.reverse, after, rfl, width, ?_⟩
    dsimp only
    omega
  · rintro ⟨l, r, rfl, rfl, rfl⟩
    exact slice?_append l m r

theorem slice?_isSome_iff {t : Text} {first last : Nat} :
    (slice? t first last).isSome ↔ first ≤ last ∧ t.Boundary first ∧ t.Boundary last := by
  rw [Option.isSome_iff_exists]
  constructor
  · rintro ⟨m, h⟩
    obtain ⟨l, r, rfl, rfl, rfl⟩ := slice?_eq_some_iff.mp h
    refine ⟨Nat.le_add_right _ _, ⟨l, m ++ r, rfl, rfl⟩, l ++ m, r, ?_, byteLength_append l m⟩
    rw [List.append_assoc]
  · rintro ⟨ordered, ⟨l, r, rfl, rfl⟩, l', r', whole, rfl⟩
    rcases List.append_eq_append_iff.mp whole with ⟨m, rfl, rfl⟩ | ⟨m, rfl, rfl⟩
    · exact ⟨m, by rw [byteLength_append, slice?_append]⟩
    · rw [byteLength_append] at ordered
      obtain rfl : m = [] := eq_nil_of_byteLength (by omega)
      rw [List.append_nil]
      exact ⟨[], slice?_append l' [] r⟩

def cut (t : Text) (first last : Nat) : Except Fault Text :=
  match slice? t first last with
  | some part => .ok part
  | none => .error .slice

theorem cut_eq_error_iff {t : Text} {first last : Nat} :
    t.cut first last = .error .slice ↔ ¬ (first ≤ last ∧ t.Boundary first ∧ t.Boundary last) := by
  rw [← slice?_isSome_iff, cut]
  cases slice? t first last <;> simp

theorem cut_append {t l m r : Text} {last : Nat} (whole : l ++ (m ++ r) = t)
    (reached : byteLength l + byteLength m = last) : t.cut (byteLength l) last = .ok m := by
  rw [cut, ← whole, ← reached, slice?_append]

theorem exists_encodeChar (c : Char) :
    ∃ b bs, encodeChar c = b :: bs ∧ isContinuation b = false ∧
      ∀ b' ∈ bs, isContinuation b' = true := by
  have lead {n : Nat} (h : n < 256) (high : n < 0x80 ∨ 0xC0 ≤ n) :
      isContinuation (UInt8.ofNat n) = false := by
    have parts : (0x80 ≤ UInt8.ofNat n ↔ 0x80 ≤ n) ∧ (UInt8.ofNat n < 0xC0 ↔ n < 0xC0) :=
      ⟨le_byte h, lt_byte h⟩
    simp only [isContinuation, parts.1, parts.2, Bool.and_eq_false_iff, decide_eq_false_iff_not]
    omega
  have rest {n : Nat} : isContinuation (UInt8.ofNat (0x80 + n % 64)) = true :=
    isContinuation_byte (Nat.mod_lt _ (by decide))
  have valid := toNat_lt c
  simp only [encodeChar]
  split_ifs with one two three
  · exact ⟨_, [], rfl, lead (by omega) (.inl one), by simp⟩
  · exact ⟨_, _, rfl, lead (by omega) (.inr (by omega)), List.forall_mem_singleton.mpr rest⟩
  · exact ⟨_, _, rfl, lead (by omega) (.inr (by omega)),
      List.forall_mem_cons.mpr ⟨rest, List.forall_mem_singleton.mpr rest⟩⟩
  · exact ⟨_, _, rfl, lead (by omega) (.inr (by omega)), List.forall_mem_cons.mpr
      ⟨rest, List.forall_mem_cons.mpr ⟨rest, List.forall_mem_singleton.mpr rest⟩⟩⟩

theorem boundary_iff {t : Text} {i : Nat} :
    t.Boundary i ↔ i ≤ byteLength t ∧
      ∀ b, (encode t)[i]? = some b → isContinuation b = false := by
  constructor
  · intro h
    refine ⟨h.le, fun b here => ?_⟩
    obtain ⟨l, r, rfl, rfl⟩ := h
    rw [encode_append, ← length_encode, List.getElem?_append_right (Nat.le_refl _),
      Nat.sub_self] at here
    cases r with
    | nil => cases here
    | cons c r =>
      obtain ⟨b', bs, bytes, first, -⟩ := exists_encodeChar c
      rw [encode_cons, bytes] at here
      cases here
      exact first
  · rintro ⟨inside, start⟩
    induction t generalizing i with
    | nil =>
      obtain rfl : i = 0 := Nat.le_zero.mp inside
      exact ⟨[], [], rfl, rfl⟩
    | cons c t ih =>
      by_cases first : i = 0
      · exact ⟨[], c :: t, rfl, first.symm⟩
      have width := length_encodeChar c
      rw [encode_cons] at start
      by_cases passed : c.utf8Size ≤ i
      · rw [List.getElem?_append_right (by omega), width] at start
        rw [byteLength_cons] at inside
        obtain ⟨l, r, rfl, place⟩ := ih (by omega) start
        exact ⟨c :: l, r, rfl, by rw [byteLength_cons]; omega⟩
      · -- Within a form all bytes but the first go on with the character.
        obtain ⟨b, bs, bytes, -, others⟩ := exists_encodeChar c
        rw [bytes, List.length_cons] at width
        obtain ⟨j, rfl⟩ := Nat.exists_eq_succ_of_ne_zero first
        have short : j < bs.length := by omega
        have here : (encodeChar c ++ encode t)[j + 1]? = some bs[j] := by
          rw [bytes, List.cons_append, List.getElem?_cons_succ,
            List.getElem?_append_left short, List.getElem?_eq_getElem short]
        cases (others _ (List.getElem_mem short)).symm.trans (start _ here)

end Text

end FormulaMigration
