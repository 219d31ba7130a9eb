import Mathlib.Algebra.Group.Nat.Defs
import Mathlib.Algebra.Ring.Int.Defs
import FormulaMigration.Proofs.ClosingParenthesis
import FormulaMigration.Proofs.Slices

namespace FormulaMigration

namespace Text

theorem join_push (c : Char) (t : Text) (ts : List Text) :
    join [','] ((c :: t) :: ts) = c :: join [','] (t :: ts) := by
  cases ts <;> rfl

theorem join_comma {us vs : List Text} (hu : us ≠ []) (hv : vs ≠ []) :
    join [','] (us ++ vs) = join [','] us ++ ',' :: join [','] vs := by
  rw [Script.join_append hu hv, List.append_assoc, List.singleton_append]

theorem join_prefix {us vs : List Text} (h : us <+: vs) : join [','] us <+: join [','] vs := by
  obtain ⟨ws, rfl⟩ := h
  by_cases hu : us = []
  · rw [hu]
    exact List.nil_prefix
  by_cases hw : ws = []
  · simp [hw]
  · exact ⟨',' :: join [','] ws, (join_comma hu hw).symm⟩

theorem even_iff (t : Text) :
    (encode t).count 0x28 = (encode t).count 0x29 ↔ t.count '(' = t.count ')' := by
  obtain ⟨opens, closes⟩ := Prod.mk.inj (parentheses_encode t)
  rw [opens, closes]

end Text

namespace Arguments

theorem level_eq_zero {t : Text} : level t = 0 ↔ t.count '(' = t.count ')' := by
  rw [level]
  omega

theorem pieces_append_comma {l : Text} (flat : level l = 0) (r : Text) :
    pieces 0 (l ++ ',' :: r) = pieces 0 l ++ pieces 0 r := by
  rw [pieces_append_level, flat, Int.add_zero, pieces_comma, List.modifyHead_cons, List.append_nil]
  conv_rhs => rw [← List.dropLast_append_getLast (pieces_ne_nil 0 l)]
  rw [List.append_assoc, List.singleton_append]

theorem level_of_pieces {depth : Int} {t : Text} {us vs : List Text}
    (cut : pieces depth t = us ++ vs) (hu : us ≠ []) (hv : vs ≠ []) :
    depth + level (Text.join [','] us) = 0 := by
  induction t generalizing depth us with
  | nil =>
    obtain ⟨u, us, rfl⟩ := List.exists_cons_of_ne_nil hu
    obtain ⟨rfl, none⟩ := List.cons.inj cut
    exact absurd (List.append_eq_nil_iff.mp none.symm).2 hv
  | cons c t ih =>
    obtain ⟨u, us, rfl⟩ := List.exists_cons_of_ne_nil hu
    by_cases comma : c = ',' ∧ depth = 0
    · obtain ⟨rfl, rfl⟩ := comma
      rw [pieces_comma, List.cons_append] at cut
      obtain ⟨rfl, tail⟩ := List.cons.inj cut
      cases us with
      | nil => rfl
      | cons w us =>
        have rest := ih tail (List.cons_ne_nil w us)
        have front : Text.join [','] ([] :: w :: us) = ',' :: Text.join [','] (w :: us) := rfl
        have flat : ([','].count '(' : Int) - [','].count ')' = 0 := rfl
        rw [front, level_cons, flat]
        omega
    · obtain ⟨piece, more, cut'⟩ := List.exists_cons_of_ne_nil
        (pieces_ne_nil (depth + [c].count '(' - [c].count ')') t)
      rw [pieces_cons comma, cut', List.modifyHead_cons, List.cons_append] at cut
      obtain ⟨rfl, rfl⟩ := List.cons.inj cut
      have rest := ih cut' (List.cons_ne_nil piece us)
      rw [Text.join_push, level_cons]
      omega

/-- The pieces of a text that is cut at exactly the commas before which the bytes of `(` and of `)`
are equally many. -/
structure Cuts (t : Text) (ps : List Text) : Prop where
  filled : ps ≠ []
  whole : Text.join [','] ps = t
  commas : ∀ l r,
    (∃ us vs, us ≠ [] ∧ vs ≠ [] ∧ ps = us ++ vs ∧ Text.join [','] us = l ∧
      Text.join [','] vs = r) ↔
    t = l ++ ',' :: r ∧ (Text.encode l).count 0x28 = (Text.encode l).count 0x29

theorem cuts_pieces (t : Text) : Cuts t (pieces 0 t) := by
  refine ⟨pieces_ne_nil 0 t, join_pieces 0 t, fun l r => ?_⟩
  rw [Text.even_iff, ← level_eq_zero]
  constructor
  · rintro ⟨us, vs, hu, hv, cut, rfl, rfl⟩
    have flat := level_of_pieces cut hu hv
    rw [Int.zero_add] at flat
    exact ⟨by rw [← Text.join_comma hu hv, ← cut, join_pieces], flat⟩
  · rintro ⟨rfl, flat⟩
    exact ⟨pieces 0 l, pieces 0 r, pieces_ne_nil 0 l, pieces_ne_nil 0 r,
      pieces_append_comma flat r, join_pieces 0 l, join_pieces 0 r⟩

theorem Cuts.whole_cons {t p : Text} {ps : List Text} (h : Cuts t (p :: ps)) (hp : ps ≠ []) :
    t = p ++ ',' :: Text.join [','] ps ∧ level p = 0 := by
  have cut := (h.commas p (Text.join [','] ps)).mp
    ⟨[p], ps, List.cons_ne_nil p [], hp, rfl, rfl, rfl⟩
  exact ⟨cut.1, level_eq_zero.mpr ((Text.even_iff p).mp cut.2)⟩

theorem Cuts.sheltered {t p : Text} {ps : List Text} (h : Cuts t (p :: ps)) : p.Sheltered := by
  rintro l r rfl even
  -- Every cut of the text is at the end of the first piece or behind it.
  obtain ⟨more, whole⟩ : ∃ more, t = l ++ ',' :: (r ++ more) := by
    by_cases hp : ps = []
    · exact ⟨[], by rw [← h.whole, hp, Text.join, List.append_nil]⟩
    · exact ⟨',' :: Text.join [','] ps, by rw [(h.whole_cons hp).1]; simp⟩
  obtain ⟨us, vs, hu, -, cut, shorter, -⟩ :=
    (h.commas l (r ++ more)).mpr ⟨whole, (Text.even_iff l).mpr even⟩
  obtain ⟨u, us, rfl⟩ := List.exists_cons_of_ne_nil hu
  obtain ⟨rfl, -⟩ := List.cons.inj cut
  have start : [l ++ ',' :: r] <+: (l ++ ',' :: r) :: us :=
    List.cons_prefix_cons.mpr ⟨rfl, List.nil_prefix⟩
  have length := (Text.join_prefix start).length_le
  rw [shorter] at length
  simp only [Text.join, List.length_append, List.length_cons] at length
  omega

theorem Cuts.tail {t p : Text} {ps : List Text} (h : Cuts t (p :: ps)) (hp : ps ≠ []) :
    Cuts (Text.join [','] ps) ps := by
  obtain ⟨whole, flat⟩ := h.whole_cons hp
  refine ⟨hp, rfl, fun l r => ?_⟩
  have behind : level (p ++ ',' :: l) = level l := by
    rw [level, level, List.count_append, List.count_append, List.count_cons_of_ne (by decide),
      List.count_cons_of_ne (by decide)]
    rw [level] at flat
    omega
  have cut := h.commas (p ++ ',' :: l) r
  rw [Text.even_iff, ← level_eq_zero, behind, level_eq_zero, ← Text.even_iff, whole] at cut
  constructor
  · rintro ⟨us, vs, hu, hv, rfl, rfl, rfl⟩
    have front : Text.join [','] (p :: us) = p ++ ',' :: Text.join [','] us :=
      Text.join_comma (List.cons_ne_nil p []) hu
    obtain ⟨same, even⟩ :=
      cut.mp ⟨p :: us, vs, List.cons_ne_nil p us, hv, rfl, front, rfl⟩
    exact ⟨Text.join_comma hu hv, even⟩
  · rintro ⟨rest, even⟩
    obtain ⟨us, vs, hu, hv, parts, left, right⟩ := cut.mpr ⟨by rw [rest]; simp, even⟩
    obtain ⟨u, us, rfl⟩ := List.exists_cons_of_ne_nil hu
    obtain ⟨rfl, rfl⟩ := List.cons.inj parts
    by_cases hu : us = []
    · subst hu
      simp [Text.join] at left
    · have front : Text.join [','] (p :: us) = p ++ ',' :: Text.join [','] us :=
        Text.join_comma (List.cons_ne_nil p []) hu
      rw [front] at left
      exact ⟨us, vs, hu, hv, rfl, (List.cons.inj (List.append_cancel_left left)).2, right⟩

theorem Cuts.eq_pieces {t : Text} {ps : List Text} (h : Cuts t ps) : ps = pieces 0 t := by
  induction ps generalizing t with
  | nil => exact absurd rfl h.filled
  | cons p ps ih =>
    by_cases hp : ps = []
    · rw [← h.whole, hp, Text.join, pieces_of_sheltered h.sheltered]
    · obtain ⟨whole, flat⟩ := h.whole_cons hp
      rw [whole, pieces_append_comma flat, pieces_of_sheltered h.sheltered, ← ih (h.tail hp),
        List.singleton_append]

section Loop

/-- Adds to the depth; `keep` is what the counter makes of a value, and nothing when it has no room
for it. -/
def turn (keep : Int → Option Int) (change depth : Int) : Except Fault Int :=
  if change = 0 then .ok depth
  else
    match keep (depth + change) with
    | some depth => .ok depth
    | none => .error .overflow

def change (b : UInt8) : Int :=
  if b = 0x28 then 1 else if b = 0x29 then -1 else 0

def cutFrom (keep : Int → Option Int) (t : Text) (place start : Nat) (depth : Int) :
    Bytes → Except Fault (List Text)
  | [] => do .ok [← t.cut start (Text.byteLength t)]
  | b :: bytes =>
    if b = 0x2C ∧ depth = 0 then do
      let piece ← t.cut start place
      .ok (piece :: (← cutFrom keep t (place + 1) (place + 1) depth bytes))
    else do
      let depth ← turn keep (change b) depth
      cutFrom keep t (place + 1) start depth bytes

def split (keep : Int → Option Int) (t : Text) : Except Fault (List Text) := do
  let pieces ← cutFrom keep t 0 0 0 (Text.encode t)
  .ok (pieces.takeWhile (!·.isEmpty))

def counter (depth : Int) : Option Int :=
  if -2 ^ 31 ≤ depth ∧ depth < 2 ^ 31 then some depth else none

variable {keep : Int → Option Int} {t : Text} {place start n : Nat} {depth : Int}

def Room (keep : Int → Option Int) (n : Nat) : Prop :=
  ∀ d : Int, d.natAbs ≤ n → keep d = some d

theorem Room.mono {m : Nat} (h : Room keep n) (hm : m ≤ n) : Room keep m :=
  fun d hd => h d (Nat.le_trans hd hm)

theorem room_counter (h : n < 2 ^ 31) : Room counter n :=
  fun _ _ => if_pos (by omega)

theorem cutFrom_plain {bs : Bytes} (plain : ∀ b ∈ bs, b ≠ 0x28 ∧ b ≠ 0x29 ∧ b ≠ 0x2C)
    (bytes : Bytes) :
    cutFrom keep t place start depth (bs ++ bytes) =
      cutFrom keep t (place + bs.length) start depth bytes := by
  induction bs generalizing place with
  | nil => rfl
  | cons b bs ih =>
    obtain ⟨first, plain⟩ := List.forall_mem_cons.mp plain
    have flat : change b = 0 := by rw [change, if_neg first.1, if_neg first.2.1]
    have next : place + 1 + bs.length = place + (b :: bs).length := by
      rw [List.length_cons]
      omega
    rw [List.cons_append, cutFrom, if_neg fun comma => first.2.2 comma.1, flat, turn, if_pos rfl,
      ← next, ← ih plain]
    rfl

theorem cutFrom_last {front part : Text} (whole : front ++ (part ++ []) = t)
    (reached : Text.byteLength front + Text.byteLength part = place) :
    cutFrom keep t place (Text.byteLength front) depth [] = .ok [part] := by
  have last : Text.byteLength t = place := by
    rw [← whole, List.append_nil, Text.byteLength_append, reached]
  change (do .ok [← t.cut _ _]) = _
  rw [last, Text.cut_append whole reached]
  rfl

theorem cutFrom_comma {front part rest : Text} (whole : front ++ (part ++ rest) = t)
    (reached : Text.byteLength front + Text.byteLength part = place) (bytes : Bytes) :
    cutFrom keep t place (Text.byteLength front) 0 (Text.encodeChar ',' ++ bytes) =
      (do .ok (part :: (← cutFrom keep t (place + 1) (place + 1) 0 bytes))) := by
  change (do
    let piece ← t.cut (Text.byteLength front) place
    .ok (piece :: (← cutFrom keep t (place + 1) (place + 1) 0 bytes))) = _
  rw [Text.cut_append whole reached]
  rfl

theorem cutFrom_encodeChar {c : Char} (h : ¬ (c = ',' ∧ depth = 0)) (bytes : Bytes) :
    cutFrom keep t place start depth (Text.encodeChar c ++ bytes) =
      (do
        let depth ← turn keep (level [c]) depth
        cutFrom keep t (place + c.utf8Size) start depth bytes) := by
  by_cases opens : c = '('
  · subst opens
    rfl
  by_cases closes : c = ')'
  · subst closes
    rfl
  have flat : level [c] = 0 := by simp [level, opens, closes]
  rw [flat, turn, if_pos rfl]
  by_cases comma : c = ','
  · subst comma
    have deep : depth ≠ 0 := fun zero => h ⟨rfl, zero⟩
    change cutFrom keep t place start depth (0x2C :: bytes) = _
    rw [cutFrom, if_neg fun comma => deep comma.2]
    rfl
  · have other {d : Char} {b : UInt8} (hd : c ≠ d) (ascii : b.toNat < 0x80)
        (same : d.toNat = b.toNat) : b ∉ Text.encodeChar c := by
      intro mem
      exact hd (Char.toNat_inj.mp ((Text.toNat_of_mem_encodeChar mem ascii).trans same.symm))
    rw [cutFrom_plain, Text.length_encodeChar]
    · rfl
    · intro b mem
      refine ⟨?_, ?_, ?_⟩ <;> rintro rfl
      · exact other opens (by decide) rfl mem
      · exact other closes (by decide) rfl mem
      · exact other comma (by decide) rfl mem

theorem ends_turn (keep : Int → Option Int) (change depth : Int) :
    Ends (turn keep change depth) := by
  rw [turn]
  split
  · trivial
  · split
    · trivial
    · rfl

theorem turn_exact {change : Int} (exact : keep (depth + change) = some (depth + change)) :
    turn keep change depth = .ok (depth + change) := by
  rw [turn, exact]
  split_ifs with flat
  · rw [flat, Int.add_zero]
  · rfl

theorem natAbs_level_singleton (c : Char) : (level [c]).natAbs ≤ 1 := by
  have opens := List.count_le_length (a := '(') (l := [c])
  have closes := List.count_le_length (a := ')') (l := [c])
  rw [List.length_singleton] at opens closes
  rw [level]
  omega

theorem cutFrom_encode (keep : Int → Option Int) (depth : Int) {front part rest : Text}
    (whole : front ++ (part ++ rest) = t)
    (reached : Text.byteLength front + Text.byteLength part = place) :
    let loop := cutFrom keep t place (Text.byteLength front) depth (Text.encode rest)
    Gives (fun ps => ps ≠ [] ∧ Text.join [','] ps = part ++ rest) loop ∧
      ((∀ d, (d - depth).natAbs ≤ rest.length → keep d = some d) →
        loop = .ok ((pieces depth rest).modifyHead (part ++ ·))) := by
  dsimp only
  induction rest generalizing front part place depth with
  | nil =>
    have loop : cutFrom keep t place (Text.byteLength front) depth (Text.encode []) = _ :=
      cutFrom_last whole reached
    rw [loop, pieces, List.modifyHead_cons, List.append_nil]
    exact ⟨⟨List.cons_ne_nil _ _, rfl⟩, fun _ => rfl⟩
  | cons c rest ih =>
    rw [Text.encode_cons]
    by_cases comma : c = ',' ∧ depth = 0
    · obtain ⟨rfl, rfl⟩ := comma
      have width : Text.byteLength (front ++ (part ++ [','])) = place + 1 := by
        rw [← reached, Text.byteLength_append, Text.byteLength_append]
        rfl
      have behind : (front ++ (part ++ [','])) ++ ([] ++ rest) = t := by simp [← whole]
      have here : Text.byteLength (front ++ (part ++ [','])) + Text.byteLength [] = place + 1 := by
        rw [width]
        rfl
      obtain ⟨sliced, exact⟩ := ih 0 behind here
      rw [width] at sliced exact
      rw [cutFrom_comma whole reached, pieces_comma, List.modifyHead_cons, List.append_nil]
      constructor
      · refine sliced.bind fun ps known => gives_ok ⟨List.cons_ne_nil _ _, ?_⟩
        have cut := Text.join_comma (List.cons_ne_nil part []) known.1
        rw [List.singleton_append, known.2] at cut
        exact cut
      · intro room
        rw [exact fun d near => room d (by rw [List.length_cons]; omega)]
        obtain ⟨piece, more, cut⟩ := List.exists_cons_of_ne_nil (pieces_ne_nil 0 rest)
        rw [cut]
        rfl
    · have here : Text.byteLength front + Text.byteLength (part ++ [c]) = place + c.utf8Size := by
        rw [← reached, Text.byteLength_append, Nat.add_assoc]
        rfl
      have behind : front ++ ((part ++ [c]) ++ rest) = t := by simp [← whole]
      have next (depth : Int) := ih depth behind here
      have back (ps : List Text) : (ps.modifyHead (c :: ·)).modifyHead (part ++ ·) =
          ps.modifyHead ((part ++ [c]) ++ ·) := by
        cases ps <;> simp
      have deep : depth + [c].count '(' - [c].count ')' = depth + level [c] := by
        rw [level]
        omega
      rw [cutFrom_encodeChar comma, pieces_cons comma, deep, back]
      constructor
      · refine (ends_turn _ _ _).bind fun depth' _ => ?_
        have sliced := (next depth').1
        rwa [List.append_assoc, List.singleton_append] at sliced
      · intro room
        have near := natAbs_level_singleton c
        rw [turn_exact (room _ (by rw [List.length_cons]; omega))]
        exact (next _).2 fun d hd => room d (by rw [List.length_cons]; omega)

theorem cutFrom_start (keep : Int → Option Int) (t : Text) :
    Gives (fun ps => Text.join [','] ps = t) (cutFrom keep t 0 0 0 (Text.encode t)) ∧
      (Room keep t.length → cutFrom keep t 0 0 0 (Text.encode t) = .ok (pieces 0 t)) := by
  have whole : [] ++ ([] ++ t) = t := rfl
  obtain ⟨sliced, exact⟩ := cutFrom_encode keep 0 whole rfl
  refine ⟨sliced.mono fun ps known => known.2, fun room => ?_⟩
  obtain ⟨piece, more, cut⟩ := List.exists_cons_of_ne_nil (pieces_ne_nil 0 t)
  rw [cut] at exact ⊢
  exact exact fun d near => room d (by rwa [Int.sub_zero] at near)

theorem gives_split (keep : Int → Option Int) (t : Text) :
    Gives (fun ps => ∀ p ∈ ps, Text.byteLength p ≤ Text.byteLength t) (split keep t) := by
  refine (cutFrom_start keep t).1.bind fun ps joined => gives_ok fun p mem => ?_
  rw [← joined]
  exact Text.byteLength_le_join [','] ((List.takeWhile_sublist _).subset mem)

theorem split_exact (room : Room keep (Text.byteLength t)) : split keep t = .ok (ofText t) := by
  rw [split, (cutFrom_start keep t).2 (room.mono t.length_le_byteLength)]
  rfl

end Loop

theorem filled_of_not_mem {qs : List Text} (filled : [] ∉ qs) :
    ∀ q ∈ qs, (!q.isEmpty) = true := by
  intro q mem
  rw [Bool.not_eq_true', List.isEmpty_eq_false_iff]
  rintro rfl
  exact filled mem

theorem prefix_pieces (t : Text) : ofText t <+: pieces 0 t :=
  List.takeWhile_prefix _

theorem prefix_ofText {t : Text} {qs : List Text} (start : qs <+: pieces 0 t)
    (filled : [] ∉ qs) : qs <+: ofText t := by
  obtain ⟨rest, whole⟩ := start
  rw [ofText, ← whole, List.takeWhile_append_of_pos (filled_of_not_mem filled)]
  exact List.prefix_append _ _

theorem nil_not_mem_ofText (t : Text) : [] ∉ ofText t := by
  intro mem
  cases List.mem_takeWhile_imp mem

theorem join_ofText_eq_iff {t : Text} (ht : t ≠ []) :
    Text.join [','] (ofText t) = t ↔ [] ∉ pieces 0 t := by
  constructor
  · intro whole empty
    obtain ⟨rest, cut⟩ := prefix_pieces t
    have kept : ofText t ≠ [] := by
      intro none
      rw [none] at whole
      exact ht whole.symm
    have more : rest ≠ [] := by
      rintro rfl
      rw [← cut, List.append_nil] at empty
      exact nil_not_mem_ofText t empty
    have length := congrArg List.length (Text.join_comma kept more)
    rw [cut, join_pieces, whole, List.length_append, List.length_cons] at length
    omega
  · intro filled
    have all : ofText t = pieces 0 t := List.takeWhile_eq_self_iff.mpr (filled_of_not_mem filled)
    rw [all, join_pieces]

/-- A text is cut at exactly the commas before which the bytes of `(` and of `)` are equally many,
and the arguments are the longest start of the pieces that holds no empty one. A text shorter than
2^31 bytes is sliced at boundaries only, and the depth never leaves 32 bits. -/
theorem ofText_longest_filled (t : Text) (short : Text.byteLength t < 2 ^ 31) :
    ∃ ps, (∀ qs, Cuts t qs ↔ qs = ps) ∧
      (ofText t <+: ps ∧ [] ∉ ofText t ∧ ∀ qs, qs <+: ps → [] ∉ qs → qs <+: ofText t) ∧
      Text.join [','] (ofText t) <+: t ∧
      (t ≠ [] → (Text.join [','] (ofText t) = t ↔ [] ∉ ps)) ∧
      split counter t = .ok (ofText t) := by
  refine ⟨pieces 0 t, fun qs => ⟨Cuts.eq_pieces, ?_⟩,
    ⟨prefix_pieces t, nil_not_mem_ofText t, fun qs => prefix_ofText⟩, ?_, join_ofText_eq_iff,
    split_exact (room_counter short)⟩
  · rintro rfl
    exact cuts_pieces t
  · have whole := Text.join_prefix (prefix_pieces t)
    rwa [join_pieces] at whole

theorem ofText_longest_filled_unbalanced :
    Text.byteLength ")a,\u00e9(,(b,c),".toList < 2 ^ 31 ∧
      Cuts ")a,\u00e9(,(b,c),".toList [")a,\u00e9(".toList, "(b,c)".toList, []] ∧
      split counter ")a,\u00e9(,(b,c),".toList = .ok [")a,\u00e9(".toList, "(b,c)".toList] := by
  have short : Text.byteLength ")a,\u00e9(,(b,c),".toList < 2 ^ 31 := by decide
  obtain ⟨_, -, -, -, -, sliced⟩ := ofText_longest_filled _ short
  have pieces : Cuts ")a,\u00e9(,(b,c),".toList [")a,\u00e9(".toList, "(b,c)".toList, []] :=
    cuts_pieces ")a,\u00e9(,(b,c),".toList
  exact ⟨short, pieces, sliced⟩

end Arguments

end FormulaMigration
