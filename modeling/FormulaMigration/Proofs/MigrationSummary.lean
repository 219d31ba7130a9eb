import FormulaMigration.Proofs.Migration
import FormulaMigration.Proofs.Recording

namespace FormulaMigration

structure NamedString where
  place : List Nat
  kind : FieldKind
  text : Text

def NamedString.below (i : Nat) (s : NamedString) : NamedString :=
  { s with place := i :: s.place }

namespace Json

def stringAt? (v : Json) (place : List Nat) : Option Text :=
  match v.at? none place with
  | some (_, .string t) => some t
  | _ => none

theorem sizeOf_lt_of_mem_children {v : Json} {child : Option Text × Json}
    (h : child ∈ v.children) : sizeOf child.2 < sizeOf v := by
  cases v with
  | array items =>
    obtain ⟨w, mem, rfl⟩ := List.mem_map.mp h
    have smaller := List.sizeOf_lt_of_mem mem
    simp only [array.sizeOf_spec]
    omega
  | object members =>
    obtain ⟨⟨key, w⟩, mem, rfl⟩ := List.mem_map.mp h
    have smaller := List.sizeOf_lt_of_mem mem
    simp only [object.sizeOf_spec, Prod.mk.sizeOf_spec] at smaller ⊢
    omega
  | _ => cases h

end Json

namespace Tally

def total (tallies : List Tally) : Tally :=
  tallies.foldr add zero

theorem total_nil : total [] = zero := rfl

theorem total_cons (a : Tally) (as : List Tally) : total (a :: as) = a.add (total as) := rfl

theorem total_append (as bs : List Tally) : total (as ++ bs) = (total as).add (total bs) := by
  induction as with
  | nil => simp [total_nil, add, zero]
  | cons a as ih =>
    rw [List.cons_append, total_cons, total_cons, ih]
    simp [add, Nat.add_assoc]

end Tally

namespace IssueCount

theorem length_eq_countP (issues : List Issue) :
    issues.length = issues.countP (·.kind = .originalKept) +
      issues.countP (·.kind = .argumentPlaceholder) := by
  rw [issues.length_eq_countP_add_countP (fun issue => decide (issue.kind = .originalKept))]
  congr 1
  apply List.countP_congr
  intro issue _
  cases issue.kind <;> simp

theorem ofIssues_eq (issues : List Issue) :
    ofIssues issues = ⟨issues.length, issues.countP (·.kind = .originalKept),
      issues.countP (·.kind = .argumentPlaceholder)⟩ := by
  simp only [ofIssues, length_eq_countP, Nat.add_sub_cancel_left]

end IssueCount

namespace Plan

variable {plan : Plan}

instance (plan : Plan) (kind : FieldKind) (t : Text) : Decidable (plan.Spares kind t) :=
  inferInstanceAs (Decidable (_ ∨ _))

def fieldOf (plan : Plan) (s : NamedString) : Migrated Text :=
  plan.migrateField s.kind s.text

mutual
def strings (plan : Plan) : Json → List NamedString
  | .array items => itemStrings plan 0 items
  | .object members => memberStrings plan 0 members
  | .null => []
  | .bool _ => []
  | .number _ => []
  | .string _ => []
def itemStrings (plan : Plan) (i : Nat) : List Json → List NamedString
  | [] => []
  | v :: rest => (strings plan v).map (.below i) ++ itemStrings plan (i + 1) rest
def memberStrings (plan : Plan) (i : Nat) : List (Text × Json) → List NamedString
  | [] => []
  | (key, v) :: rest =>
    let inside : List NamedString :=
      match plan.kindOf? key, v with
      | some kind, .string t => [⟨[], kind, t⟩]
      | _, v => strings plan v
    inside.map (.below i) ++ memberStrings plan (i + 1) rest
end

def stringsOf (plan : Plan) (key : Option Text) (v : Json) : List NamedString :=
  match key.bind plan.kindOf?, v with
  | some kind, .string t => [⟨[], kind, t⟩]
  | _, v => plan.strings v

theorem stringsOf_none (v : Json) : plan.stringsOf none v = plan.strings v := by
  cases v <;> rfl

def childStrings (plan : Plan) (i : Nat) : List (Option Text × Json) → List NamedString
  | [] => []
  | (key, v) :: rest => (plan.stringsOf key v).map (.below i) ++ childStrings plan (i + 1) rest

theorem itemStrings_eq (i : Nat) (items : List Json) :
    plan.itemStrings i items = plan.childStrings i (items.map fun v => (none, v)) := by
  induction items generalizing i with
  | nil => rfl
  | cons v items ih => rw [itemStrings, ih, List.map_cons, childStrings, stringsOf_none]

theorem memberStrings_eq (i : Nat) (members : List (Text × Json)) :
    plan.memberStrings i members =
      plan.childStrings i (members.map fun (key, v) => (some key, v)) := by
  induction members generalizing i with
  | nil => rfl
  | cons member members ih =>
    obtain ⟨key, v⟩ := member
    rw [memberStrings.eq_def, List.map_cons, childStrings, ← ih, stringsOf.eq_def]
    rfl

theorem strings_eq (v : Json) : plan.strings v = plan.childStrings 0 v.children := by
  cases v with
  | array items => exact itemStrings_eq 0 items
  | object members => exact memberStrings_eq 0 members
  | _ => rfl

theorem mem_childStrings {children : List (Option Text × Json)} {i : Nat} {s : NamedString} :
    s ∈ plan.childStrings i children ↔ ∃ j key v, children[j]? = some (key, v) ∧
      ∃ s' ∈ plan.stringsOf key v, s'.below (i + j) = s := by
  induction children generalizing i with
  | nil => simp [childStrings]
  | cons child children ih =>
    obtain ⟨key, v⟩ := child
    rw [childStrings, List.mem_append, ih, List.mem_map]
    constructor
    · rintro (⟨s', mem, rfl⟩ | ⟨j, key', w, here, s', mem, rfl⟩)
      · exact ⟨0, key, v, rfl, s', mem, rfl⟩
      · exact ⟨j + 1, key', w, here, s', mem, by rw [Nat.add_right_comm, Nat.add_assoc]⟩
    · rintro ⟨j, key', w, here, s', mem, rfl⟩
      cases j with
      | zero =>
        cases here
        exact .inl ⟨s', mem, rfl⟩
      | succ j => exact .inr ⟨j, key', w, here, s', mem, by rw [Nat.add_right_comm, Nat.add_assoc]⟩

theorem stringsOf_named {key : Option Text} {kind : FieldKind}
    (h : key.bind plan.kindOf? = some kind) (t : Text) :
    plan.stringsOf key (.string t) = [⟨[], kind, t⟩] := by
  rw [stringsOf.eq_def, h]

theorem stringsOf_other {key : Option Text} {v : Json}
    (h : ∀ kind t, key.bind plan.kindOf? = some kind → v ≠ .string t) :
    plan.stringsOf key v = plan.strings v := by
  unfold stringsOf
  split
  next kind t named => exact absurd rfl (h kind t named)
  next => rfl

theorem mem_strings {v : Json} {i : Nat} {place : List Nat} {kind : FieldKind} {t : Text} :
    ⟨i :: place, kind, t⟩ ∈ plan.strings v ↔ ∃ key child, v.children[i]? = some (key, child) ∧
      ⟨place, kind, t⟩ ∈ plan.stringsOf key child := by
  rw [strings_eq, mem_childStrings]
  constructor
  · rintro ⟨j, key, child, here, s, mem, below⟩
    rw [Nat.zero_add] at below
    cases below
    exact ⟨key, child, here, mem⟩
  · rintro ⟨key, child, here, mem⟩
    exact ⟨i, key, child, here, _, mem, by rw [Nat.zero_add]; rfl⟩

theorem place_ne_nil {v : Json} {s : NamedString} (h : s ∈ plan.strings v) : s.place ≠ [] := by
  rw [strings_eq, mem_childStrings] at h
  obtain ⟨j, key, child, here, s', mem, rfl⟩ := h
  exact List.cons_ne_nil _ _

theorem mem_stringsOf {key : Option Text} {v : Json} {place : List Nat} {kind : FieldKind}
    {t : Text} : ⟨place, kind, t⟩ ∈ plan.stringsOf key v ↔
      ∃ name, v.at? key place = some (some name, .string t) ∧ plan.kindOf? name = some kind := by
  induction place generalizing key v with
  | nil =>
    rw [Json.at?]
    by_cases named : ∃ kind t, key.bind plan.kindOf? = some kind ∧ v = .string t
    · obtain ⟨kind', t', known, rfl⟩ := named
      obtain ⟨name, rfl, listed⟩ := Option.bind_eq_some_iff.mp known
      rw [stringsOf_named known]
      constructor
      · intro mem
        cases List.mem_singleton.mp mem
        exact ⟨name, rfl, listed⟩
      · rintro ⟨name', same, listed'⟩
        cases same
        cases listed.symm.trans listed'
        exact List.mem_singleton_self _
    · rw [stringsOf_other fun kind t known string => named ⟨kind, t, known, string⟩]
      constructor
      · intro mem
        exact absurd rfl (place_ne_nil mem)
      · rintro ⟨name, same, listed⟩
        cases same
        exact absurd ⟨kind, t, listed, rfl⟩ named
  | cons i place ih =>
    rw [Json.at?]
    by_cases named : ∃ kind t, key.bind plan.kindOf? = some kind ∧ v = .string t
    · obtain ⟨kind', t', known, rfl⟩ := named
      rw [stringsOf_named known]
      simp [Json.children]
    · rw [stringsOf_other fun kind t known string => named ⟨kind, t, known, string⟩, mem_strings]
      cases v.children[i]? with
      | none => simp
      | some child =>
        obtain ⟨key', child⟩ := child
        simpa [and_assoc] using ih

theorem below_lt_below {i : Nat} {s s' : NamedString} (h : s.place < s'.place) :
    (s.below i).place < (s'.below i).place :=
  List.cons_lt_cons_iff.mpr (.inr ⟨rfl, h⟩)

theorem childStrings_ordered {children : List (Option Text × Json)}
    (h : ∀ child ∈ children, (plan.stringsOf child.1 child.2).Pairwise (·.place < ·.place))
    (i : Nat) : (plan.childStrings i children).Pairwise (·.place < ·.place) := by
  induction children generalizing i with
  | nil => exact .nil
  | cons child children ih =>
    obtain ⟨first, rest⟩ := List.forall_mem_cons.mp h
    rw [childStrings, List.pairwise_append]
    refine ⟨?_, ih rest (i + 1), ?_⟩
    · exact first.map _ fun _ _ => below_lt_below
    · -- All of the first child comes before all of the others.
      intro s mem s' mem'
      obtain ⟨r, -, rfl⟩ := List.mem_map.mp mem
      obtain ⟨j, key, v, -, r', -, rfl⟩ := mem_childStrings.mp mem'
      exact List.cons_lt_cons_iff.mpr (.inl (by omega))

theorem strings_ordered (v : Json) : (plan.strings v).Pairwise (·.place < ·.place) := by
  induction hn : sizeOf v using Nat.strongRecOn generalizing v with
  | ind n ih =>
    rw [strings_eq]
    apply childStrings_ordered
    rintro ⟨key, child⟩ mem
    by_cases named : ∃ kind t, key.bind plan.kindOf? = some kind ∧ child = .string t
    · obtain ⟨kind, t, known, rfl⟩ := named
      rw [stringsOf_named known]
      exact List.pairwise_singleton _ _
    · rw [stringsOf_other fun kind t known string => named ⟨kind, t, known, string⟩]
      exact ih _ (hn ▸ Json.sizeOf_lt_of_mem_children mem) child rfl

structure Consists {α : Type} (plan : Plan) (m : Migrated α) (ss : List NamedString) : Prop where
  tally : m.tally = Tally.total (ss.map fun s => (plan.fieldOf s).tally)
  issues : m.issues = ss.flatMap fun s => (plan.fieldOf s).issues

namespace Consists

variable {α β γ : Type} {m : Migrated α} {n : Migrated β} {ss ss' : List NamedString}

theorem same (a : α) : Consists plan (.same a) [] :=
  ⟨rfl, rfl⟩

theorem map (h : Consists plan m ss) (f : α → β) : Consists plan (m.map f) ss :=
  ⟨h.tally, h.issues⟩

theorem below (h : Consists plan m ss) (i : Nat) : Consists plan m (ss.map (.below i)) := by
  constructor
  · rw [h.tally, List.map_map]
    rfl
  · rw [h.issues, List.flatMap_map]
    rfl

theorem combine (h : Consists plan m ss) (h' : Consists plan n ss') (f : α → β → γ) :
    Consists plan (m.combine f n) (ss ++ ss') := by
  constructor
  · rw [List.map_append, Tally.total_append, ← h.tally, ← h'.tally]
    rfl
  · rw [List.flatMap_append, ← h.issues, ← h'.issues]
    rfl

theorem field (kind : FieldKind) (t : Text) (f : Text → α) :
    Consists plan ((plan.migrateField kind t).map f) [⟨[], kind, t⟩] := by
  constructor
  · simp [Migrated.map, fieldOf, Tally.total, Tally.add, Tally.zero]
  · simp [Migrated.map, fieldOf]

end Consists

mutual
theorem walk_consists (plan : Plan) : ∀ v : Json, Consists plan (plan.walk v) (plan.strings v)
  | .array items => by
    rw [walk, strings]
    exact (walkItems_consists plan 0 items).map Json.array
  | .object members => by
    rw [walk, strings]
    exact (walkMembers_consists plan 0 members).map Json.object
  | .null => .same _
  | .bool _ => .same _
  | .number _ => .same _
  | .string _ => .same _
theorem walkItems_consists (plan : Plan) (i : Nat) :
    ∀ items : List Json, Consists plan (plan.walkItems items) (plan.itemStrings i items)
  | [] => .same _
  | v :: rest => ((walk_consists plan v).below i).combine (walkItems_consists plan (i + 1) rest) _
theorem walkMembers_consists (plan : Plan) (i : Nat) :
    ∀ members : List (Text × Json),
      Consists plan (plan.walkMembers members) (plan.memberStrings i members)
  | [] => .same _
  | (key, v) :: rest => by
    have tail := walkMembers_consists plan (i + 1) rest
    have inside := walk_consists plan v
    rw [walkMembers.eq_def, memberStrings.eq_def]
    apply Consists.combine _ tail
    apply Consists.below
    cases plan.kindOf? key with
    | none => exact inside
    | some kind =>
      cases v with
      | string t => exact .field kind t _
      | _ => exact inside
end

theorem stringAt?_walk {document : Json} {s : NamedString} (h : s ∈ plan.strings document) :
    (plan.walk document).value.stringAt? s.place = some (plan.fieldOf s).value := by
  rw [← stringsOf_none, mem_stringsOf] at h
  obtain ⟨name, here, listed⟩ := h
  rw [Json.stringAt?, ← renewed_none, at?_renewed_eq, here, Option.map_some]
  have named : (some name).bind plan.kindOf? = some s.kind := listed
  dsimp only
  rw [renewed_named named]
  rfl

theorem fieldOf_blank {s : NamedString} (h : ∀ c ∈ s.text, isWhiteSpace c) :
    plan.fieldOf s = ⟨s.text, .oneUnchanged, []⟩ := by
  rw [fieldOf, migrateField, if_pos (Text.trim_eq_nil h)]

theorem fieldOf_skipped {s : NamedString} (h : plan.Spares s.kind s.text)
    (filled : ¬ ∀ c ∈ s.text, isWhiteSpace c) : plan.fieldOf s = ⟨s.text, .oneSkipped, []⟩ := by
  obtain ⟨embedded, skips, script⟩ := h.resolve_left filled
  have holds : Embedded.hasScript s.text := Text.includes_iff.mpr script
  rw [fieldOf, migrateField, if_neg (mt Text.trim_eq_nil_iff.mp filled), if_pos]
  simp [embedded, skips, holds]

theorem fieldOf_taken {s : NamedString} (h : ¬ plan.Spares s.kind s.text) :
    plan.fieldOf s = ⟨(convertField s.kind s.text).output,
      if (convertField s.kind s.text).output = s.text then .oneUnchanged else .oneConverted,
      (convertField s.kind s.text).issues⟩ := by
  have filled : s.text.trim ≠ [] := fun blank => h (.inl (Text.trim_eq_nil_iff.mp blank))
  rw [fieldOf, migrateField, if_neg filled, if_neg]
  simp only [Bool.and_eq_true, decide_eq_true_eq]
  rintro ⟨⟨skips, embedded⟩, holds⟩
  exact h (.inr ⟨embedded, skips, Text.includes_iff.mp holds⟩)

def issuesOf (plan : Plan) (s : NamedString) : List Issue :=
  if plan.Spares s.kind s.text then []
  else
    match s.kind with
    | .expression => (Formula.convert s.text).issues
    | .embedded => (Embedded.convert s.text).issues

def Skips (plan : Plan) (s : NamedString) : Prop :=
  plan.Spares s.kind s.text ∧ ¬ ∀ c ∈ s.text, isWhiteSpace c

instance (plan : Plan) (s : NamedString) : Decidable (plan.Skips s) :=
  inferInstanceAs (Decidable (_ ∧ _))

theorem issues_fieldOf (s : NamedString) : (plan.fieldOf s).issues = plan.issuesOf s := by
  rw [issuesOf]
  split_ifs with spared
  · by_cases blank : ∀ c ∈ s.text, isWhiteSpace c
    · rw [fieldOf_blank blank]
    · rw [fieldOf_skipped spared blank]
  · rw [fieldOf_taken spared]
    cases s.kind <;> rfl

theorem tally_fieldOf (s : NamedString) :
    (plan.fieldOf s).tally.candidates = 1 ∧
      (plan.fieldOf s).tally.converted = (if (plan.fieldOf s).value ≠ s.text then 1 else 0) ∧
      (plan.fieldOf s).tally.skipped = (if plan.Skips s then 1 else 0) ∧
      (plan.fieldOf s).tally.converted + (plan.fieldOf s).tally.unchanged +
        (plan.fieldOf s).tally.skipped = 1 := by
  by_cases blank : ∀ c ∈ s.text, isWhiteSpace c
  · have kept : ¬ plan.Skips s := fun skips => skips.2 blank
    rw [fieldOf_blank blank]
    simp [Tally.oneUnchanged, kept]
  by_cases spared : plan.Spares s.kind s.text
  · have skips : plan.Skips s := ⟨spared, blank⟩
    rw [fieldOf_skipped spared blank]
    simp [Tally.oneSkipped, skips]
  · have taken : ¬ plan.Skips s := fun skips => spared skips.1
    rw [fieldOf_taken spared]
    split_ifs <;> simp_all [Tally.oneUnchanged, Tally.oneConverted]

theorem total_fieldOf (ss : List NamedString) :
    let tally := Tally.total (ss.map fun s => (plan.fieldOf s).tally)
    tally.candidates = ss.length ∧
      tally.converted = ss.countP (fun s => (plan.fieldOf s).value ≠ s.text) ∧
      tally.skipped = ss.countP (plan.Skips ·) ∧
      tally.converted + tally.unchanged + tally.skipped = tally.candidates := by
  induction ss with
  | nil => exact ⟨rfl, rfl, rfl, rfl⟩
  | cons s ss ih =>
    obtain ⟨one, changed, skipped, parts⟩ := plan.tally_fieldOf s
    obtain ⟨candidates, converted, skips, sum⟩ := ih
    simp only [List.map_cons, Tally.total_cons, Tally.add, List.length_cons, List.countP_cons]
    refine ⟨by omega, ?_, ?_, by omega⟩
    · rw [changed, converted, Nat.add_comm]
      simp
    · rw [skipped, skips, Nat.add_comm]
      simp

/-- The report of a migration that found no version: what it says of the strings that the plan names
in the document, and of the records that it appends to a ledger. -/
structure Accounts (plan : Plan) (document : Json) (m : Migration) (l : Ledger) (time : UInt64)
    (strings : List NamedString) : Prop where
  ordered : strings.Pairwise (·.place < ·.place)
  named : ∀ s : NamedString, s ∈ strings ↔
    ∃ key, document.at? none s.place = some (some key, .string s.text) ∧
      plan.kindOf? key = some s.kind
  visited : m.summary.alreadyMigrated = false
  candidates : m.summary.tally.candidates = strings.length
  parts : m.summary.tally.candidates =
    m.summary.tally.converted + m.summary.tally.unchanged + m.summary.tally.skipped
  converted : m.summary.tally.converted =
    strings.countP fun s => (plan.walk document).value.stringAt? s.place ≠ some s.text
  skipped : m.summary.tally.skipped = strings.countP (plan.Skips ·)
  records : (l.extend time m.issues).records =
    l.records ++ (strings.flatMap plan.issuesOf).map (⟨time, ·⟩)
  total : l.records.length + m.summary.fallbacks.total = (l.extend time m.issues).records.length
  originalsKept : m.summary.fallbacks.originalsKept =
    ((l.extend time m.issues).records.drop l.records.length).countP (·.issue.kind = .originalKept)
  argumentPlaceholders : m.summary.fallbacks.argumentPlaceholders =
    ((l.extend time m.issues).records.drop l.records.length).countP
      (·.issue.kind = .argumentPlaceholder)
  kinds : m.summary.fallbacks.total =
    m.summary.fallbacks.originalsKept + m.summary.fallbacks.argumentPlaceholders
  recorded : ∀ clock, plan.migrateOnto clock document l =
    some ((m.document, m.summary), l.recordAll clock m.issues)

/-- The counts of a migration are those of the strings that the plan names, and its issues are
theirs in the order of the document, whatever the ledger holds before. -/
theorem accounts_migrate {document : Json} (h : ¬ plan.isMigrated document) (l : Ledger)
    (time : UInt64) : ∃ strings, plan.Accounts document (plan.migrate document) l time strings := by
  obtain ⟨tally, issues⟩ := plan.walk_consists document
  obtain ⟨candidates, converted, skipped, parts⟩ := plan.total_fieldOf (plan.strings document)
  rw [← tally] at candidates converted skipped parts
  have count := IssueCount.ofIssues_eq (plan.walk document).issues
  have appended : (l.extend time (plan.walk document).issues).records.drop l.records.length =
      (plan.walk document).issues.map (⟨time, ·⟩) := by
    rw [Ledger.extend, List.drop_left]
  have migrated : plan.migrate document = ⟨plan.stamp (plan.walk document).value,
      ⟨(plan.walk document).tally, false, .ofIssues (plan.walk document).issues⟩,
      (plan.walk document).issues⟩ := by
    rw [migrate, if_neg h]
  have recorded (clock : Nat → UInt64) := plan.migrateOnto_gives clock document l
  rw [migrated] at recorded ⊢
  refine ⟨plan.strings document, ?_⟩
  constructor
  case ordered => exact strings_ordered document
  case named =>
    rintro ⟨place, kind, t⟩
    rw [← stringsOf_none]
    exact mem_stringsOf
  case visited => rfl
  case candidates => exact candidates
  case parts => exact parts.symm
  case converted =>
    rw [converted]
    apply List.countP_congr
    intro s mem
    rw [stringAt?_walk mem]
    simp
  case skipped => exact skipped
  case records =>
    rw [Ledger.extend, issues, List.flatMap_congr fun s _ => issues_fieldOf s]
  case total => simp [Ledger.extend, IssueCount.ofIssues]
  case originalsKept =>
    rw [appended, count, List.countP_map]
    rfl
  case argumentPlaceholders =>
    rw [appended, count, List.countP_map]
    rfl
  case kinds =>
    rw [count]
    exact IssueCount.length_eq_countP _
  case recorded => exact recorded

theorem accounts_migrate_nested :
    ∃ document l, document = Json.record [("name", .ofString "a ||x)|| b"),
        ("items", .array [.record [("expression", .ofString "1+abs(-)")],
          .record [("notes", .ofString " ")],
          .record [("text", .ofString "<script>a</script>||b||")]]),
        ("formula", .ofString "7"), ("version", .ofString "old")] ∧
      l = Ledger.empty.extend 3 [⟨.originalKept, "y)".toList, "unmatched".toList⟩] ∧
      ¬ legacy.isMigrated document ∧
      (legacy.migrate document).summary = ⟨⟨5, 2, 2, 1⟩, false, ⟨2, 1, 1⟩⟩ ∧
      ∃ strings, legacy.Accounts document (legacy.migrate document) l 7 strings := by
  refine ⟨_, _, rfl, rfl, by decide, rfl, accounts_migrate (by decide) _ _⟩

end Plan

end FormulaMigration
